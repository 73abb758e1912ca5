/-
  Spectty.Sessions.FailedSpawn

  What a spawn that fails leaves behind.

  The cleanup covers the steps after the session was registered.  A refusal of
  the hook rows comes before it, and the pipeline is not part of it.
-/

import Spectty.Sessions.Invariants

namespace Spectty.Sessions

open Spectty.Core
open Spectty.Lib
open Spectty.Provision
open Spectty.Commands

section

variable (J : ConfigJson) (host : Host)

/-- The same sessions, the same pipelines, and the same managed entries in the
    files of every scope. -/
structure NothingLeft (st st' : AppState) : Prop where
  sessions : st'.sessions.sessions = st.sessions.sessions
  pipelines : st'.pipelines = st.pipelines
  server : ∀ scope,
    managedEntry J (st'.files (host.fileAt (host.mcpProvisioner.pathFor scope))) =
      managedEntry J (st.files (host.fileAt (host.mcpProvisioner.pathFor scope)))
  rows : ∀ scope,
    ownedRows J host.hooksProvisioner.hookCommand
        (st'.files (host.fileAt (host.hooksProvisioner.pathFor scope))) =
      ownedRows J host.hooksProvisioner.hookCommand
        (st.files (host.fileAt (host.hooksProvisioner.pathFor scope)))

/-- The failures of a spawn that undo all it did. -/
inductive Undoes (args : SpawnArgs) (io : SpawnIo) (st : AppState) : Prop
  | noRunner (h : requiresProvisioning args.agent.kind = none)
  | serverRefused (hrequires : requiresProvisioning args.agent.kind = some true)
      (hmcp : ¬ Injectable J host io (args.scope io) st.files .mcp)
  /-- The managed server was there already, as the spawn would have it. -/
  | rowsRefused (hrequires : requiresProvisioning args.agent.kind = some true)
      (hmcp : Injectable J host io (args.scope io) st.files .mcp)
      (hhooks : ¬ Injectable J host io (args.scope io) st.files .hooks)
      (hmarked : Marked J host .mcp (args.scope io) st.files)
  /-- The terminal did not start, and nothing was owned in the scope before. -/
  | unopened (hrunner : requiresProvisioning args.agent.kind ≠ none)
      (hinjectable : ∀ scope ∈ targetOf args io, ∀ kind,
        Injectable J host io scope st.files kind)
      (hopens : ¬ Opens io)
      (hclean : ∀ scope ∈ targetOf args io, ∀ kind, Clean J host kind scope st.files)

end

variable {J : ConfigJson} {host : Host} {args : SpawnArgs} {io : SpawnIo} {st st' : AppState}
  {files : Files} {e : String}

theorem nothingLeft_iff : NothingLeft J host st st' ↔
    st'.sessions.sessions = st.sessions.sessions ∧ st'.pipelines = st.pipelines ∧
      ∀ kind scope, ownedAt J host kind scope st'.files = ownedAt J host kind scope st.files := by
  constructor
  · rintro ⟨hsessions, hpipelines, hserver, hrows⟩
    refine ⟨hsessions, hpipelines, fun kind scope => ?_⟩
    cases kind with
    | mcp => exact hserver scope
    | hooks => exact hrows scope
  · rintro ⟨hsessions, hpipelines, howned⟩
    exact ⟨hsessions, hpipelines, howned .mcp, howned .hooks⟩

/-- A refusal of the hook rows leaves nothing exactly if the managed server was
    there. -/
theorem nothingLeft_halfway
    (hfiles : (own J host .mcp).Edits (marked J host .mcp) (args.scope io) st.files files) :
    NothingLeft J host st { st with sessions := minted st, files } ↔
      Marked J host .mcp (args.scope io) st.files := by
  rw [nothingLeft_iff]
  constructor
  · rintro ⟨-, -, howned⟩
    exact hfiles.owned.symm.trans (howned .mcp (args.scope io))
  · intro hmarked
    refine ⟨rfl, rfl, fun kind scope => ?_⟩
    show ownedAt J host kind scope files = _
    by_cases hpath : fileOf J host kind scope = fileOf J host .mcp (args.scope io)
    · obtain rfl := kind_of_fileOf_eq hpath
      unfold ownedAt
      rw [hpath]
      exact hfiles.owned.trans hmarked
    · rw [ownedAt, hfiles.frame _ hpath]

/-- A cleanup leaves nothing exactly if nothing was there. -/
theorem nothingLeft_unopened {mid : Files}
    (hmid : Edited J host (marked J host) (targetOf args io) st.files mid)
    (hfiles : Edited J host (cleaned J host) (targetOf args io) mid files) :
    NothingLeft J host st { st with sessions := minted st, files } ↔
      ∀ scope ∈ targetOf args io, ∀ kind, Clean J host kind scope st.files := by
  rw [nothingLeft_iff]
  constructor
  · rintro ⟨-, -, howned⟩ scope hscope kind
    rw [clean_iff, ← howned kind scope]
    exact hfiles.owned scope hscope kind
  · intro hclean
    refine ⟨rfl, rfl, fun kind scope => ?_⟩
    show ownedAt J host kind scope files = _
    rcases hfiles.owned_cases kind scope with ⟨scope', hscope', hpath, howned⟩ | ⟨hne, hsame⟩
    · have hbefore := (hclean scope' hscope' kind).of_file hpath.symm
      rw [howned, clean_iff.mp hbefore]
    · rcases hmid.owned_cases kind scope with ⟨scope', hscope', hpath, -⟩ | ⟨-, hsame'⟩
      · exact absurd hpath (hne scope' hscope')
      · rw [ownedAt, hsame, hsame']

/-- A spawn that got past its injections undoes them only if the terminal did
    not start and nothing was owned in the scope before. -/
theorem Undoes.of_prepared {mid : Files} (h : Undoes J host args io st)
    (hprepared : Prepared J host args io st mid) :
    ¬ Opens io ∧ ∀ scope ∈ targetOf args io, ∀ kind, Clean J host kind scope st.files := by
  have hinjectable : ∀ kind, requiresProvisioning args.agent.kind = some true →
      Injectable J host io (args.scope io) st.files kind :=
    fun kind hrequires => hprepared.injectable _ (mem_targetOf.mpr ⟨hrequires, rfl⟩) kind
  cases h with
  | noRunner hnone => exact absurd hnone hprepared.runner
  | serverRefused hrequires hmcp => exact absurd (hinjectable .mcp hrequires) hmcp
  | rowsRefused hrequires _ hhooks => exact absurd (hinjectable .hooks hrequires) hhooks
  | unopened _ _ hopens hclean => exact ⟨hopens, hclean⟩

/-- A spawn that fails, with its retractions meeting no failure, leaves nothing
    exactly if it undoes all it did. -/
theorem nothingLeft_iff_undoes (hfresh : Fresh st) (hretracts : Retracts io)
    (herror : (spawnSession J host args io st).1 = .error e) :
    NothingLeft J host st (spawnSession J host args io st).2 ↔ Undoes J host args io st := by
  have hcase := spawnSession_cases J host args io hfresh.newId.1
  generalize spawnSession J host args io st = result at hcase herror ⊢
  obtain ⟨r, st'⟩ := result
  cases hcase with
  | refused e hrefused =>
      have hundoes : Undoes J host args io st := by
        rcases hrefused with hnone | ⟨hrequires, hmcp⟩
        · exact .noRunner hnone
        · exact .serverRefused hrequires hmcp
      exact iff_of_true ⟨rfl, rfl, fun _ => rfl, fun _ => rfl⟩ hundoes
  | halfway e files hrequires hmcp hhooks hfiles =>
      rw [nothingLeft_halfway hfiles]
      constructor
      · exact .rowsRefused hrequires hmcp hhooks
      · rintro (hnone | ⟨-, hmcp'⟩ | ⟨-, -, -, hmarked⟩ | ⟨-, hinjectable, -, -⟩)
        · rw [hrequires] at hnone
          cases hnone
        · exact absurd hmcp hmcp'
        · exact hmarked
        · exact absurd (hinjectable _ (mem_targetOf.mpr ⟨hrequires, rfl⟩) .hooks) hhooks
  | unopened e mid files hprepared hopens hfiles =>
      rw [nothingLeft_unopened hprepared.edited (hfiles hretracts)]
      constructor
      · exact .unopened hprepared.runner hprepared.injectable hopens
      · exact fun hundoes => (hundoes.of_prepared hprepared).2
  | unregistered e mid files hprepared hopens hpoisoned hfiles =>
      refine iff_of_false (fun h => ?_) fun hundoes => (hundoes.of_prepared hprepared).1 hopens
      -- its pipeline stays
      have hpipeline := congrFun h.pipelines (newId st)
      change Function.update st.pipelines (newId st) _ (newId st) = _ at hpipeline
      rw [Function.update_self, hfresh.newId.2.2] at hpipeline
      cases hpipeline
  | spawned => cases herror

/-- After any sequence of commands. -/
theorem failed_spawn_leaves_nothing (cs : List Command) (hretracts : Retracts io)
    (herror : (spawnSession J host args io
      (Machine.run (Command.exec J host) (AppState.initial files) cs)).1 = .error e) :
    NothingLeft J host (Machine.run (Command.exec J host) (AppState.initial files) cs)
        (spawnSession J host args io
          (Machine.run (Command.exec J host) (AppState.initial files) cs)).2 ↔
      Undoes J host args io (Machine.run (Command.exec J host) (AppState.initial files) cs) :=
  nothingLeft_iff_undoes (fresh_run J host files cs) hretracts herror

/-- A spawn whose terminal does not start fails. -/
theorem spawnSession_unopened (J : ConfigJson) (host : Host) (args : SpawnArgs)
    (hfresh : Fresh st) (hopens : ¬ Opens io) :
    ∃ e, (spawnSession J host args io st).1 = .error e := by
  have hcase := spawnSession_cases J host args io hfresh.newId.1
  generalize spawnSession J host args io st = result at hcase ⊢
  obtain ⟨r, st'⟩ := result
  cases hcase with
  | refused e => exact ⟨e, rfl⟩
  | halfway e => exact ⟨e, rfl⟩
  | unopened e => exact ⟨e, rfl⟩
  | unregistered e => exact ⟨e, rfl⟩
  | spawned files hprepared hopens' => exact absurd hopens' hopens

/-- No terminal can be opened. -/
def noPty : SpawnIo := { calmSpawn with openPty := .error "openpty failed" }

/-- A first spawn for which no terminal can be opened. -/
theorem failed_spawn_leaves_nothing_noPty :
    NothingLeft .compact someHost (AppState.initial fun _ => none)
      (spawnSession .compact someHost claudeArgs noPty (AppState.initial fun _ => none)).2 := by
  have hopens : ¬ Opens noPty := fun h => absurd h.1 (by simp [noPty])
  obtain ⟨e, he⟩ := spawnSession_unopened .compact someHost claudeArgs
    (fresh_initial fun _ => none) hopens
  refine (failed_spawn_leaves_nothing [] ⟨rfl, rfl⟩ he).mpr ?_
  refine .unopened (by decide) (fun scope _ kind => ?_) hopens fun scope _ kind => ?_
  · exact injectable_absent rfl (by cases kind <;> rfl)
  · exact clean_iff.mpr (own .compact someHost kind).owned_none

/-- The settings file cannot be read. -/
def noSettings : SpawnIo :=
  { calmSpawn with hooksInject := { read := some "permission denied", write := none } }

/-- A first spawn that cannot read the settings file leaves the managed server
    behind. -/
theorem failed_spawn_leaves_server :
    ∃ e, (spawnSession .compact someHost claudeArgs noSettings
        (AppState.initial fun _ => none)).1 = .error e ∧
      Retracts noSettings ∧
      ¬ NothingLeft .compact someHost (AppState.initial fun _ => none)
        (spawnSession .compact someHost claudeArgs noSettings
          (AppState.initial fun _ => none)).2 := by
  have hcase := spawnSession_cases .compact someHost claudeArgs noSettings
    (fresh_initial fun _ => none).newId.1
  generalize spawnSession .compact someHost claudeArgs noSettings
    (AppState.initial fun _ => none) = result at hcase ⊢
  obtain ⟨r, st'⟩ := result
  cases hcase with
  | refused e hrefused =>
      rcases hrefused with hnone | ⟨-, hmcp⟩
      · exact absurd hnone (by decide)
      · exact absurd (injectable_absent rfl rfl) hmcp
  | halfway e files hrequires hmcp hhooks hfiles =>
      refine ⟨e, rfl, ⟨rfl, rfl⟩, fun h => ?_⟩
      have hmarked := (nothingLeft_halfway hfiles).mp h
      exact mark_ne_clean .compact someHost .mcp _
        (hmarked.trans (own .compact someHost .mcp).owned_none)
  | unopened e mid files hprepared hopens => exact absurd ⟨rfl, rfl⟩ hopens
  | unregistered e mid files hprepared hopens hpoisoned => cases hpoisoned
  | spawned files hprepared =>
      have htarget : ProvisioningScope.global ∈ targetOf claudeArgs noSettings :=
        targetOf_claudeArgs
      exact absurd (hprepared.injectable .global htarget .hooks).1 (by decide)

end Spectty.Sessions
