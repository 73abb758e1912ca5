/-
  Spectty.Sessions.Steps

  What each session command does to the registries and to what is owned in
  the configuration files, as cases.  The results about sequences of commands
  reason from these.
-/

import Spectty.Commands.Session
import Spectty.Lib.Machine

namespace Spectty.Sessions

open Spectty.Core
open Spectty.Lib
open Spectty.Provision
open Spectty.Commands

-- ============================================================================
-- The two configuration files of a scope
-- ============================================================================

/-- The file of the managed server, and that of the hook rows. -/
inductive ConfigKind where
  | mcp
  | hooks
deriving DecidableEq

/-- The production events all run the hook command. -/
theorem command_of_mem_events (host : Host) :
    ∀ e ∈ host.hooksProvisioner.events,
      e.entry.command = host.hooksProvisioner.hookCommand := by
  simp [Host.hooksProvisioner, productionHookEvents]

/-- What the application owns in each file. -/
def own (J : ConfigJson) (host : Host) : ConfigKind → Ownership
  | .mcp => (host.mcpProvisioner.ownership J).resolved host.fileAt
  | .hooks =>
      (host.hooksProvisioner.ownership J (command_of_mem_events host)).resolved host.fileAt

theorem isServersPath_pathFor (host : Host) (scope : ProvisioningScope) :
    IsServersPath (host.mcpProvisioner.pathFor scope) := by
  cases scope with
  | project root => exact Or.inr ⟨root, Or.inr rfl⟩
  | global =>
      show IsServersPath host.homeClaudeJson
      unfold Host.homeClaudeJson
      cases host.home with
      | some home => exact Or.inr ⟨home, Or.inl rfl⟩
      | none => exact Or.inl rfl

/-- The two files of two scopes are never the same. -/
theorem pathFor_ne {J : ConfigJson} {host : Host} (scope scope' : ProvisioningScope) :
    (own J host .mcp).pathFor scope ≠ (own J host .hooks).pathFor scope' := by
  have hservers := isServersPath_pathFor host scope
  cases scope' with
  | project root => exact host.apart root _ hservers
  | global => exact host.apart host.homeSettingsJson _ hservers

-- ============================================================================
-- Editing both files of a scope
-- ============================================================================

section

variable (J : ConfigJson) (host : Host)

/-- The file of a kind for a scope. -/
abbrev fileOf (kind : ConfigKind) (scope : ProvisioningScope) : String :=
  (own J host kind).pathFor scope

/-- What is owned in the file of a kind for a scope. -/
abbrev ownedAt (kind : ConfigKind) (scope : ProvisioningScope) (files : Files) :
    (own J host kind).View :=
  (own J host kind).owned (files (fileOf J host kind scope))

/-- Both files of the scope, if there is one, were edited, and what is owned
    in them changed by `v`. -/
structure Edited (v : ∀ kind, (own J host kind).View → (own J host kind).View)
    (target : Option ProvisioningScope) (files files' : Files) : Prop where
  owned : ∀ scope ∈ target, ∀ kind,
    ownedAt J host kind scope files' = v kind (ownedAt J host kind scope files)
  retractable : ∀ scope ∈ target, ∀ kind, (own J host kind).Retractable scope files'
  frame : ∀ path, (∀ scope ∈ target, ∀ kind, path ≠ fileOf J host kind scope) →
    files' path = files path

/-- What injections make of what is owned. -/
abbrev marked (kind : ConfigKind) : (own J host kind).View → (own J host kind).View :=
  (own J host kind).mark

/-- What retractions make of it. -/
abbrev cleaned (kind : ConfigKind) : (own J host kind).View → (own J host kind).View :=
  fun _ => (own J host kind).clean

end

/-- What is marked is not clean. -/
theorem mark_ne_clean (J : ConfigJson) (host : Host) (kind : ConfigKind)
    (v : (own J host kind).View) : (own J host kind).mark v ≠ (own J host kind).clean := by
  cases kind with
  | mcp => exact Option.some_ne_none _
  | hooks =>
      intro h
      have hstop : markRows (productionHookEvents host.specttyHookCommand) host.specttyHookCommand v
          "Stop" = [] := congrFun h "Stop"
      simp [markRows, lastListing, productionHookEvents] at hstop

variable {J : ConfigJson} {host : Host} {files mid files' : Files} {scope : ProvisioningScope}
  {target : Option ProvisioningScope}
  {v : ∀ kind, (own J host kind).View → (own J host kind).View}

/-- The file of one kind is never that of another. -/
theorem kind_of_fileOf_eq {kind kind' : ConfigKind} {scope' : ProvisioningScope}
    (h : fileOf J host kind scope = fileOf J host kind' scope') : kind = kind' := by
  cases kind with
  | mcp =>
      cases kind' with
      | mcp => rfl
      | hooks => exact absurd h (pathFor_ne scope scope')
  | hooks =>
      cases kind' with
      | mcp => exact absurd h.symm (pathFor_ne scope' scope)
      | hooks => rfl

/-- One file after the other. -/
theorem edited_of_edits (hmcp : (own J host .mcp).Edits (v .mcp) scope files mid)
    (hhooks : (own J host .hooks).Edits (v .hooks) scope mid files') :
    Edited J host v (some scope) files files' where
  owned := by
    rintro _ ⟨⟩ kind
    cases kind with
    | mcp => rw [ownedAt, hhooks.frame _ (pathFor_ne scope scope), hmcp.owned]
    | hooks => rw [ownedAt, hhooks.owned, hmcp.frame _ (pathFor_ne scope scope).symm]
  retractable := by
    rintro _ ⟨⟩ kind
    cases kind with
    | mcp =>
        intro text htext
        rw [hhooks.frame _ (pathFor_ne scope scope)] at htext
        exact hmcp.retractable text htext
    | hooks => exact hhooks.retractable
  frame := by
    intro path hpath
    rw [hhooks.frame path (hpath scope rfl .hooks), hmcp.frame path (hpath scope rfl .mcp)]

/-- No scope, no edit. -/
theorem edited_none : Edited J host v none files files where
  owned := fun _ h => absurd h (Option.not_mem_none _)
  retractable := fun _ h => absurd h (Option.not_mem_none _)
  frame := fun _ _ => rfl

/-- An edit for a scope changes what is owned at the paths of its files, and
    nothing else. -/
theorem Edited.owned_cases (h : Edited J host v target files files') (kind : ConfigKind)
    (scope : ProvisioningScope) :
    (∃ scope' ∈ target, fileOf J host kind scope = fileOf J host kind scope' ∧
      ownedAt J host kind scope files' = v kind (ownedAt J host kind scope files)) ∨
    ((∀ scope' ∈ target, fileOf J host kind scope ≠ fileOf J host kind scope') ∧
      files' (fileOf J host kind scope) = files (fileOf J host kind scope)) := by
  by_cases hsame : ∃ scope' ∈ target, fileOf J host kind scope = fileOf J host kind scope'
  · obtain ⟨scope', hscope', hpath⟩ := hsame
    refine Or.inl ⟨scope', hscope', hpath, ?_⟩
    unfold ownedAt
    rw [hpath]
    exact h.owned scope' hscope' kind
  · have hne : ∀ scope' ∈ target, fileOf J host kind scope ≠ fileOf J host kind scope' :=
      fun scope' hscope' hpath => hsame ⟨scope', hscope', hpath⟩
    refine Or.inr ⟨hne, h.frame _ fun scope' hscope' kind' hpath => ?_⟩
    obtain rfl := kind_of_fileOf_eq hpath
    exact hne scope' hscope' hpath

/-- Files that could be retracted still can be. -/
theorem Edited.retractable_of (h : Edited J host v target files files') {kind : ConfigKind}
    (hretractable : (own J host kind).Retractable scope files) :
    (own J host kind).Retractable scope files' := by
  intro text htext
  change files' (fileOf J host kind scope) = some text at htext
  rcases h.owned_cases kind scope with ⟨scope', hscope', hpath, -⟩ | ⟨-, hsame⟩
  · rw [hpath] at htext
    exact h.retractable scope' hscope' kind text htext
  · rw [hsame] at htext
    exact hretractable text htext

/-- The same for an edit of one file. -/
theorem retractable_of_edits {kind kind' : ConfigKind} {scope' : ProvisioningScope}
    {v : (own J host kind).View → (own J host kind).View}
    (h : (own J host kind).Edits v scope files files')
    (hretractable : (own J host kind').Retractable scope' files) :
    (own J host kind').Retractable scope' files' := by
  intro text htext
  change files' (fileOf J host kind' scope') = some text at htext
  by_cases hpath : fileOf J host kind' scope' = fileOf J host kind scope
  · obtain rfl := kind_of_fileOf_eq hpath
    rw [hpath] at htext
    exact h.retractable text htext
  · rw [h.frame _ hpath] at htext
    exact hretractable text htext

-- ============================================================================
-- Files that are clean, and files that are marked
-- ============================================================================

/-- Nothing is owned in the file of a kind for a scope: no managed server, no
    hook row. -/
def Clean (J : ConfigJson) (host : Host) (kind : ConfigKind) (scope : ProvisioningScope)
    (files : Files) : Prop :=
  match kind with
  | .mcp => managedEntry J (files (host.fileAt (host.mcpProvisioner.pathFor scope))) = none
  | .hooks => ∀ eventName,
      ownedRows J host.hooksProvisioner.hookCommand
        (files (host.fileAt (host.hooksProvisioner.pathFor scope))) eventName = []

/-- What is owned in the file of a kind for a scope is as an injection leaves
    it. -/
def Marked (J : ConfigJson) (host : Host) (kind : ConfigKind) (scope : ProvisioningScope)
    (files : Files) : Prop :=
  (own J host kind).mark (ownedAt J host kind scope files) = ownedAt J host kind scope files

variable {kind kind' : ConfigKind} {scope' : ProvisioningScope}

theorem clean_iff : Clean J host kind scope files ↔
    ownedAt J host kind scope files = (own J host kind).clean := by
  cases kind with
  | mcp => exact Iff.rfl
  | hooks => exact funext_iff.symm

theorem Clean.of_same (h : Clean J host kind scope files)
    (hsame : files' (fileOf J host kind scope) = files (fileOf J host kind scope)) :
    Clean J host kind scope files' := by
  rw [clean_iff] at h ⊢
  rw [ownedAt, hsame]
  exact h

theorem Clean.of_file (h : Clean J host kind scope' files)
    (hpath : fileOf J host kind scope' = fileOf J host kind scope) :
    Clean J host kind scope files := by
  rw [clean_iff] at h ⊢
  unfold ownedAt at h ⊢
  rw [← hpath]
  exact h

/-- A file is clean after the retraction of a scope with the same file. -/
theorem clean_of_edited (h : Edited J host (cleaned J host) target files files')
    (hscope' : scope' ∈ target) (hpath : fileOf J host kind scope = fileOf J host kind scope') :
    Clean J host kind scope files' := by
  rw [clean_iff]
  unfold ownedAt
  rw [hpath]
  exact h.owned scope' hscope' kind

theorem Marked.of_same (h : Marked J host kind scope files)
    (hsame : files' (fileOf J host kind scope) = files (fileOf J host kind scope)) :
    Marked J host kind scope files' := by
  unfold Marked ownedAt
  rw [hsame]
  exact h

theorem Marked.of_edited
    (hfiles : Edited J host (marked J host) target files files')
    (h : Marked J host kind scope files ∨ scope ∈ target) : Marked J host kind scope files' := by
  rcases hfiles.owned_cases kind scope with ⟨scope', hscope', hpath, howned⟩ | ⟨hne, hsame⟩
  · rw [Marked, howned]
    exact (own J host kind).mark_mark _
  · rcases h with h | hscope
    · exact h.of_same hsame
    · exact absurd rfl (hne scope hscope)

theorem Marked.of_edits
    (hfiles : (own J host kind').Edits (marked J host kind') scope' files files')
    (h : Marked J host kind scope files) : Marked J host kind scope files' := by
  by_cases hpath : fileOf J host kind scope = fileOf J host kind' scope'
  · obtain rfl := kind_of_fileOf_eq hpath
    have howned := hfiles.owned
    unfold Marked ownedAt
    rw [hpath, howned]
    exact (own J host kind).mark_mark _
  · exact h.of_same (hfiles.frame _ hpath)

-- ============================================================================
-- Injecting and retracting both
-- ============================================================================

/-- The failures of an injection during a spawn. -/
def injectFaults (io : SpawnIo) : ConfigKind → Files.Faults
  | .mcp => io.mcpInject
  | .hooks => io.hooksInject

/-- The injection of a kind goes through. -/
def Injectable (J : ConfigJson) (host : Host) (io : SpawnIo) (scope : ProvisioningScope)
    (files : Files) (kind : ConfigKind) : Prop :=
  (own J host kind).Injectable (injectFaults io kind) scope files

variable {io : SpawnIo}

theorem injectBoth_refused (h : ¬ Injectable J host io scope files .mcp) :
    ∃ e, injectBoth J host scope io files = (.error e, files) := by
  obtain ⟨e, he⟩ := Ownership.interp_inject_error h
  have hinterp : (host.mcpProvisioner.inject J scope).interp (host.seam io.mcpInject) files =
      (.error e, files) := (interp_injectAt_resolved host.fileAt).trans he
  refine ⟨"mcp provisioning inject failed: " ++ e.message, ?_⟩
  rw [injectBoth, hinterp]

theorem injectBoth_halfway (hmcp : Injectable J host io scope files .mcp)
    (hhooks : ¬ Injectable J host io scope files .hooks) :
    ∃ e files', injectBoth J host scope io files = (.error e, files') ∧
      (own J host .mcp).Edits (marked J host .mcp) scope files files' := by
  obtain ⟨mid, hmid, hedits, -⟩ := Ownership.interp_inject hmcp
  have hhooks' : ¬ Injectable J host io scope mid .hooks := by
    unfold Injectable Ownership.Injectable
    rw [hedits.frame _ (pathFor_ne scope scope).symm]
    exact hhooks
  obtain ⟨e, he⟩ := Ownership.interp_inject_error hhooks'
  have hinterp : (host.mcpProvisioner.inject J scope).interp (host.seam io.mcpInject) files =
      (.ok { scope }, mid) := (interp_injectAt_resolved host.fileAt).trans hmid
  have hinterp' : (host.hooksProvisioner.inject J scope).interp (host.seam io.hooksInject) mid =
      (.error e, mid) := (interp_injectAt_resolved host.fileAt).trans he
  refine ⟨"hooks provisioning inject failed: " ++ e.message, mid, ?_, hedits⟩
  rw [injectBoth, hinterp]
  simp only [hinterp']

theorem injectBoth_ok (h : ∀ kind, Injectable J host io scope files kind) :
    ∃ files', injectBoth J host scope io files = (.ok ({ scope }, { scope }), files') ∧
      Edited J host (marked J host) (some scope) files files' ∧
      ∀ kind, (own J host kind).injectable (files' (fileOf J host kind scope)) = true := by
  obtain ⟨mid, hmid, hmcp, hagain⟩ := Ownership.interp_inject (h .mcp)
  have hhooks : Injectable J host io scope mid .hooks := by
    unfold Injectable Ownership.Injectable
    rw [hmcp.frame _ (pathFor_ne scope scope).symm]
    exact h .hooks
  obtain ⟨files', hfiles', hedits, hagain'⟩ := Ownership.interp_inject hhooks
  have hinterp : (host.mcpProvisioner.inject J scope).interp (host.seam io.mcpInject) files =
      (.ok { scope }, mid) := (interp_injectAt_resolved host.fileAt).trans hmid
  have hinterp' : (host.hooksProvisioner.inject J scope).interp (host.seam io.hooksInject) mid =
      (.ok { scope }, files') := (interp_injectAt_resolved host.fileAt).trans hfiles'
  refine ⟨files', ?_, edited_of_edits hmcp hedits, fun kind => ?_⟩
  · rw [injectBoth, hinterp]
    simp only [hinterp']
  · cases kind with
    | mcp =>
        rw [hedits.frame _ (pathFor_ne scope scope)]
        exact hagain
    | hooks => exact hagain'

/-- The handle on a scope. -/
def handleOn (target : Option ProvisioningScope) : Option ProvisioningHandle :=
  target.map fun scope => { scope }

/-- Both retractions, without failure, of files that can be retracted. -/
theorem retractHandle_both
    (h : ∀ scope ∈ target, ∀ kind, (own J host kind).Retractable scope files) :
    ∃ mid files',
      retractHandle host (host.mcpProvisioner.port J) (handleOn target) Files.noFaults files =
        (.ok (), mid) ∧
      retractHandle host (host.hooksProvisioner.port J) (handleOn target) Files.noFaults mid =
        (.ok (), files') ∧
      Edited J host (cleaned J host) target files files' := by
  cases target with
  | none => exact ⟨files, files, rfl, rfl, edited_none⟩
  | some scope =>
      obtain ⟨mid, hmid, hmcp⟩ := Ownership.interp_retract (h scope rfl .mcp)
      have hretractable : (own J host .hooks).Retractable scope mid := by
        intro text htext
        rw [hmcp.frame _ (pathFor_ne scope scope).symm] at htext
        exact h scope rfl .hooks text htext
      obtain ⟨files', hfiles', hhooks⟩ := Ownership.interp_retract hretractable
      exact ⟨mid, files', (interp_retractAt_resolved host.fileAt).trans hmid,
        (interp_retractAt_resolved host.fileAt).trans hfiles', edited_of_edits hmcp hhooks⟩

-- ============================================================================
-- What a spawn does
-- ============================================================================

/-- The id the next spawn mints. -/
def newId (st : AppState) : SessionId := toString st.sessions.nextId

/-- The registry with an id minted. -/
def minted (st : AppState) : SessionRegistry :=
  { st.sessions with nextId := st.sessions.nextId + 1 }

/-- The session a spawn registers. -/
def newSession (args : SpawnArgs) (io : SpawnIo) (st : AppState) : Session :=
  { id := newId st, workspace := args.workspacePath, agent := args.agent, status := .starting,
    title := args.title, createdAt := io.now }

/-- The pipeline a spawn registers. -/
def newPipeline (args : SpawnArgs) (st : AppState) : DiffPipeline :=
  { sessionId := newId st, workspace := args.workspacePath }

/-- The scope a spawn provisions, if its agent requires that. -/
def targetOf (args : SpawnArgs) (io : SpawnIo) : Option ProvisioningScope :=
  if requiresProvisioning args.agent.kind = some true then some (args.scope io) else none

/-- The terminal of a session provisioned at a scope. -/
def terminal (target : Option ProvisioningScope) : PtyState :=
  { provisioning := handleOn target, hooksHandle := handleOn target }

/-- The terminal and its threads start. -/
def Opens (io : SpawnIo) : Prop := io.openPty = .ok () ∧ io.spawnThreads = .ok ()

/-- The retractions of a failed spawn meet no failure. -/
def Retracts (io : SpawnIo) : Prop :=
  io.mcpRetract = Files.noFaults ∧ io.hooksRetract = Files.noFaults

section

variable (J : ConfigJson) (host : Host) (args : SpawnArgs) (io : SpawnIo) (st : AppState)

/-- The agent has a runner and its scope was injected. -/
structure Prepared (files : Files) : Prop where
  runner : requiresProvisioning args.agent.kind ≠ none
  injectable : ∀ scope ∈ targetOf args io, ∀ kind, Injectable J host io scope st.files kind
  edited : Edited J host (marked J host) (targetOf args io) st.files files
  /-- The scope can be injected again. -/
  again : ∀ scope ∈ targetOf args io, ∀ kind,
    (own J host kind).injectable (files (fileOf J host kind scope)) = true

/-- How a spawn ends. -/
inductive SpawnCase : Except String SessionId → AppState → Prop
  /-- Nothing was injected. -/
  | refused (e : String)
      (h : requiresProvisioning args.agent.kind = none ∨
        requiresProvisioning args.agent.kind = some true ∧
          ¬ Injectable J host io (args.scope io) st.files .mcp) :
      SpawnCase (.error e) { st with sessions := minted st }
  /-- The managed server was injected and the hook rows were not. -/
  | halfway (e : String) (files : Files)
      (hrequires : requiresProvisioning args.agent.kind = some true)
      (hmcp : Injectable J host io (args.scope io) st.files .mcp)
      (hhooks : ¬ Injectable J host io (args.scope io) st.files .hooks)
      (hfiles : (own J host .mcp).Edits (marked J host .mcp) (args.scope io) st.files files) :
      SpawnCase (.error e) { st with sessions := minted st, files }
  /-- The terminal did not start. -/
  | unopened (e : String) (mid files : Files) (hprepared : Prepared J host args io st mid)
      (hopens : ¬ Opens io)
      (hfiles : Retracts io → Edited J host (cleaned J host) (targetOf args io) mid files) :
      SpawnCase (.error e) { st with sessions := minted st, files }
  /-- The terminal was not registered. -/
  | unregistered (e : String) (mid files : Files) (hprepared : Prepared J host args io st mid)
      (hopens : Opens io) (hpoisoned : io.ptysPoisoned = true)
      (hfiles : Retracts io → Edited J host (cleaned J host) (targetOf args io) mid files) :
      SpawnCase (.error e)
        { st with
          sessions := minted st
          pipelines := Function.update st.pipelines (newId st) (some (newPipeline args st))
          files }
  | spawned (files : Files) (hprepared : Prepared J host args io st files)
      (hopens : Opens io) (hpoisoned : io.ptysPoisoned = false) :
      SpawnCase (.ok (newId st))
        { sessions := (minted st).insert (newSession args io st)
          ptys := Function.update st.ptys (newId st) (some (terminal (targetOf args io)))
          pipelines := Function.update st.pipelines (newId st) (some (newPipeline args st))
          files }

end

variable {args : SpawnArgs} {st : AppState}

theorem mem_targetOf : scope ∈ targetOf args io ↔
    requiresProvisioning args.agent.kind = some true ∧ scope = args.scope io := by
  unfold targetOf
  split
  case isTrue h => simp [h, eq_comm]
  case isFalse h => simp [h]

/-- The session of a failed spawn is removed again. -/
theorem remove_insert (hfresh : st.sessions.sessions (newId st) = none) :
    (((minted st).insert (newSession args io st)).remove (newId st)).2 = minted st := by
  have hupdate : Function.update
      (Function.update st.sessions.sessions (newId st) (some (newSession args io st)))
      (newId st) none = st.sessions.sessions := by
    rw [Function.update_idem, ← hfresh, Function.update_eq_self]
  exact congrArg (fun sessions => { minted st with sessions }) hupdate

/-- The first half of a spawn. -/
theorem spawnSessionImplWithHooks_cases (J : ConfigJson) (host : Host) (args : SpawnArgs)
    (io : SpawnIo) (st : AppState) :
    (∃ e st', spawnSessionImplWithHooks J host args io (args.scope io) st = (.error e, st') ∧
      SpawnCase J host args io st (.error e) st') ∨
    (∃ files, spawnSessionImplWithHooks J host args io (args.scope io) st =
        (.ok { id := newId st, handle := handleOn (targetOf args io)
               hooksHandle := handleOn (targetOf args io) },
          { st with sessions := (minted st).insert (newSession args io st), files }) ∧
      Prepared J host args io st files) := by
  unfold spawnSessionImplWithHooks
  cases hrequires : requiresProvisioning args.agent.kind with
  | none => exact Or.inl ⟨_, _, rfl, .refused _ (Or.inl hrequires)⟩
  | some required =>
      cases required with
      | false =>
          have htarget : targetOf args io = none := by simp [targetOf, hrequires]
          refine Or.inr ⟨st.files, by rw [htarget]; rfl, ?_⟩
          have hnone : ∀ scope, scope ∉ targetOf args io := by simp [htarget]
          refine ⟨by simp [hrequires], fun scope hscope => absurd hscope (hnone scope), ?_,
            fun scope hscope => absurd hscope (hnone scope)⟩
          rw [htarget]
          exact edited_none
      | true =>
          have htarget : targetOf args io = some (args.scope io) := by simp [targetOf, hrequires]
          by_cases hmcp : Injectable J host io (args.scope io) st.files .mcp
          · by_cases hhooks : Injectable J host io (args.scope io) st.files .hooks
            · have hall : ∀ kind, Injectable J host io (args.scope io) st.files kind := by
                intro kind
                cases kind
                · exact hmcp
                · exact hhooks
              obtain ⟨files, hinject, hedited, hagain⟩ := injectBoth_ok hall
              refine Or.inr ⟨files, by simp only [hinject, htarget]; rfl, ?_⟩
              refine ⟨by simp [hrequires], fun scope hscope => ?_, by rwa [htarget],
                fun scope hscope => ?_⟩
              · obtain ⟨-, rfl⟩ := mem_targetOf.mp hscope
                exact hall
              · obtain ⟨-, rfl⟩ := mem_targetOf.mp hscope
                exact hagain
            · obtain ⟨e, files, hinject, hedits⟩ := injectBoth_halfway hmcp hhooks
              refine Or.inl ⟨e, _, by simp only [hinject]; rfl, ?_⟩
              exact .halfway e files hrequires hmcp hhooks hedits
          · obtain ⟨e, hinject⟩ := injectBoth_refused hmcp
            refine Or.inl ⟨e, _, by simp only [hinject]; rfl, ?_⟩
            exact .refused e (Or.inr ⟨hrequires, hmcp⟩)

/-- The cleanup of a spawn that had injected its scope and registered its
    session, and perhaps a pipeline. -/
theorem cleanupFailedSpawn_eq (hprepared : Prepared J host args io st mid)
    (hfresh : st.sessions.sessions (newId st) = none)
    (pipelines : String → Option DiffPipeline) :
    ∃ files, (Retracts io → Edited J host (cleaned J host) (targetOf args io) mid files) ∧
      cleanupFailedSpawn J host
        { id := newId st, handle := handleOn (targetOf args io)
          hooksHandle := handleOn (targetOf args io) } io
        { st with
          sessions := (minted st).insert (newSession args io st), files := mid, pipelines } =
        { st with sessions := minted st, pipelines, files } := by
  refine ⟨_, ?_, by rw [cleanupFailedSpawn, remove_insert hfresh]⟩
  rintro ⟨hmcp, hhooks⟩
  obtain ⟨mid', files, hmid', hfiles, hedited⟩ := retractHandle_both hprepared.edited.retractable
  simp only [hmcp, hhooks, hmid', hfiles]
  exact hedited

/-- What a spawn does. -/
theorem spawnSession_cases (J : ConfigJson) (host : Host) (args : SpawnArgs) (io : SpawnIo)
    (hfresh : st.sessions.sessions (newId st) = none) :
    SpawnCase J host args io st (spawnSession J host args io st).1
      (spawnSession J host args io st).2 := by
  unfold spawnSession
  rcases spawnSessionImplWithHooks_cases J host args io st with
    ⟨e, st', hfirst, hcase⟩ | ⟨mid, hfirst, hprepared⟩
  · rw [hfirst]
    exact hcase
  · rw [hfirst]
    obtain ⟨files, hfiles, hcleanup⟩ := cleanupFailedSpawn_eq hprepared hfresh st.pipelines
    simp only [finishSpawnImpl, spawnPty]
    cases hopen : io.openPty with
    | error e =>
        simp only [hcleanup]
        exact .unopened e mid files hprepared (by simp [Opens, hopen]) hfiles
    | ok u =>
        cases hthreads : io.spawnThreads with
        | error e =>
            simp only [hcleanup]
            exact .unopened e mid files hprepared (by simp [Opens, hthreads]) hfiles
        | ok u =>
            have hopens : Opens io := ⟨hopen, hthreads⟩
            cases hpoisoned : io.ptysPoisoned with
            | true =>
                obtain ⟨files, hfiles, hcleanup⟩ := cleanupFailedSpawn_eq hprepared hfresh
                  (Function.update st.pipelines (newId st) (some (newPipeline args st)))
                unfold newPipeline at hcleanup
                simp only [if_true, hcleanup]
                exact .unregistered _ mid files hprepared hopens hpoisoned hfiles
            | false =>
                simp only [Bool.false_eq_true, if_false]
                have hget : ((minted st).insert (newSession args io st)).get (newId st) =
                    some (newSession args io st) := Function.update_self ..
                rw [hget]
                exact .spawned mid hprepared hopens hpoisoned

/-- A spawn in which nothing fails. -/
theorem spawnSession_spawned (J : ConfigJson) (host : Host) (args : SpawnArgs) (io : SpawnIo)
    (st : AppState) (hfresh : st.sessions.sessions (newId st) = none)
    (hrunner : requiresProvisioning args.agent.kind ≠ none)
    (hinjectable : ∀ scope ∈ targetOf args io, ∀ kind, Injectable J host io scope st.files kind)
    (hopens : Opens io) (hpoisoned : io.ptysPoisoned = false) :
    ∃ files, Prepared J host args io st files ∧
      (spawnSession J host args io st).2 =
        { sessions := (minted st).insert (newSession args io st)
          ptys := Function.update st.ptys (newId st) (some (terminal (targetOf args io)))
          pipelines := Function.update st.pipelines (newId st) (some (newPipeline args st))
          files } := by
  have hcase := spawnSession_cases J host args io hfresh
  generalize spawnSession J host args io st = result at hcase ⊢
  obtain ⟨r, st'⟩ := result
  cases hcase with
  | refused e hrefused =>
      rcases hrefused with hnone | ⟨hrequires, hmcp⟩
      · exact absurd hnone hrunner
      · exact absurd (hinjectable _ (mem_targetOf.mpr ⟨hrequires, rfl⟩) .mcp) hmcp
  | halfway e files hrequires hmcp hhooks =>
      exact absurd (hinjectable _ (mem_targetOf.mpr ⟨hrequires, rfl⟩) .hooks) hhooks
  | unopened e mid files hprepared hnot => exact absurd hopens hnot
  | unregistered e mid files hprepared _ hpoisoned' =>
      rw [hpoisoned] at hpoisoned'
      cases hpoisoned'
  | spawned files hprepared => exact ⟨files, hprepared, rfl⟩

-- ============================================================================
-- What a close does
-- ============================================================================

/-- The scope a terminal has a handle on. -/
def scopeOf (st : AppState) (id : SessionId) : Option ProvisioningScope :=
  ((st.ptys id).bind (·.provisioning)).map (·.scope)

/-- The state files of a session were deleted, or were not there. -/
def Deletes (io : CloseIo) : Prop :=
  (deletionError "state file: " io.deleteState).or
    (deletionError "state tmp file: " io.deleteStateTmp) = none

/-- How a close ends whose retractions meet no failure. -/
inductive CloseCase (J : ConfigJson) (host : Host) (id : SessionId) (io : CloseIo)
    (st : AppState) : AppState → Prop
  /-- The terminals could not be looked at. -/
  | poisoned (hpoisoned : io.ptysPoisoned = true) :
      CloseCase J host id io st
        { st with pipelines := Function.update st.pipelines id none }
  /-- A state file was left, and the session stays. -/
  | undeleted (files : Files) (hdeletes : ¬ Deletes io)
      (hfiles : Edited J host (cleaned J host) (scopeOf st id) st.files files) :
      CloseCase J host id io st
        { st with
          ptys := Function.update st.ptys id none
          pipelines := Function.update st.pipelines id none
          files }
  | closed (files : Files) (hdeletes : Deletes io)
      (hfiles : Edited J host (cleaned J host) (scopeOf st id) st.files files) :
      CloseCase J host id io st
        { sessions := (st.sessions.remove id).2
          ptys := Function.update st.ptys id none
          pipelines := Function.update st.pipelines id none
          files }

variable {id : SessionId}

theorem mem_scopeOf : scope ∈ scopeOf st id ↔
    ∃ pty, st.ptys id = some pty ∧ pty.provisioning = some { scope } := by
  rw [scopeOf, Option.mem_def, Option.map_eq_some_iff]
  constructor
  · rintro ⟨handle, hhandle, rfl⟩
    exact Option.bind_eq_some_iff.mp hhandle
  · rintro ⟨pty, hpty, hhandle⟩
    exact ⟨{ scope }, Option.bind_eq_some_iff.mpr ⟨pty, hpty, hhandle⟩, rfl⟩

/-- The handle of a terminal is on its scope. -/
theorem provisioning_eq_handleOn :
    (st.ptys id).bind (·.provisioning) = handleOn (scopeOf st id) := by
  unfold handleOn scopeOf
  cases (st.ptys id).bind (·.provisioning) <;> rfl

/-- What a close does. -/
theorem closeSession_cases {io : CloseIo} (hmcp : io.mcpRetract = Files.noFaults)
    (hhooks : io.hooksRetract = Files.noFaults)
    (hhandles : ∀ pty, st.ptys id = some pty → pty.hooksHandle = pty.provisioning)
    (hretractable : ∀ scope ∈ scopeOf st id, ∀ kind,
      (own J host kind).Retractable scope st.files) :
    CloseCase J host id io st (closeSession J host id io st).2 := by
  unfold closeSession
  cases hpoisoned : io.ptysPoisoned with
  | true => exact .poisoned hpoisoned
  | false =>
      have hhooksHandle : (st.ptys id).bind (·.hooksHandle) = handleOn (scopeOf st id) := by
        rw [← provisioning_eq_handleOn]
        cases hpty : st.ptys id with
        | none => rfl
        | some pty => exact hhandles pty hpty
      obtain ⟨mid, files, hmid, hfiles, hedited⟩ := retractHandle_both hretractable
      simp only [Bool.false_eq_true, if_false, closeSessionImplWithHooks, provisioning_eq_handleOn,
        hhooksHandle, hmcp, hhooks, hmid, hfiles]
      cases hdeletion : (deletionError "state file: " io.deleteState).or
          (deletionError "state tmp file: " io.deleteStateTmp) with
      | some e => exact .undeleted files (by simp [Deletes, hdeletion]) hedited
      | none => exact .closed files hdeletion hedited

/-- A close in which nothing fails. -/
theorem CloseCase.eq_closed {io : CloseIo} {st' : AppState} (h : CloseCase J host id io st st')
    (hpoisoned : io.ptysPoisoned = false) (hdeletes : Deletes io) :
    ∃ files, Edited J host (cleaned J host) (scopeOf st id) st.files files ∧
      st' =
        { sessions := (st.sessions.remove id).2
          ptys := Function.update st.ptys id none
          pipelines := Function.update st.pipelines id none
          files } := by
  cases h with
  | poisoned hpoisoned' =>
      rw [hpoisoned] at hpoisoned'
      cases hpoisoned'
  | undeleted files hnot => exact absurd hdeletes hnot
  | closed files _ hfiles => exact ⟨files, hfiles, rfl⟩

end Spectty.Sessions
