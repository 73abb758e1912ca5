/-
  Spectty.Sessions.Leftovers

  What is left in the configuration files when no session and no terminal is.

  Each file that was injected is kept track of: either it is clean again, or
  a terminal still has a handle on it.
-/

import Spectty.Sessions.Invariants

namespace Spectty.Sessions

open Spectty.Core
open Spectty.Lib
open Spectty.Provision
open Spectty.Commands

section

variable (J : ConfigJson) (host : Host)

/-- A command injects the file of a kind for a scope: the managed server
    first, and the hook rows if that went well. -/
def Injects (kind : ConfigKind) (scope : ProvisioningScope) (st : AppState) : Command → Prop
  | .spawnSession args io =>
      scope ∈ targetOf args io ∧ Injectable J host io scope st.files .mcp ∧
        Injectable J host io scope st.files kind
  | _ => False

/-- A command loses track of no file: a spawn whose hook rows are refused does
    not leave a managed server that no terminal has a handle on, and a kill
    does not drop the last handle on a file that is not clean. -/
def KeepsTrack (st : AppState) : Command → Prop
  | .spawnSession args io => ∀ scope ∈ targetOf args io,
      Injectable J host io scope st.files .mcp → Injectable J host io scope st.files .hooks ∨
        ∃ id, Holds J host st id .mcp scope
  | .ptyKill id ptysPoisoned => ptysPoisoned = false → ∀ scope ∈ scopeOf st id, ∀ kind,
      Clean J host kind scope st.files ∨ ∃ id', id' ≠ id ∧ Holds J host st id' kind scope
  | _ => True

/-- The file of a kind for a scope is clean, or a terminal has a handle on it. -/
def Accounted (st : AppState) (kind : ConfigKind) (scope : ProvisioningScope) : Prop :=
  Clean J host kind scope st.files ∨ ∃ id, Holds J host st id kind scope

/-- A sequence of commands injects the file of a kind for a scope. -/
def Injected (files : Files) (kind : ConfigKind) (scope : ProvisioningScope) (cs : List Command) :
    Prop :=
  Machine.Ever (Command.exec J host) (Injects J host kind scope) (AppState.initial files) cs

end

variable {J : ConfigJson} {host : Host} {args : SpawnArgs} {io : SpawnIo} {st st' : AppState}
  {id : SessionId} {kind : ConfigKind} {scope scope' : ProvisioningScope} {files : Files}
  {cs : List Command} {c : Command}

/-- What is clean or held stays so while its file and its terminals do. -/
theorem Accounted.of_same (h : Accounted J host st kind scope)
    (hfiles : st'.files (fileOf J host kind scope) = st.files (fileOf J host kind scope))
    (hholds : ∀ id, Holds J host st id kind scope → ∃ id', Holds J host st' id' kind scope) :
    Accounted J host st' kind scope := by
  rcases h with hclean | ⟨id, hid⟩
  · exact Or.inl (hclean.of_same hfiles)
  · exact Or.inr (hholds id hid)

-- ============================================================================
-- Each command
-- ============================================================================

/-- A cleanup after an injection leaves the files of its scope clean, and the
    others as they were. -/
theorem accounted_cleanup {target : Option ProvisioningScope} {mid : Files}
    (hmid : Edited J host (marked J host) target st.files mid)
    (hfiles : Edited J host (cleaned J host) target mid st'.files)
    (hptys : st'.ptys = st.ptys) (h : Accounted J host st kind scope ∨ scope ∈ target) :
    Accounted J host st' kind scope := by
  rcases hfiles.owned_cases kind scope with ⟨scope', hscope', hpath, -⟩ | ⟨hne, hsame⟩
  · exact Or.inl (clean_of_edited hfiles hscope' hpath)
  · rcases h with h | hscope
    · rcases hmid.owned_cases kind scope with ⟨scope', hscope', hpath, -⟩ | ⟨-, hsame'⟩
      · exact absurd hpath (hne scope' hscope')
      · exact h.of_same (hsame.trans hsame') fun id hid => ⟨id, hid.of_ptys (congrFun hptys id)⟩
    · exact absurd rfl (hne scope hscope)

/-- The new terminal holds the files that were injected. -/
theorem accounted_spawned {target : Option ProvisioningScope} (hfresh : Fresh st)
    (hfiles : Edited J host (marked J host) target st.files st'.files)
    (hptys : st'.ptys = Function.update st.ptys (newId st) (some (terminal target)))
    (h : Accounted J host st kind scope ∨ scope ∈ target) : Accounted J host st' kind scope := by
  have hpty : st'.ptys (newId st) = some (terminal target) := by
    rw [hptys, Function.update_self]
  rcases h with h | hscope
  · rcases hfiles.owned_cases kind scope with ⟨scope', hscope', hpath, -⟩ | ⟨-, hsame⟩
    · exact Or.inr ⟨newId st, holds_terminal hpty hscope' hpath.symm⟩
    · refine h.of_same hsame fun id hid => ⟨id, hid.of_ptys ?_⟩
      rw [hptys, Function.update_of_ne (hid.ne_newId hfresh)]
  · exact Or.inr ⟨newId st, holds_terminal hpty hscope rfl⟩

/-- A spawn keeps track. -/
theorem accounted_spawn (hfresh : Fresh st) (hretracts : Retracts io)
    (hkeeps : KeepsTrack J host st (.spawnSession args io))
    (h : Accounted J host st kind scope ∨ Injects J host kind scope st (.spawnSession args io)) :
    Accounted J host (spawnSession J host args io st).2 kind scope := by
  have hcase := spawnSession_cases J host args io hfresh.newId.1
  generalize spawnSession J host args io st = result at hcase ⊢
  obtain ⟨r, st'⟩ := result
  cases hcase with
  | refused e hrefused =>
      rcases h with h | ⟨hscope, hmcp, -⟩
      · exact h.of_same rfl fun id hid => ⟨id, hid⟩
      · obtain ⟨hrequires, rfl⟩ := mem_targetOf.mp hscope
        rcases hrefused with hnone | ⟨-, hmcp'⟩
        · rw [hnone] at hrequires
          cases hrequires
        · exact absurd hmcp hmcp'
  | halfway e files hrequires hmcp hhooks hfiles =>
      -- the managed server is left, and a terminal has a handle on its file
      have hheld := (hkeeps _ (mem_targetOf.mpr ⟨hrequires, rfl⟩) hmcp).resolve_left hhooks
      by_cases hpath : fileOf J host kind scope = fileOf J host .mcp (args.scope io)
      · right
        obtain ⟨id, scope', hscope', hpath'⟩ := hheld
        exact ⟨id, scope', hscope', by
          obtain rfl := kind_of_fileOf_eq hpath
          exact hpath'.trans hpath.symm⟩
      · rcases h with h | ⟨hscope, -, hinjectable⟩
        · exact h.of_same (hfiles.frame _ hpath) fun id hid => ⟨id, hid⟩
        · obtain ⟨-, rfl⟩ := mem_targetOf.mp hscope
          cases kind with
          | mcp => exact absurd rfl hpath
          | hooks => exact absurd hinjectable hhooks
  | unopened e mid files hprepared hopens hfiles =>
      exact accounted_cleanup hprepared.edited (hfiles hretracts) rfl (h.imp_right fun h => h.1)
  | unregistered e mid files hprepared hopens hpoisoned hfiles =>
      exact accounted_cleanup hprepared.edited (hfiles hretracts) rfl (h.imp_right fun h => h.1)
  | spawned files hprepared hopens hpoisoned =>
      exact accounted_spawned hfresh hprepared.edited rfl (h.imp_right fun h => h.1)

/-- A close keeps track. -/
theorem accounted_close {io : CloseIo} (hconsistent : Consistent J host st)
    (hfaultless : Faultless (.closeSession id io)) (h : Accounted J host st kind scope) :
    Accounted J host (closeSession J host id io st).2 kind scope := by
  have hcase := hconsistent.close_cases id io hfaultless
  generalize (closeSession J host id io st).2 = st' at hcase ⊢
  have hremoved : ∀ {st' : AppState}, st'.ptys = Function.update st.ptys id none →
      Edited J host (cleaned J host) (scopeOf st id) st.files st'.files →
      Accounted J host st' kind scope := by
    intro st' hptys hfiles
    rcases hfiles.owned_cases kind scope with ⟨scope', hscope', hpath, -⟩ | ⟨hne, hsame⟩
    · exact Or.inl (clean_of_edited hfiles hscope' hpath)
    · refine h.of_same hsame fun id' hid' => ⟨id', hid'.of_ptys ?_⟩
      rw [hptys]
      refine Function.update_of_ne ?_ ..
      rintro rfl
      obtain ⟨scope', hscope', hpath⟩ := hid'
      exact hne scope' hscope' hpath.symm
  cases hcase with
  | poisoned => exact h.of_same rfl fun id hid => ⟨id, hid⟩
  | undeleted files hdeletes hfiles => exact hremoved rfl hfiles
  | closed files hdeletes hfiles => exact hremoved rfl hfiles

/-- A kill keeps track. -/
theorem accounted_kill {ptysPoisoned : Bool}
    (hkeeps : KeepsTrack J host st (.ptyKill id ptysPoisoned))
    (h : Accounted J host st kind scope) :
    Accounted J host (ptyKill id ptysPoisoned st).2 kind scope := by
  rcases ptyKill_cases id ptysPoisoned st with hst | ⟨hpoisoned, hst⟩
  · rwa [hst]
  · rw [hst]
    -- it is enough that the file is clean or another terminal holds it
    have hother : (Clean J host kind scope st.files ∨
          ∃ id', id' ≠ id ∧ Holds J host st id' kind scope) →
        Accounted J host { st with ptys := Function.update st.ptys id none } kind scope := by
      rintro (hclean | ⟨id', hne, hid'⟩)
      · exact Or.inl hclean
      · exact Or.inr ⟨id', hid'.of_ptys (Function.update_of_ne hne ..)⟩
    rcases h with hclean | ⟨id', hid'⟩
    · exact hother (Or.inl hclean)
    · by_cases hsame : id' = id
      · rw [hsame] at hid'
        obtain ⟨scope', hscope', hpath⟩ := hid'
        rcases hkeeps hpoisoned scope' hscope' kind with
          hclean | ⟨id', hne, scope'', hscope'', hpath'⟩
        · exact hother (Or.inl (hclean.of_file hpath))
        · exact hother (Or.inr ⟨id', hne, scope'', hscope'', hpath'.trans hpath⟩)
      · exact hother (Or.inr ⟨id', hsame, hid'⟩)

/-- A terminal without an agent changes nothing of that. -/
theorem accounted_ptySpawn {io : PtySpawnIo} (hfresh : Fresh st)
    (h : Accounted J host st kind scope) : Accounted J host (ptySpawn io st).2 kind scope := by
  rcases ptySpawn_cases io st with hst | hst | hst
  · rwa [hst]
  · rw [hst]
    exact h.of_same rfl fun id hid => ⟨id, hid⟩
  · rw [hst]
    exact h.of_same rfl fun id hid =>
      ⟨id, hid.of_ptys (Function.update_of_ne (hid.ne_newId hfresh) ..)⟩

/-- A command that loses track of nothing keeps each file accounted for, and
    those it injects are. -/
theorem accounted_exec (hconsistent : Consistent J host st) (hfaultless : Faultless c)
    (hkeeps : KeepsTrack J host st c)
    (h : Accounted J host st kind scope ∨ Injects J host kind scope st c) :
    Accounted J host (c.exec J host st) kind scope := by
  cases c with
  | spawnSession args io => exact accounted_spawn hconsistent.fresh hfaultless.2.2 hkeeps h
  | closeSession id io => exact accounted_close hconsistent hfaultless (h.resolve_right fun h => h)
  | ptyKill id ptysPoisoned => exact accounted_kill hkeeps (h.resolve_right fun h => h)
  | ptySpawn io => exact accounted_ptySpawn hconsistent.fresh (h.resolve_right fun h => h)

-- ============================================================================
-- Sequences of commands
-- ============================================================================

/-- After commands that lose track of nothing, each file they injected is
    clean or held. -/
theorem accounted_run
    (h : Machine.Along (Command.exec J host) (fun st c => Faultless c ∧ KeepsTrack J host st c)
      (AppState.initial files) cs) :
    Consistent J host (Machine.run (Command.exec J host) (AppState.initial files) cs) ∧
      ∀ kind scope, Injected J host files kind scope cs →
        Accounted J host (Machine.run (Command.exec J host) (AppState.initial files) cs) kind
          scope := by
  refine Machine.invariant (I := fun cs st => Consistent J host st ∧
    ∀ kind scope, Injected J host files kind scope cs → Accounted J host st kind scope)
    ⟨consistent_initial files, fun _ _ h => absurd h Machine.not_ever_nil⟩ ?_ h
  rintro cs c ⟨hfaultless, hkeeps⟩ ⟨hconsistent, haccounted⟩
  refine ⟨hconsistent.exec hfaultless, fun kind scope hinjected => ?_⟩
  exact accounted_exec hconsistent hfaultless hkeeps
    ((Machine.ever_concat.mp hinjected).imp_left (haccounted kind scope))

/-- When no terminal is left, the files that were injected are clean. -/
theorem nothing_left
    (h : Machine.Along (Command.exec J host) (fun st c => Faultless c ∧ KeepsTrack J host st c)
      (AppState.initial files) cs)
    (hptys : ∀ id, (Machine.run (Command.exec J host) (AppState.initial files) cs).ptys id = none)
    (hinjected : Injected J host files kind scope cs) :
    Clean J host kind scope
      (Machine.run (Command.exec J host) (AppState.initial files) cs).files := by
  rcases (accounted_run h).2 kind scope hinjected with hclean | ⟨id, scope', hscope', -⟩
  · exact hclean
  · obtain ⟨pty, hpty, -⟩ := mem_scopeOf.mp hscope'
    rw [hptys id] at hpty
    cases hpty

/-- The spawn of Claude Code injects both files. -/
theorem injects_claudeArgs (kind : ConfigKind) :
    Injects J host kind .global (AppState.initial fun _ => none)
      (.spawnSession claudeArgs calmSpawn) :=
  ⟨targetOf_claudeArgs, injectable_absent rfl rfl,
    injectable_absent rfl (by cases kind <;> rfl)⟩

/-- A session spawned and closed. -/
theorem nothing_left_closed :
    Clean .compact someHost .mcp .global
      (Machine.run (Command.exec .compact someHost) (AppState.initial fun _ => none)
        [.spawnSession claudeArgs calmSpawn, .closeSession "0" calmClose]).files := by
  have hspawn : Faultless (.spawnSession claudeArgs calmSpawn) := ⟨rfl, rfl, rfl, rfl⟩
  refine nothing_left ?_ (fun id => ?_) ⟨[], _, _, rfl, injects_claudeArgs .mcp⟩
  · rw [Machine.along_cons, Machine.along_cons]
    refine ⟨⟨hspawn, fun _ _ _ => Or.inl ?_⟩, ⟨⟨rfl, rfl⟩, trivial⟩, Machine.along_nil⟩
    exact injectable_absent rfl rfl
  · obtain ⟨files, -, hspawned, hconsistent⟩ := exec_afterSpawn .compact someHost
    obtain ⟨files', -, hclosed⟩ := hconsistent.exec_calmClose "0"
    rw [Machine.run_cons, Machine.run_cons, Machine.run_nil, hspawned, hclosed]
    exact congrFun (update_removed ..) id

/-- A session whose terminal is killed before it is closed. -/
def killedBeforeClose : List Command :=
  [.spawnSession claudeArgs calmSpawn, .ptyKill "0" false, .closeSession "0" calmClose]

/-- Its managed server is left. -/
theorem managed_server_left :
    (∀ c ∈ killedBeforeClose, Faultless c) ∧
      (∀ id, (Machine.run (Command.exec .compact someHost) (AppState.initial fun _ => none)
        killedBeforeClose).sessions.sessions id = none) ∧
      (∀ id, (Machine.run (Command.exec .compact someHost) (AppState.initial fun _ => none)
        killedBeforeClose).ptys id = none) ∧
      Injected .compact someHost (fun _ => none) .mcp .global killedBeforeClose ∧
      ¬ Clean .compact someHost .mcp .global
        (Machine.run (Command.exec .compact someHost) (AppState.initial fun _ => none)
          killedBeforeClose).files := by
  obtain ⟨files, hprepared, hspawned, hconsistent⟩ := exec_afterSpawn .compact someHost
  have hkilled := exec_ptyKill_afterSpawn .compact someHost files
  have hconsistent' := hconsistent.exec (c := .ptyKill "0" false) trivial
  rw [hkilled] at hconsistent'
  obtain ⟨files', hedited, hclosed⟩ := hconsistent'.exec_calmClose "0"
  have hrun : Machine.run (Command.exec .compact someHost) (AppState.initial fun _ => none)
      killedBeforeClose =
      { sessions := ((afterSpawn files).sessions.remove "0").2
        ptys := Function.update (fun _ => none) "0" none
        pipelines := Function.update (afterSpawn files).pipelines "0" none
        files := files' } := by
    rw [killedBeforeClose, Machine.run_cons, Machine.run_cons, Machine.run_cons, Machine.run_nil,
      hspawned, hkilled, hclosed]
  refine ⟨?_, fun id => ?_, fun id => ?_, ⟨[], _, _, rfl, injects_claudeArgs .mcp⟩, ?_⟩
  · intro c hc
    simp only [killedBeforeClose, List.mem_cons, List.not_mem_nil, or_false] at hc
    rcases hc with rfl | rfl | rfl
    · exact ⟨rfl, rfl, rfl, rfl⟩
    · trivial
    · exact ⟨rfl, rfl⟩
  · rw [hrun]
    exact congrFun (update_removed ..) id
  · rw [hrun]
    exact congrFun (Function.update_eq_self "0" fun _ => none) id
  · rw [hrun, clean_iff]
    intro (hclean : (own .compact someHost .mcp).owned
      (files' (fileOf .compact someHost .mcp .global)) = _)
    -- the close has no handle, so the file is as the spawn left it
    have hframe : files' (fileOf .compact someHost .mcp .global) =
        files (fileOf .compact someHost .mcp .global) :=
      hedited.frame _ fun _ h => absurd h (Option.not_mem_none _)
    rw [hframe] at hclean
    have howned := hprepared.edited.owned .global targetOf_claudeArgs .mcp
    exact mark_ne_clean .compact someHost .mcp _ (howned.symm.trans hclean)

end Spectty.Sessions
