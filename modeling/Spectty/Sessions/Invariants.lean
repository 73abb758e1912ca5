/-
  Spectty.Sessions.Invariants

  What every sequence of session commands keeps: ids are never minted twice,
  both handles of a terminal are on one scope, and the files a terminal has
  handles on can be retracted.
-/

import Spectty.Sessions.Steps
import Std.Data.String.ToNat

namespace Spectty.Sessions

open Spectty.Core
open Spectty.Lib
open Spectty.Provision
open Spectty.Commands

-- ============================================================================
-- The ids in use
-- ============================================================================

/-- An id was minted, and only under it can there be something new. -/
structure Mints (st st' : AppState) : Prop where
  nextId : st'.sessions.nextId = st.sessions.nextId + 1
  sessions : ∀ id, id ≠ newId st → st'.sessions.sessions id = st.sessions.sessions id
  ptys : ∀ id, id ≠ newId st → st'.ptys id = st.ptys id
  pipelines : ∀ id, id ≠ newId st → st'.pipelines id = st.pipelines id

/-- Nothing is new. -/
structure Shrinks (st st' : AppState) : Prop where
  nextId : st'.sessions.nextId = st.sessions.nextId
  sessions : ∀ id, st.sessions.sessions id = none → st'.sessions.sessions id = none
  ptys : ∀ id, st.ptys id = none → st'.ptys id = none
  pipelines : ∀ id, st.pipelines id = none → st'.pipelines id = none

/-- No id that is still to be minted is in use. -/
def Fresh (st : AppState) : Prop :=
  ∀ n, st.sessions.nextId ≤ n → st.sessions.sessions (toString n) = none ∧
    st.ptys (toString n) = none ∧ st.pipelines (toString n) = none

variable {J : ConfigJson} {host : Host} {args : SpawnArgs} {io : SpawnIo} {st st' : AppState}
  {id : SessionId} {files : Files}

theorem Fresh.newId (h : Fresh st) : st.sessions.sessions (newId st) = none ∧
    st.ptys (Sessions.newId st) = none ∧ st.pipelines (Sessions.newId st) = none :=
  h st.sessions.nextId (Nat.le_refl _)

theorem Fresh.mints (h : Fresh st) (hmints : Mints st st') : Fresh st' := by
  intro n hn
  rw [hmints.nextId] at hn
  have hne : toString n ≠ Sessions.newId st := by
    intro hsame
    have := Nat.repr_injective hsame
    omega
  rw [hmints.sessions _ hne, hmints.ptys _ hne, hmints.pipelines _ hne]
  exact h n (by omega)

theorem Fresh.shrinks (h : Fresh st) (hshrinks : Shrinks st st') : Fresh st' := by
  intro n hn
  rw [hshrinks.nextId] at hn
  obtain ⟨hsessions, hptys, hpipelines⟩ := h n hn
  exact ⟨hshrinks.sessions _ hsessions, hshrinks.ptys _ hptys, hshrinks.pipelines _ hpipelines⟩

theorem fresh_initial (files : Files) : Fresh (AppState.initial files) :=
  fun _ _ => ⟨rfl, rfl, rfl⟩

/-- A removal leaves nothing under ids that had nothing. -/
theorem update_none_of_none {V : Type} {m : String → Option V} {id' : String} (h : m id' = none) :
    Function.update m id none id' = none := by
  rw [Function.update_apply, h, ite_self]

theorem SpawnCase.mints {r : Except String SessionId} (h : SpawnCase J host args io st r st') :
    Mints st st' := by
  cases h with
  | refused => exact ⟨rfl, fun _ _ => rfl, fun _ _ => rfl, fun _ _ => rfl⟩
  | halfway => exact ⟨rfl, fun _ _ => rfl, fun _ _ => rfl, fun _ _ => rfl⟩
  | unopened => exact ⟨rfl, fun _ _ => rfl, fun _ _ => rfl, fun _ _ => rfl⟩
  | unregistered =>
      exact ⟨rfl, fun _ _ => rfl, fun _ _ => rfl, fun _ hne => Function.update_of_ne hne ..⟩
  | spawned =>
      exact ⟨rfl, fun _ hne => Function.update_of_ne hne ..,
        fun _ hne => Function.update_of_ne hne .., fun _ hne => Function.update_of_ne hne ..⟩

/-- A spawn mints an id. -/
theorem spawnSession_mints (J : ConfigJson) (host : Host) (args : SpawnArgs) (io : SpawnIo)
    (h : Fresh st) : Mints st (spawnSession J host args io st).2 :=
  (spawnSession_cases J host args io h.newId.1).mints

/-- A close moves the files, and removes the session or keeps it. -/
theorem closeSessionImplWithHooks_cases {mcpHandle hooksHandle : Option ProvisioningHandle}
    {io : CloseIo} :
    ∃ files, (closeSessionImplWithHooks J host id mcpHandle hooksHandle io st).2 =
        { st with files } ∨
      (closeSessionImplWithHooks J host id mcpHandle hooksHandle io st).2 =
        { st with sessions := (st.sessions.remove id).2, files } := by
  unfold closeSessionImplWithHooks
  cases hmcp : retractHandle host (host.mcpProvisioner.port J) mcpHandle io.mcpRetract st.files with
  | mk r mid =>
      cases r with
      | error e => exact ⟨mid, Or.inl rfl⟩
      | ok u =>
          cases hhooks : retractHandle host (host.hooksProvisioner.port J) hooksHandle
              io.hooksRetract mid with
          | mk r files =>
              cases r with
              | error e => exact ⟨files, Or.inl (by simp only [hhooks])⟩
              | ok u =>
                  refine ⟨files, ?_⟩
                  simp only [hhooks]
                  cases (deletionError "state file: " io.deleteState).or
                      (deletionError "state tmp file: " io.deleteStateTmp) with
                  | some e => exact Or.inl rfl
                  | none => exact Or.inr rfl

/-- A close only removes. -/
theorem closeSession_shrinks (J : ConfigJson) (host : Host) (id : SessionId) (io : CloseIo)
    (st : AppState) : Shrinks st (closeSession J host id io st).2 := by
  unfold closeSession
  cases io.ptysPoisoned with
  | true => exact ⟨rfl, fun _ h => h, fun _ h => h, fun _ h => update_none_of_none h⟩
  | false =>
      simp only [Bool.false_eq_true, if_false]
      obtain ⟨files, h | h⟩ := closeSessionImplWithHooks_cases (J := J)
      · rw [h]
        exact ⟨rfl, fun _ h => h, fun _ h => update_none_of_none h,
          fun _ h => update_none_of_none h⟩
      · rw [h]
        exact ⟨rfl, fun _ h => update_none_of_none h, fun _ h => update_none_of_none h,
          fun _ h => update_none_of_none h⟩

/-- Killing a terminal moves nothing but the terminals. -/
theorem ptyKill_cases (id : SessionId) (ptysPoisoned : Bool) (st : AppState) :
    (ptyKill id ptysPoisoned st).2 = st ∨
      ptysPoisoned = false ∧
        (ptyKill id ptysPoisoned st).2 = { st with ptys := Function.update st.ptys id none } := by
  unfold ptyKill
  cases ptysPoisoned with
  | true => exact Or.inl rfl
  | false =>
      cases st.ptys id with
      | none => exact Or.inl rfl
      | some pty => exact Or.inr ⟨rfl, rfl⟩

theorem ptyKill_shrinks {ptysPoisoned : Bool} : Shrinks st (ptyKill id ptysPoisoned st).2 := by
  rcases ptyKill_cases id ptysPoisoned st with hst | ⟨-, hst⟩
  · rw [hst]
    exact ⟨rfl, fun _ h => h, fun _ h => h, fun _ h => h⟩
  · rw [hst]
    exact ⟨rfl, fun _ h => h, fun _ h => update_none_of_none h, fun _ h => h⟩

/-- A terminal without an agent is not opened, mints an id only, or is
    registered without handles. -/
theorem ptySpawn_cases (io : PtySpawnIo) (st : AppState) :
    (ptySpawn io st).2 = st ∨ (ptySpawn io st).2 = { st with sessions := minted st } ∨
      (ptySpawn io st).2 =
        { st with
          sessions := minted st
          ptys := Function.update st.ptys (newId st) (some (terminal none)) } := by
  unfold ptySpawn
  cases io.openPty with
  | error e => exact Or.inl rfl
  | ok u =>
      cases io.spawnThread with
      | error e => exact Or.inr (Or.inl rfl)
      | ok u =>
          cases io.ptysPoisoned with
          | true => exact Or.inr (Or.inl rfl)
          | false => exact Or.inr (Or.inr rfl)

theorem Fresh.ptySpawn (h : Fresh st) (io : PtySpawnIo) : Fresh (ptySpawn io st).2 := by
  rcases ptySpawn_cases io st with hst | hst | hst
  · rw [hst]
    exact h
  · rw [hst]
    exact h.mints ⟨rfl, fun _ _ => rfl, fun _ _ => rfl, fun _ _ => rfl⟩
  · rw [hst]
    exact h.mints ⟨rfl, fun _ _ => rfl, fun _ hne => Function.update_of_ne hne .., fun _ _ => rfl⟩

/-- No command uses an id before it is minted. -/
theorem Fresh.exec (h : Fresh st) (c : Command) : Fresh (c.exec J host st) := by
  cases c with
  | spawnSession args io => exact h.mints (spawnSession_mints J host args io h)
  | closeSession id io => exact h.shrinks (closeSession_shrinks J host id io st)
  | ptyKill id ptysPoisoned => exact h.shrinks ptyKill_shrinks
  | ptySpawn io => exact h.ptySpawn io

/-- Ids are minted once, in every run. -/
theorem fresh_run (J : ConfigJson) (host : Host) (files : Files) (cs : List Command) :
    Fresh (Machine.run (Command.exec J host) (AppState.initial files) cs) :=
  List.foldlRecOn cs (Command.exec J host) (fresh_initial files) fun _ h c _ => h.exec c

-- ============================================================================
-- The handles
-- ============================================================================

/-- No injection and no retraction of a command meets a failure. -/
def Faultless : Command → Prop
  | .spawnSession _ io =>
      io.mcpInject = Files.noFaults ∧ io.hooksInject = Files.noFaults ∧ Retracts io
  | .closeSession _ io => io.mcpRetract = Files.noFaults ∧ io.hooksRetract = Files.noFaults
  | .ptyKill .. => True
  | .ptySpawn .. => True

/-- Ids are minted once, both handles of a terminal are on one scope, and its
    files can be retracted. -/
structure Consistent (J : ConfigJson) (host : Host) (st : AppState) : Prop where
  fresh : Fresh st
  handles : ∀ id pty, st.ptys id = some pty → pty.hooksHandle = pty.provisioning
  retractable : ∀ id, ∀ scope ∈ scopeOf st id, ∀ kind,
    (own J host kind).Retractable scope st.files

theorem consistent_initial (files : Files) : Consistent J host (AppState.initial files) where
  fresh := fresh_initial files
  handles := fun _ _ h => absurd h (Option.some_ne_none _).symm
  retractable := fun _ _ h => absurd h (Option.not_mem_none _)

/-- A state is consistent if each of its terminals is an old one, or a new one
    on files that can be retracted, and no file lost that. -/
theorem Consistent.of_terminals (h : Consistent J host st) (hfresh : Fresh st')
    (hptys : ∀ id pty, st'.ptys id = some pty → st.ptys id = some pty ∨
      ∃ target, pty = terminal target ∧
        ∀ scope ∈ target, ∀ kind, (own J host kind).Retractable scope st'.files)
    (hfiles : ∀ kind scope, (own J host kind).Retractable scope st.files →
      (own J host kind).Retractable scope st'.files) : Consistent J host st' where
  fresh := hfresh
  handles := by
    intro id pty hpty
    rcases hptys id pty hpty with hold | ⟨target, rfl, -⟩
    · exact h.handles id pty hold
    · rfl
  retractable := by
    intro id scope hscope kind
    obtain ⟨pty, hpty, hhandle⟩ := mem_scopeOf.mp hscope
    rcases hptys id pty hpty with hold | ⟨target, rfl, hretractable⟩
    · exact hfiles kind scope (h.retractable id scope (mem_scopeOf.mpr ⟨pty, hold, hhandle⟩) kind)
    · obtain ⟨scope', hscope', hsame⟩ := Option.map_eq_some_iff.mp hhandle
      obtain rfl := ProvisioningHandle.mk.inj hsame
      exact hretractable scope' hscope' kind

/-- A terminal of an updated registry is the new one or an old one. -/
theorem ptys_update {ptys : String → Option PtyState} {pty pty' : PtyState} {id' : SessionId}
    (h : Function.update ptys id (some pty) id' = some pty') :
    ptys id' = some pty' ∨ pty' = pty := by
  by_cases hid : id' = id
  · rw [hid, Function.update_self] at h
    exact Or.inr (Option.some.inj h).symm
  · rw [Function.update_of_ne hid] at h
    exact Or.inl h

/-- A terminal left after a removal is an old one. -/
theorem ptys_remove {ptys : String → Option PtyState} {pty : PtyState} {id' : SessionId}
    (h : Function.update ptys id none id' = some pty) : id' ≠ id ∧ ptys id' = some pty := by
  by_cases hid : id' = id
  · rw [hid, Function.update_self] at h
    cases h
  · rw [Function.update_of_ne hid] at h
    exact ⟨hid, h⟩

theorem Consistent.spawn (h : Consistent J host st) (hretracts : Retracts io) :
    Consistent J host (spawnSession J host args io st).2 := by
  have hfresh := h.fresh.mints (spawnSession_mints J host args io h.fresh)
  have hcase := spawnSession_cases J host args io h.fresh.newId.1
  generalize spawnSession J host args io st = result at hfresh hcase ⊢
  obtain ⟨r, st'⟩ := result
  cases hcase with
  | refused => exact h.of_terminals hfresh (fun _ _ => Or.inl) fun _ _ => id
  | halfway e files hrequires hmcp hhooks hfiles =>
      exact h.of_terminals hfresh (fun _ _ => Or.inl) fun _ _ => retractable_of_edits hfiles
  | unopened e mid files hprepared hopens hfiles =>
      exact h.of_terminals hfresh (fun _ _ => Or.inl) fun _ _ hold =>
        (hfiles hretracts).retractable_of (hprepared.edited.retractable_of hold)
  | unregistered e mid files hprepared hopens hpoisoned hfiles =>
      exact h.of_terminals hfresh (fun _ _ => Or.inl) fun _ _ hold =>
        (hfiles hretracts).retractable_of (hprepared.edited.retractable_of hold)
  | spawned files hprepared hopens hpoisoned =>
      refine h.of_terminals hfresh (fun id pty hpty => ?_)
        fun _ _ => hprepared.edited.retractable_of
      rcases ptys_update hpty with hold | hnew
      · exact Or.inl hold
      · exact Or.inr ⟨_, hnew, hprepared.edited.retractable⟩

/-- What a close does in a consistent state. -/
theorem Consistent.close_cases (h : Consistent J host st) (id : SessionId) (io : CloseIo)
    (hfaultless : Faultless (.closeSession id io)) :
    CloseCase J host id io st (closeSession J host id io st).2 :=
  closeSession_cases hfaultless.1 hfaultless.2 (h.handles id) (h.retractable id)

theorem Consistent.close (h : Consistent J host st) {io : CloseIo}
    (hfaultless : Faultless (.closeSession id io)) :
    Consistent J host (closeSession J host id io st).2 := by
  have hfresh := h.fresh.shrinks (closeSession_shrinks J host id io st)
  have hcase := h.close_cases id io hfaultless
  generalize (closeSession J host id io st).2 = st' at hfresh hcase ⊢
  cases hcase with
  | poisoned => exact h.of_terminals hfresh (fun _ _ => Or.inl) fun _ _ h => h
  | undeleted files hdeletes hfiles =>
      exact h.of_terminals hfresh (fun _ _ hpty => Or.inl (ptys_remove hpty).2)
        fun _ _ => hfiles.retractable_of
  | closed files hdeletes hfiles =>
      exact h.of_terminals hfresh (fun _ _ hpty => Or.inl (ptys_remove hpty).2)
        fun _ _ => hfiles.retractable_of

theorem Consistent.exec (h : Consistent J host st) {c : Command} (hfaultless : Faultless c) :
    Consistent J host (c.exec J host st) := by
  cases c with
  | spawnSession args io => exact h.spawn hfaultless.2.2
  | closeSession id io => exact h.close hfaultless
  | ptyKill id ptysPoisoned =>
      have hfresh : Fresh (ptyKill id ptysPoisoned st).2 := h.fresh.shrinks ptyKill_shrinks
      show Consistent J host (ptyKill id ptysPoisoned st).2
      rcases ptyKill_cases id ptysPoisoned st with hst | ⟨-, hst⟩
      · rw [hst]
        exact h
      · rw [hst] at hfresh ⊢
        exact h.of_terminals hfresh (fun _ _ hpty => Or.inl (ptys_remove hpty).2) fun _ _ h => h
  | ptySpawn io =>
      have hfresh : Fresh (ptySpawn io st).2 := h.fresh.ptySpawn io
      show Consistent J host (ptySpawn io st).2
      rcases ptySpawn_cases io st with hst | hst | hst
      · rw [hst]
        exact h
      · rw [hst] at hfresh ⊢
        exact h.of_terminals hfresh (fun _ _ => Or.inl) fun _ _ h => h
      · rw [hst] at hfresh ⊢
        refine h.of_terminals hfresh (fun id pty hpty => ?_) fun _ _ h => h
        rcases ptys_update hpty with hold | hnew
        · exact Or.inl hold
        · exact Or.inr ⟨none, hnew, fun _ hscope => absurd hscope (Option.not_mem_none _)⟩

-- ============================================================================
-- Who holds a file
-- ============================================================================

/-- The terminal `id` has a handle on the file of a kind for a scope: on its path, or on
    another path of that file. -/
def Holds (J : ConfigJson) (host : Host) (st : AppState) (id : SessionId)
    (kind : ConfigKind) (scope : ProvisioningScope) : Prop :=
  ∃ scope' ∈ scopeOf st id, fileOf J host kind scope' = fileOf J host kind scope

variable {kind : ConfigKind} {scope scope' : ProvisioningScope}

/-- A registered terminal holds the files of its scope. -/
theorem holds_terminal {target : Option ProvisioningScope}
    (hpty : st.ptys id = some (terminal target)) (hscope' : scope' ∈ target)
    (hpath : fileOf J host kind scope' = fileOf J host kind scope) :
    Holds J host st id kind scope := by
  refine ⟨scope', mem_scopeOf.mpr ⟨_, hpty, ?_⟩, hpath⟩
  rw [hscope']
  rfl

/-- Terminals that are not touched hold what they held. -/
theorem Holds.of_ptys (h : Holds J host st id kind scope) (hptys : st'.ptys id = st.ptys id) :
    Holds J host st' id kind scope := by
  obtain ⟨scope', hscope', hpath⟩ := h
  refine ⟨scope', ?_, hpath⟩
  rw [scopeOf, hptys]
  exact hscope'

/-- An id that is not in use holds nothing. -/
theorem Holds.ne_newId (h : Holds J host st id kind scope) (hfresh : Fresh st) : id ≠ newId st := by
  rintro rfl
  obtain ⟨scope', hscope', -⟩ := h
  obtain ⟨pty, hpty, -⟩ := mem_scopeOf.mp hscope'
  rw [hfresh.newId.2.1] at hpty
  cases hpty

-- ============================================================================
-- A calm outside
-- ============================================================================

/-- Nothing fails during a spawn. -/
def calmSpawn : SpawnIo where
  now := 0
  isGitTracked := fun _ => false
  mcpInject := Files.noFaults
  hooksInject := Files.noFaults
  openPty := .ok ()
  spawnThreads := .ok ()
  ptysPoisoned := false
  mcpRetract := Files.noFaults
  hooksRetract := Files.noFaults

/-- Nothing fails during a close. -/
def calmClose : CloseIo where
  ptysPoisoned := false
  mcpRetract := Files.noFaults
  hooksRetract := Files.noFaults
  deleteState := .ok ()
  deleteStateTmp := .ok ()

/-- The last ten characters, backwards. -/
def ending (s : String) : List Char := s.toList.reverse.take 10

theorem ending_append {s t : String} (h : 10 ≤ t.toList.length) : ending (s ++ t) = ending t := by
  rw [ending, ending, String.toList_append, List.reverse_append, List.take_append_of_le_length]
  rwa [List.length_reverse]

/-- A path of servers does not end as a path of settings. -/
theorem IsServersPath.ne_settings {path : String} (h : IsServersPath path) (dir : String) :
    path ≠ dir ++ "/.claude/settings.json" := by
  intro hpath
  have hsettings : ending path = ending "/.claude/settings.json" := by
    rw [hpath]
    exact ending_append (by decide)
  have hservers : ending path = ending "/.claude.json" ∨ ending path = ending "/.mcp.json" := by
    obtain rfl | ⟨dir, rfl | rfl⟩ := h
    · exact Or.inl rfl
    · exact Or.inl (ending_append (by decide))
    · exact Or.inr (ending_append (by decide))
  rcases hservers with hservers | hservers
  · exact absurd (hsettings.symm.trans hservers) (by decide)
  · exact absurd (hsettings.symm.trans hservers) (by decide)

/-- A host with its sidecars installed, and each file at one path. -/
def someHost : Host where
  home := some "/home/user"
  specttyMcpCommand := "/opt/spectty-mcp"
  specttyHookCommand := "/opt/spectty-hook"
  fileAt := fun path => path
  apart := fun dir _ hservers => IsServersPath.ne_settings hservers dir

/-- A spawn of Claude Code. -/
def claudeArgs : SpawnArgs where
  agent := { kind := "claude-code", command := none, tier := .cooperative }
  workspacePath := "/work"
  title := "Claude"

/-- A file that is not there can be injected. -/
theorem injectable_absent (habsent : files (fileOf J host kind scope) = none)
    (hfaults : injectFaults io kind = Files.noFaults) : Injectable J host io scope files kind := by
  refine ⟨hfaults, ?_⟩
  rw [show files ((own J host kind).pathFor scope) = none from habsent]
  cases kind with
  | mcp =>
      show mcpInjectable J none = true
      rw [mcpInjectable, Option.getD_none, rootOf_empty]
      rfl
  | hooks =>
      show hookRowsInjectable J _ none = true
      rw [hookRowsInjectable, Option.getD_none, rootOf_empty]
      rfl

/-- A close in which nothing fails. -/
theorem Consistent.exec_calmClose (h : Consistent J host st) (id : SessionId) :
    ∃ files, Edited J host (cleaned J host) (scopeOf st id) st.files files ∧
      Command.exec J host st (.closeSession id calmClose) =
        { sessions := (st.sessions.remove id).2
          ptys := Function.update st.ptys id none
          pipelines := Function.update st.pipelines id none
          files } :=
  (h.close_cases id calmClose ⟨rfl, rfl⟩).eq_closed rfl rfl

/-- The state after a spawn of Claude Code on a machine without configuration
    files. -/
def afterSpawn (files : Files) : AppState where
  sessions := (minted (AppState.initial fun _ => none)).insert
    (newSession claudeArgs calmSpawn (AppState.initial fun _ => none))
  ptys := Function.update (fun _ => none) "0" (some (terminal (some .global)))
  pipelines := Function.update (fun _ => none) "0"
    (some (newPipeline claudeArgs (AppState.initial fun _ => none)))
  files := files

theorem ptys_afterSpawn {files : Files} : (afterSpawn files).ptys =
    Function.update (fun _ => none) "0" (some (terminal (some .global))) := rfl

theorem newId_afterSpawn {files : Files} : newId (afterSpawn files) = "1" := by
  show toString 1 = "1"
  rfl

theorem targetOf_claudeArgs : targetOf claudeArgs calmSpawn = some .global := by
  rw [targetOf, if_pos (by decide)]
  rfl

theorem exec_afterSpawn (J : ConfigJson) (host : Host) :
    ∃ files,
      Prepared J host claudeArgs calmSpawn (AppState.initial fun _ => none) files ∧
      Command.exec J host (AppState.initial fun _ => none) (.spawnSession claudeArgs calmSpawn) =
        afterSpawn files ∧
      Consistent J host (afterSpawn files) := by
  obtain ⟨files, hprepared, hst⟩ := spawnSession_spawned J host claudeArgs calmSpawn
    (AppState.initial fun _ => none) rfl (by decide)
    (fun _ _ kind => injectable_absent rfl (by cases kind <;> rfl)) ⟨rfl, rfl⟩ rfl
  rw [targetOf_claudeArgs] at hst
  have hconsistent : Consistent J host (Command.exec J host (AppState.initial fun _ => none)
      (.spawnSession claudeArgs calmSpawn)) := (consistent_initial _).exec ⟨rfl, rfl, rfl, rfl⟩
  rw [show Command.exec J host (AppState.initial fun _ => none)
    (.spawnSession claudeArgs calmSpawn) = afterSpawn files from hst] at hconsistent
  exact ⟨files, hprepared, hst, hconsistent⟩

/-- What was registered and removed is not there. -/
theorem update_removed {V : Type} (id : String) (x : Option V) :
    Function.update (Function.update (fun _ => none) id x) id none = fun _ => none := by
  rw [Function.update_idem]
  exact Function.update_eq_self id fun _ => none

theorem exec_ptyKill_afterSpawn (J : ConfigJson) (host : Host) (files : Files) :
    Command.exec J host (afterSpawn files) (.ptyKill "0" false) =
      { afterSpawn files with ptys := fun _ => none } := by
  show (ptyKill "0" false (afterSpawn files)).2 = _
  have hpty : (afterSpawn files).ptys "0" = some (terminal (some .global)) := by
    rw [ptys_afterSpawn, Function.update_self]
  rw [ptyKill, if_neg Bool.false_ne_true, hpty]
  exact congrArg (fun ptys => { afterSpawn files with ptys }) (update_removed ..)

end Spectty.Sessions
