/-
  Spectty.Sessions.Provisioned

  How long a scope stays provisioned, over sequences of spawns and closes in
  which nothing outside fails.

  A handle names a scope, and the retraction by one takes out what every
  session of that scope needs, and every session of another scope that resolves to
  the same file.  So the scope of each live session is provisioned exactly as long as
  no close retracts a file that another terminal has a handle on.
-/

import Spectty.Sessions.Invariants

namespace Spectty.Sessions

open Spectty.Core
open Spectty.Lib
open Spectty.Provision
open Spectty.Commands

section

variable (J : ConfigJson) (host : Host)

/-- The files of a scope have the managed server and the row of each hook
    event. -/
structure Provisioned (files : Files) (scope : ProvisioningScope) : Prop where
  server : managedEntry J (files (host.fileAt (host.mcpProvisioner.pathFor scope))) =
    some host.mcpProvisioner.mcpEntry.toValue
  rows : ∀ e ∈ host.hooksProvisioner.events,
    ownedRows J host.hooksProvisioner.hookCommand
      (files (host.fileAt (host.hooksProvisioner.pathFor scope))) e.eventName =
        [(otherFields e.row, e.entry.inner)]

/-- Each live session whose agent requires it has a handle on a scope that is
    provisioned. -/
def SessionsProvisioned (st : AppState) : Prop :=
  ∀ id session, st.sessions.get id = some session →
    requiresProvisioning session.agent.kind = some true →
    ∃ scope ∈ scopeOf st id, Provisioned J host st.files scope

/-- A spawn or a close in which nothing outside fails. -/
def Calm : Command → Prop
  | .spawnSession _ io =>
      io.mcpInject = Files.noFaults ∧ io.hooksInject = Files.noFaults ∧ Opens io ∧
        io.ptysPoisoned = false ∧ Retracts io
  | .closeSession _ io =>
      io.mcpRetract = Files.noFaults ∧ io.hooksRetract = Files.noFaults ∧
        io.ptysPoisoned = false ∧ Deletes io
  | _ => False

/-- A close retracts no file that another terminal has a handle on. -/
def RetractsAlone (st : AppState) : Command → Prop
  | .closeSession id _ => ∀ scope ∈ scopeOf st id, ∀ kind id', id' ≠ id →
      ¬ Holds J host st id' kind scope
  | _ => True

/-- What a command did in which nothing outside failed. -/
inductive CalmCase (st : AppState) : Command → AppState → Prop
  | refused (args : SpawnArgs) (io : SpawnIo) :
      CalmCase st (.spawnSession args io) { st with sessions := minted st }
  | halfway (args : SpawnArgs) (io : SpawnIo) (files : Files)
      (hfiles : (own J host .mcp).Edits (marked J host .mcp) (args.scope io) st.files files) :
      CalmCase st (.spawnSession args io) { st with sessions := minted st, files }
  | spawned (args : SpawnArgs) (io : SpawnIo) (files : Files)
      (hfiles : Edited J host (marked J host) (targetOf args io) st.files files) :
      CalmCase st (.spawnSession args io)
        { sessions := (minted st).insert (newSession args io st)
          ptys := Function.update st.ptys (newId st) (some (terminal (targetOf args io)))
          pipelines := Function.update st.pipelines (newId st) (some (newPipeline args st))
          files }
  | closed (id : SessionId) (io : CloseIo) (files : Files)
      (hfiles : Edited J host (cleaned J host) (scopeOf st id) st.files files) :
      CalmCase st (.closeSession id io)
        { sessions := (st.sessions.remove id).2
          ptys := Function.update st.ptys id none
          pipelines := Function.update st.pipelines id none
          files }

end

variable {J : ConfigJson} {host : Host} {st st' : AppState} {c : Command} {cs : List Command}
  {id : SessionId} {kind kind' : ConfigKind} {scope scope' : ProvisioningScope}
  {files files' : Files}

theorem Calm.faultless (h : Calm c) : Faultless c := by
  cases c with
  | spawnSession args io => exact ⟨h.1, h.2.1, h.2.2.2.2⟩
  | closeSession id io => exact ⟨h.1, h.2.1⟩
  | ptyKill => exact h.elim
  | ptySpawn => exact h.elim

theorem calm_cases (hconsistent : Consistent J host st) (hcalm : Calm c) :
    CalmCase J host st c (c.exec J host st) := by
  cases c with
  | ptyKill => exact hcalm.elim
  | ptySpawn => exact hcalm.elim
  | spawnSession args io =>
      obtain ⟨-, -, hopens, hpoisoned, -⟩ := hcalm
      have hcase := spawnSession_cases J host args io hconsistent.fresh.newId.1
      show CalmCase J host st _ (spawnSession J host args io st).2
      generalize spawnSession J host args io st = result at hcase ⊢
      obtain ⟨r, st'⟩ := result
      cases hcase with
      | refused => exact .refused args io
      | halfway e files hrequires hmcp hhooks hfiles => exact .halfway args io files hfiles
      | unopened e mid files hprepared hnot => exact absurd hopens hnot
      | unregistered e mid files hprepared _ hpoisoned' =>
          rw [hpoisoned] at hpoisoned'
          cases hpoisoned'
      | spawned files hprepared => exact .spawned args io files hprepared.edited
  | closeSession id io =>
      obtain ⟨hmcp, hhooks, hpoisoned, hdeletes⟩ := hcalm
      obtain ⟨files, hfiles, hst⟩ :=
        (hconsistent.close_cases id io ⟨hmcp, hhooks⟩).eq_closed hpoisoned hdeletes
      show CalmCase J host st _ (closeSession J host id io st).2
      rw [hst]
      exact .closed id io files hfiles

-- ============================================================================
-- What is provisioned
-- ============================================================================

/-- Each production event is its own last listing. -/
theorem lastListing_productionHookEvents (hookCmd : String) :
    ∀ e ∈ productionHookEvents hookCmd,
      lastListing (productionHookEvents hookCmd) e.eventName hookCmd = some e := by
  intro e he
  simp only [productionHookEvents, List.mem_cons, List.not_mem_nil, or_false] at he
  rcases he with rfl | rfl | rfl | rfl <;> simp [lastListing, productionHookEvents]

theorem provisioned_of_marked (h : ∀ kind, Marked J host kind scope files) :
    Provisioned J host files scope where
  server := (h .mcp).symm
  rows := by
    intro e he
    have hrows := congrFun (h .hooks) e.eventName
    have hlast := lastListing_productionHookEvents host.specttyHookCommand e he
    exact hrows.symm.trans (markRows_of_lastListing hlast)

/-- Nothing provisioned is clean. -/
theorem Provisioned.not_clean (h : Provisioned J host files scope) (kind : ConfigKind) :
    ownedAt J host kind scope files ≠ (own J host kind).clean := by
  intro hclean
  cases kind with
  | mcp => exact Option.some_ne_none _ (h.server.symm.trans hclean)
  | hooks =>
      have hmem : ∃ e, e ∈ host.hooksProvisioner.events := ⟨_, List.mem_cons_self ..⟩
      obtain ⟨e, he⟩ := hmem
      exact List.cons_ne_nil _ _ ((h.rows e he).symm.trans (congrFun hclean e.eventName))

-- ============================================================================
-- Sessions and terminals
-- ============================================================================

/-- The live sessions whose agents are provisioned are those whose terminals
    have handles. -/
structure InStep (st : AppState) : Prop where
  handle : ∀ id session, st.sessions.sessions id = some session →
    requiresProvisioning session.agent.kind = some true → ∃ scope, scope ∈ scopeOf st id
  session : ∀ id, ∀ scope ∈ scopeOf st id, ∃ session, st.sessions.sessions id = some session ∧
    requiresProvisioning session.agent.kind = some true

theorem inStep_initial (files : Files) : InStep (AppState.initial files) where
  handle := fun _ _ h => absurd h (Option.some_ne_none _).symm
  session := fun _ _ h => absurd h (Option.not_mem_none _)

/-- The scope of a terminal, after the terminals moved. -/
theorem scopeOf_of_ptys (h : st'.ptys id = st.ptys id) : scopeOf st' id = scopeOf st id := by
  rw [scopeOf, h, scopeOf]

theorem scopeOf_of_terminal {target : Option ProvisioningScope}
    (h : st.ptys id = some (terminal target)) : scopeOf st id = target := by
  rw [scopeOf, h]
  cases target <;> rfl

theorem scopeOf_of_none (h : st.ptys id = none) : scopeOf st id = none := by
  rw [scopeOf, h]
  rfl

/-- A registration keeps the registries in step. -/
theorem InStep.register {args : SpawnArgs} {io : SpawnIo} (h : InStep st)
    (hsessions : st'.sessions.sessions =
      Function.update st.sessions.sessions (newId st) (some (newSession args io st)))
    (hptys : st'.ptys = Function.update st.ptys (newId st) (some (terminal (targetOf args io)))) :
    InStep st' := by
  have hnew : scopeOf st' (newId st) = targetOf args io :=
    scopeOf_of_terminal (by rw [hptys, Function.update_self])
  have hold : ∀ {id}, id ≠ newId st → st'.sessions.sessions id = st.sessions.sessions id ∧
      scopeOf st' id = scopeOf st id := by
    intro id hid
    refine ⟨by rw [hsessions, Function.update_of_ne hid], scopeOf_of_ptys ?_⟩
    rw [hptys, Function.update_of_ne hid]
  constructor
  · intro id session hsession hrequires
    by_cases hid : id = newId st
    · rw [hid, hsessions, Function.update_self] at hsession
      obtain rfl := Option.some.inj hsession
      rw [hid, hnew]
      exact ⟨_, mem_targetOf.mpr ⟨hrequires, rfl⟩⟩
    · rw [(hold hid).1] at hsession
      rw [(hold hid).2]
      exact h.handle id session hsession hrequires
  · intro id scope hscope
    by_cases hid : id = newId st
    · rw [hid, hnew] at hscope
      refine ⟨newSession args io st, ?_, (mem_targetOf.mp hscope).1⟩
      rw [hid, hsessions, Function.update_self]
    · rw [(hold hid).2] at hscope
      rw [(hold hid).1]
      exact h.session id scope hscope

/-- A removal from both keeps them in step. -/
theorem InStep.remove (h : InStep st)
    (hsessions : st'.sessions.sessions = Function.update st.sessions.sessions id none)
    (hptys : st'.ptys = Function.update st.ptys id none) : InStep st' := by
  have hgone : st'.sessions.sessions id = none ∧ scopeOf st' id = none :=
    ⟨by rw [hsessions, Function.update_self],
      scopeOf_of_none (by rw [hptys, Function.update_self])⟩
  have hold : ∀ {id'}, id' ≠ id → st'.sessions.sessions id' = st.sessions.sessions id' ∧
      scopeOf st' id' = scopeOf st id' := by
    intro id' hid
    refine ⟨by rw [hsessions, Function.update_of_ne hid], scopeOf_of_ptys ?_⟩
    rw [hptys, Function.update_of_ne hid]
  constructor
  · intro id' session hsession hrequires
    by_cases hid : id' = id
    · rw [hid, hgone.1] at hsession
      cases hsession
    · rw [(hold hid).1] at hsession
      rw [(hold hid).2]
      exact h.handle id' session hsession hrequires
  · intro id' scope hscope
    by_cases hid : id' = id
    · rw [hid, hgone.2] at hscope
      cases hscope
    · rw [(hold hid).2] at hscope
      rw [(hold hid).1]
      exact h.session id' scope hscope

theorem InStep.exec (h : InStep st) (hcase : CalmCase J host st c st') : InStep st' := by
  cases hcase with
  | refused => exact ⟨h.handle, h.session⟩
  | halfway => exact ⟨h.handle, h.session⟩
  | spawned args io files hfiles => exact h.register rfl rfl
  | closed id io files hfiles => exact h.remove rfl rfl

-- ============================================================================
-- Sequences of spawns and closes
-- ============================================================================

/-- The files of each terminal's scope are marked. -/
def TerminalsMarked (J : ConfigJson) (host : Host) (st : AppState) : Prop :=
  ∀ id, ∀ scope ∈ scopeOf st id, ∀ kind, Marked J host kind scope st.files

theorem SessionsProvisioned.of_marked (hstep : InStep st) (h : TerminalsMarked J host st) :
    SessionsProvisioned J host st := by
  intro id session hsession hrequires
  obtain ⟨scope, hscope⟩ := hstep.handle id session hsession hrequires
  exact ⟨scope, hscope, provisioned_of_marked (h id scope hscope)⟩

/-- A close that retracts alone leaves the other terminals' files marked. -/
theorem TerminalsMarked.exec (h : TerminalsMarked J host st)
    (halone : RetractsAlone J host st c) (hcase : CalmCase J host st c st') :
    TerminalsMarked J host st' := by
  cases hcase with
  | refused => exact h
  | halfway args io files hfiles =>
      exact fun id scope hscope kind => (h id scope hscope kind).of_edits hfiles
  | spawned args io files hfiles =>
      intro id scope hscope kind
      by_cases hid : id = newId st
      · rw [hid, scopeOf_of_terminal (Function.update_self ..)] at hscope
        exact Marked.of_edited hfiles (Or.inr hscope)
      · rw [scopeOf_of_ptys (Function.update_of_ne hid ..)] at hscope
        exact Marked.of_edited hfiles (Or.inl (h id scope hscope kind))
  | closed id io files hfiles =>
      intro id' scope hscope kind
      by_cases hid : id' = id
      · rw [hid, scopeOf_of_none (Function.update_self ..)] at hscope
        cases hscope
      · rw [scopeOf_of_ptys (Function.update_of_ne hid ..)] at hscope
        rcases hfiles.owned_cases kind scope with ⟨scope', hscope', hpath, -⟩ | ⟨-, hsame⟩
        · exact absurd ⟨scope, hscope, hpath⟩ (halone scope' hscope' kind id' hid)
        · exact (h id' scope hscope kind).of_same hsame

/-- A close after which the live sessions are still provisioned retracted
    alone. -/
theorem retractsAlone_of_provisioned (hstep : InStep st) (hcase : CalmCase J host st c st')
    (h : SessionsProvisioned J host st') : RetractsAlone J host st c := by
  cases hcase with
  | refused => trivial
  | halfway => trivial
  | spawned => trivial
  | closed id io files hfiles =>
      rintro scope hscope kind id' hne ⟨scope', hscope', hpath⟩
      obtain ⟨session, hsession, hrequires⟩ := hstep.session id' scope' hscope'
      obtain ⟨scope'', hscope'', hprovisioned⟩ := h id' session
        ((Function.update_of_ne hne ..).trans hsession) hrequires
      rw [scopeOf_of_ptys (Function.update_of_ne hne ..)] at hscope''
      obtain rfl := Option.mem_unique hscope' hscope''
      -- the close left clean what that session needs
      refine hprovisioned.not_clean kind ?_
      unfold ownedAt
      rw [hpath]
      exact hfiles.owned scope hscope kind

/-- What every sequence of spawns and closes keeps. -/
theorem calm_run (J : ConfigJson) (host : Host) (files : Files) (h : ∀ c ∈ cs, Calm c) :
    Consistent J host (Machine.run (Command.exec J host) (AppState.initial files) cs) ∧
      InStep (Machine.run (Command.exec J host) (AppState.initial files) cs) := by
  refine Machine.invariant (P := fun _ c => Calm c)
    (I := fun _ st => Consistent J host st ∧ InStep st)
    ⟨consistent_initial files, inStep_initial files⟩ ?_ ?_
  · rintro cs c hcalm ⟨hconsistent, hstep⟩
    exact ⟨hconsistent.exec hcalm.faultless, hstep.exec (calm_cases hconsistent hcalm)⟩
  · rintro pre c post rfl
    exact h c (List.mem_append_right _ (List.mem_cons_self ..))

/-- While each close retracts alone, the files of the terminals are marked. -/
theorem terminalsMarked_run (h : ∀ c ∈ cs, Calm c)
    (halone : Machine.Along (Command.exec J host) (RetractsAlone J host) (AppState.initial files)
      cs) :
    TerminalsMarked J host (Machine.run (Command.exec J host) (AppState.initial files) cs) := by
  induction cs using List.reverseRecOn with
  | nil => exact fun _ _ hscope => absurd hscope (Option.not_mem_none _)
  | append_singleton cs c ih =>
      have hcs : ∀ c ∈ cs, Calm c := fun c hc => h c (List.mem_append_left _ hc)
      have hcalm : Calm c := h c (List.mem_append_right _ (List.mem_singleton_self c))
      obtain ⟨hbefore, hlast⟩ := Machine.along_concat.mp halone
      rw [Machine.run_concat]
      exact (ih hcs hbefore).exec hlast (calm_cases (calm_run J host files hcs).1 hcalm)

/-- The live sessions are provisioned at every point exactly if each close
    retracts alone. -/
theorem provisioned_while_live (h : ∀ c ∈ cs, Calm c) :
    (∀ pre, pre <+: cs → SessionsProvisioned J host
      (Machine.run (Command.exec J host) (AppState.initial files) pre)) ↔
    Machine.Along (Command.exec J host) (RetractsAlone J host) (AppState.initial files) cs := by
  constructor
  · intro hprovisioned pre c post hsplit
    have hpre : ∀ c ∈ pre, Calm c :=
      fun c hc => h c (by rw [hsplit]; exact List.mem_append_left _ hc)
    have hcalm : Calm c :=
      h c (by rw [hsplit]; exact List.mem_append_right _ (List.mem_cons_self ..))
    obtain ⟨hconsistent, hstep⟩ := calm_run J host files hpre
    have hafter := hprovisioned (pre ++ [c])
      ⟨post, by rw [hsplit, List.append_assoc, List.singleton_append]⟩
    rw [Machine.run_concat] at hafter
    exact retractsAlone_of_provisioned hstep (calm_cases hconsistent hcalm) hafter
  · intro halone pre hpre
    have hcalm : ∀ c ∈ pre, Calm c := fun c hc => h c (hpre.subset hc)
    exact .of_marked (calm_run J host files hcalm).2
      (terminalsMarked_run hcalm (halone.of_prefix hpre))

theorem calm_claudeArgs : Calm (.spawnSession claudeArgs calmSpawn) :=
  ⟨rfl, rfl, ⟨rfl, rfl⟩, rfl, rfl, rfl⟩

theorem calm_calmClose : Calm (.closeSession id calmClose) := ⟨rfl, rfl, rfl, rfl⟩

/-- A spawn in a workspace that tracks its configuration. -/
def trackedSpawn : SpawnIo := { calmSpawn with isGitTracked := fun _ => true }

theorem targetOf_trackedSpawn : targetOf claudeArgs trackedSpawn = some (.project "/work") := by
  rw [targetOf, if_pos (by decide)]
  rfl

theorem calm_trackedSpawn : Calm (.spawnSession claudeArgs trackedSpawn) :=
  ⟨rfl, rfl, ⟨rfl, rfl⟩, rfl, rfl, rfl⟩

/-- The workspace's files are not those of the home directory. -/
theorem fileOf_project_ne_global (J : ConfigJson) (kind kind' : ConfigKind) :
    fileOf J someHost kind (.project "/work") ≠ fileOf J someHost kind' .global := by
  intro h
  obtain rfl := kind_of_fileOf_eq h
  revert h
  cases kind <;> exact of_decide_eq_false rfl

/-- After a second spawn in another scope, each terminal has a handle on its own. -/
theorem exec_trackedSpawn (J : ConfigJson) (files : Files)
    (h : Prepared J someHost claudeArgs calmSpawn (AppState.initial fun _ => none) files)
    (hfresh : Fresh (afterSpawn files)) :
    let st := Command.exec J someHost (afterSpawn files) (.spawnSession claudeArgs trackedSpawn)
    scopeOf st "0" = some .global ∧ scopeOf st "1" = some (.project "/work") ∧
      ∀ id, id ≠ "0" → id ≠ "1" → scopeOf st id = none := by
  have hedited := h.edited
  rw [targetOf_claudeArgs] at hedited
  have hinjectable : ∀ scope ∈ targetOf claudeArgs trackedSpawn, ∀ kind,
      Injectable J someHost trackedSpawn scope (afterSpawn files).files kind := by
    intro scope hscope kind
    rw [targetOf_trackedSpawn] at hscope
    obtain rfl : .project "/work" = scope := by simpa using hscope
    refine injectable_absent (hedited.frame _ fun scope hscope kind' => ?_) (by cases kind <;> rfl)
    obtain rfl : .global = scope := by simpa using hscope
    exact fileOf_project_ne_global J kind kind'
  obtain ⟨files', -, hst⟩ := spawnSession_spawned J someHost claudeArgs trackedSpawn
    (afterSpawn files) hfresh.newId.1 (by decide) hinjectable ⟨rfl, rfl⟩ rfl
  rw [targetOf_trackedSpawn, newId_afterSpawn] at hst
  intro st
  have hptys : st.ptys = Function.update (afterSpawn files).ptys "1"
      (some (terminal (some (.project "/work")))) := congrArg AppState.ptys hst
  refine ⟨scopeOf_of_terminal ?_, scopeOf_of_terminal ?_, fun id h0 h1 => scopeOf_of_none ?_⟩
  · rw [hptys, Function.update_of_ne (by decide), ptys_afterSpawn, Function.update_self]
  · rw [hptys, Function.update_self]
  · rw [hptys, Function.update_of_ne h1, ptys_afterSpawn, Function.update_of_ne h0]

/-- Two sessions of two scopes: the one that is left is provisioned. -/
theorem provisioned_while_live_two :
    SessionsProvisioned .compact someHost
      (Machine.run (Command.exec .compact someHost) (AppState.initial fun _ => none)
        [.spawnSession claudeArgs calmSpawn, .spawnSession claudeArgs trackedSpawn,
          .closeSession "0" calmClose]) := by
  refine (provisioned_while_live ?_).mpr ?_ _ (List.prefix_refl _)
  · intro c hc
    simp only [List.mem_cons, List.not_mem_nil, or_false] at hc
    rcases hc with rfl | rfl | rfl
    · exact calm_claudeArgs
    · exact calm_trackedSpawn
    · exact calm_calmClose
  · rw [Machine.along_cons, Machine.along_cons, Machine.along_cons]
    refine ⟨trivial, trivial, ?_, Machine.along_nil⟩
    obtain ⟨files, hprepared, hspawned, hconsistent⟩ := exec_afterSpawn .compact someHost
    obtain ⟨hfirst, hsecond, hnone⟩ := exec_trackedSpawn .compact files hprepared hconsistent.fresh
    rw [hspawned]
    rintro scope hscope kind id hne ⟨scope', hscope', hfile⟩
    rw [hfirst] at hscope
    obtain rfl : .global = scope := by simpa using hscope
    by_cases hid : id = "1"
    · rw [hid, hsecond] at hscope'
      obtain rfl : .project "/work" = scope' := by simpa using hscope'
      exact fileOf_project_ne_global .compact kind kind hfile
    · rw [hnone id hne hid] at hscope'
      cases hscope'

/-- Two sessions of one scope, the first closed. -/
def closedFirst : List Command :=
  [.spawnSession claudeArgs calmSpawn, .spawnSession claudeArgs calmSpawn,
    .closeSession "0" calmClose]

/-- After a second spawn in the scope, both terminals have a handle on it. -/
theorem exec_secondSpawn (J : ConfigJson) (host : Host) (files : Files)
    (h : Prepared J host claudeArgs calmSpawn (AppState.initial fun _ => none) files)
    (hfresh : Fresh (afterSpawn files)) :
    let st := Command.exec J host (afterSpawn files) (.spawnSession claudeArgs calmSpawn)
    scopeOf st "0" = some .global ∧ scopeOf st "1" = some .global := by
  have hagain : ∀ scope ∈ targetOf claudeArgs calmSpawn, ∀ kind,
      Injectable J host calmSpawn scope (afterSpawn files).files kind :=
    fun scope hscope kind => ⟨by cases kind <;> rfl, h.again scope hscope kind⟩
  obtain ⟨files', -, hst⟩ := spawnSession_spawned J host claudeArgs calmSpawn (afterSpawn files)
    hfresh.newId.1 (by decide) hagain ⟨rfl, rfl⟩ rfl
  rw [targetOf_claudeArgs, newId_afterSpawn] at hst
  intro st
  have hptys : st.ptys = Function.update (afterSpawn files).ptys "1"
      (some (terminal (some .global))) := congrArg AppState.ptys hst
  refine ⟨scopeOf_of_terminal ?_, scopeOf_of_terminal ?_⟩
  · rw [hptys, Function.update_of_ne (by decide), ptys_afterSpawn, Function.update_self]
  · rw [hptys, Function.update_self]

/-- The session that is left has lost what it needs. -/
theorem provisioning_lost :
    (∀ c ∈ closedFirst, Calm c) ∧
      ¬ SessionsProvisioned .compact someHost
        (Machine.run (Command.exec .compact someHost) (AppState.initial fun _ => none)
          closedFirst) := by
  refine ⟨fun c hc => ?_, fun hprovisioned => ?_⟩
  · simp only [closedFirst, List.mem_cons, List.not_mem_nil, or_false] at hc
    rcases hc with rfl | rfl | rfl
    · exact calm_claudeArgs
    · exact calm_claudeArgs
    · exact calm_calmClose
  · obtain ⟨files, hprepared, hspawned, hconsistent⟩ := exec_afterSpawn .compact someHost
    obtain ⟨hfirst, hsecond⟩ := exec_secondSpawn .compact someHost files hprepared
      hconsistent.fresh
    have htwo : ∀ c ∈ [.spawnSession claudeArgs calmSpawn, .spawnSession claudeArgs calmSpawn],
        Calm c := by simp [calm_claudeArgs]
    obtain ⟨hconsistent', hstep⟩ := calm_run .compact someHost (fun _ => none) htwo
    rw [Machine.run_cons, Machine.run_cons, Machine.run_nil, hspawned] at hconsistent' hstep
    rw [closedFirst, Machine.run_cons, Machine.run_cons, Machine.run_cons, Machine.run_nil,
      hspawned] at hprovisioned
    have halone := retractsAlone_of_provisioned hstep (calm_cases hconsistent' calm_calmClose)
      hprovisioned
    exact halone .global hfirst .mcp "1" (by decide) ⟨.global, hsecond, rfl⟩

end Spectty.Sessions
