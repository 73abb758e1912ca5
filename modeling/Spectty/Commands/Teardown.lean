/-
  Spectty.Commands.Teardown

  The teardown of a session step by step: which of its steps are attempted,
  for any answers of the outside.

  `closeSessionImplWithHooks` is the command's core over one operation for
  each step; run over the application's state it is the function of that name
  in `Spectty.Commands.Session` (`interp_overState`).  It returns at the first step that
  fails, so a failure skips the later steps and the removal
  (`failed_retract_skips`).
-/

import Spectty.Commands.Session

namespace Spectty.Commands.Teardown

open Spectty.Core
open Spectty.Lib
open Spectty.Provision

-- ============================================================================
-- The steps
-- ============================================================================

/-- The steps of a teardown. -/
inductive CloseOp where
  | kill (id : SessionId)
  | mcpRetract (handle : ProvisioningHandle)
  | hooksRetract (handle : ProvisioningHandle)
  | deleteState (id : SessionId)
  | deleteStateTmp (id : SessionId)
  | removeSession (id : SessionId)
deriving DecidableEq

abbrev CloseOp.Reply : CloseOp → Type
  | .kill _ => Except String Unit
  | .mcpRetract _ => Except ProvisioningError Unit
  | .hooksRetract _ => Except ProvisioningError Unit
  | .deleteState _ => Except IoError Unit
  | .deleteStateTmp _ => Except IoError Unit
  | .removeSession _ => Unit

/-- The signature of a teardown. -/
abbrev CloseSig : Sig where
  Op := CloseOp
  Reply := CloseOp.Reply

/-- Retract from the managed server's file, by a handle if there is one. -/
def mcpRetract : Option ProvisioningHandle → Prog CloseSig (Except ProvisioningError Unit)
  | none => .ret (.ok ())
  | some handle => .op (.mcpRetract handle) .ret

/-- Retract from the hook rows' file, by a handle if there is one. -/
def hooksRetract : Option ProvisioningHandle → Prog CloseSig (Except ProvisioningError Unit)
  | none => .ret (.ok ())
  | some handle => .op (.hooksRetract handle) .ret

/-- Delete the state files and remove the session. -/
def deleteAndRemove (id : SessionId) : Prog CloseSig (Except String Unit) :=
  .op (.deleteState id) fun r =>
    match deletionError "state file: " r with
    | some e => .ret (.error e)
    | none => .op (.deleteStateTmp id) fun r =>
        match deletionError "state tmp file: " r with
        | some e => .ret (.error e)
        | none => .op (.removeSession id) fun _ => .ret (.ok ())

/-- Kill the terminal, retract both provisioners, delete the state files,
    remove the session; the first failure returns. -/
def closeSessionImplWithHooks (id : SessionId)
    (mcpHandle hooksHandle : Option ProvisioningHandle) : Prog CloseSig (Except String Unit) :=
  .op (.kill id) fun r =>
    match r with
    | .error e => .ret (.error e)
    | .ok () => (mcpRetract mcpHandle).bind fun r =>
        match r with
        | .error e => .ret (.error ("mcp provisioner retract failed: " ++ e.message))
        | .ok () => (hooksRetract hooksHandle).bind fun r =>
            match r with
            | .error e => .ret (.error ("hooks provisioner retract failed: " ++ e.message))
            | .ok () => deleteAndRemove id

-- ============================================================================
-- Over the application's state
-- ============================================================================

/-- The steps over the application's state.  Killing a terminal that was
    taken out of its registry always succeeds. -/
def overState (J : ConfigJson) (host : Host) (io : CloseIo) : Prog.Handler CloseSig AppState :=
  fun o st =>
    match o with
    | .kill _ => (.ok (), st)
    | .mcpRetract handle =>
        let (r, files) := ((host.mcpProvisioner.port J).retract handle).interp
          (host.seam io.mcpRetract) st.files
        (r, { st with files })
    | .hooksRetract handle =>
        let (r, files) := ((host.hooksProvisioner.port J).retract handle).interp
          (host.seam io.hooksRetract) st.files
        (r, { st with files })
    | .deleteState _ => (io.deleteState, st)
    | .deleteStateTmp _ => (io.deleteStateTmp, st)
    | .removeSession id => ((), { st with sessions := (st.sessions.remove id).2 })

section

variable (J : ConfigJson) (host : Host) (io : CloseIo) (handle : Option ProvisioningHandle)
  (st : AppState)

theorem interp_mcpRetract :
    (mcpRetract handle).interp (overState J host io) st =
      ((retractHandle host (host.mcpProvisioner.port J) handle io.mcpRetract st.files).1,
        { st with
          files :=
            (retractHandle host (host.mcpProvisioner.port J) handle io.mcpRetract
              st.files).2 }) := by
  cases handle <;> rfl

theorem interp_hooksRetract :
    (hooksRetract handle).interp (overState J host io) st =
      ((retractHandle host (host.hooksProvisioner.port J) handle io.hooksRetract st.files).1,
        { st with
          files :=
            (retractHandle host (host.hooksProvisioner.port J) handle io.hooksRetract
              st.files).2 }) := by
  cases handle <;> rfl

end

/-- The steps over the application's state are the command's core. -/
theorem interp_overState (J : ConfigJson) (host : Host) (io : CloseIo) (id : SessionId)
    (mcpHandle hooksHandle : Option ProvisioningHandle) (st : AppState) :
    (closeSessionImplWithHooks id mcpHandle hooksHandle).interp (overState J host io) st =
      Commands.closeSessionImplWithHooks J host id mcpHandle hooksHandle io st := by
  show Prog.interp (overState J host io) (mcpRetract mcpHandle >>= _) st = _
  rw [Prog.interp_bind, interp_mcpRetract, Commands.closeSessionImplWithHooks]
  cases hmcp : retractHandle host (host.mcpProvisioner.port J) mcpHandle io.mcpRetract st.files with
  | mk r files =>
      cases r with
      | error e => rfl
      | ok _ =>
          show Prog.interp (overState J host io) (hooksRetract hooksHandle >>= _)
            { st with files } = _
          rw [Prog.interp_bind, interp_hooksRetract]
          simp only
          cases hhooks : retractHandle host (host.hooksProvisioner.port J) hooksHandle
              io.hooksRetract files with
          | mk r files' =>
              cases r with
              | error e => rfl
              | ok _ =>
                  cases hstate : deletionError "state file: " io.deleteState with
                  | some e => simp [deleteAndRemove, overState, hstate]
                  | none =>
                      cases htmp : deletionError "state tmp file: " io.deleteStateTmp with
                      | some e => simp [deleteAndRemove, overState, hstate, htmp]
                      | none => simp [deleteAndRemove, overState, hstate, htmp]

-- ============================================================================
-- What is attempted
-- ============================================================================

/-- What each step answers. -/
structure CloseAnswers where
  kill : Except String Unit
  mcpRetract : Except ProvisioningError Unit
  hooksRetract : Except ProvisioningError Unit
  deleteState : Except IoError Unit
  deleteStateTmp : Except IoError Unit

/-- The registry, and the steps attempted so far. -/
structure Progress where
  sessions : SessionRegistry
  attempted : List CloseOp

/-- Record that a step is attempted. -/
def Progress.attempt (t : Progress) (o : CloseOp) : Progress where
  sessions :=
    match o with
    | .removeSession id => (t.sessions.remove id).2
    | _ => t.sessions
  attempted := t.attempted ++ [o]

/-- The answer of a step. -/
def CloseAnswers.answer (answers : CloseAnswers) : (o : CloseOp) → CloseOp.Reply o
  | .kill _ => answers.kill
  | .mcpRetract _ => answers.mcpRetract
  | .hooksRetract _ => answers.hooksRetract
  | .deleteState _ => answers.deleteState
  | .deleteStateTmp _ => answers.deleteStateTmp
  | .removeSession _ => ()

/-- Answer each step and record it. -/
def CloseAnswers.handler (answers : CloseAnswers) : Prog.Handler CloseSig Progress := fun o t =>
  (answers.answer o, t.attempt o)

/-- A teardown from its start. -/
def CloseAnswers.run (answers : CloseAnswers) (id : SessionId)
    (mcpHandle hooksHandle : Option ProvisioningHandle) (sessions : SessionRegistry) :
    Except String Unit × Progress :=
  (closeSessionImplWithHooks id mcpHandle hooksHandle).interp answers.handler
    { sessions, attempted := [] }

/-- What is reported of a step that fails; a file that was not there is no
    failure. -/
def CloseAnswers.failure (answers : CloseAnswers) : CloseOp → Option String
  | .kill _ =>
      match answers.kill with
      | .ok () => none
      | .error e => some e
  | .mcpRetract _ =>
      match answers.mcpRetract with
      | .ok () => none
      | .error e => some ("mcp provisioner retract failed: " ++ e.message)
  | .hooksRetract _ =>
      match answers.hooksRetract with
      | .ok () => none
      | .error e => some ("hooks provisioner retract failed: " ++ e.message)
  | .deleteState _ => deletionError "state file: " answers.deleteState
  | .deleteStateTmp _ => deletionError "state tmp file: " answers.deleteStateTmp
  | .removeSession _ => none

/-- The steps that follow the kill: a retraction where there is a handle, the
    deletions, the removal. -/
def stepsAfterKill (id : SessionId) (mcpHandle hooksHandle : Option ProvisioningHandle) :
    List CloseOp :=
  mcpHandle.toList.map .mcpRetract ++ hooksHandle.toList.map .hooksRetract ++
    [.deleteState id, .deleteStateTmp id] ++ [.removeSession id]

/-- Steps one after the other, up to the first that fails. -/
def CloseAnswers.takeSteps (answers : CloseAnswers) :
    List CloseOp → Progress → Except String Unit × Progress
  | [], t => (.ok (), t)
  | o :: rest, t =>
      match answers.failure o with
      | some e => (.error e, t.attempt o)
      | none => answers.takeSteps rest (t.attempt o)

section

variable {answers : CloseAnswers} {steps : List CloseOp} {o : CloseOp} {t : Progress}

/-- Where no step fails, all are attempted. -/
theorem takeSteps_of_none (h : ∀ o ∈ steps, answers.failure o = none) :
    answers.takeSteps steps t = (.ok (), steps.foldl Progress.attempt t) := by
  induction steps generalizing t with
  | nil => rfl
  | cons o rest ih =>
      rw [CloseAnswers.takeSteps, h o List.mem_cons_self]
      exact ih fun o ho => h o (List.mem_cons_of_mem _ ho)

theorem foldl_attempt_attempted :
    (steps.foldl Progress.attempt t).attempted = t.attempted ++ steps := by
  induction steps generalizing t with
  | nil => exact (List.append_nil _).symm
  | cons o rest ih =>
      rw [List.foldl_cons, ih]
      exact List.append_assoc t.attempted [o] rest

/-- Where the last step is attempted, none before it has failed. -/
theorem none_of_mem_takeSteps
    (h : o ∈ (answers.takeSteps (steps ++ [o]) t).2.attempted) (ho : o ∉ steps)
    (ht : o ∉ t.attempted) : ∀ o ∈ steps, answers.failure o = none := by
  induction steps generalizing t with
  | nil => simp
  | cons first rest ih =>
      obtain ⟨hfirst, hrest⟩ := not_or.mp (mt List.mem_cons.mpr ho)
      have hattempt : o ∉ (t.attempt first).attempted := by
        simp [Progress.attempt, ht, hfirst]
      rw [List.cons_append, CloseAnswers.takeSteps] at h
      cases hf : answers.failure first with
      | some e =>
          rw [hf] at h
          exact absurd h hattempt
      | none =>
          rw [hf] at h
          intro o' ho'
          rcases List.mem_cons.mp ho' with rfl | ho'
          · exact hf
          · exact ih h hrest hattempt o' ho'

end

section

variable (answers : CloseAnswers) (id : SessionId)
  (mcpHandle hooksHandle : Option ProvisioningHandle) (sessions : SessionRegistry)
  (t : Progress)

theorem interp_deleteAndRemove :
    (deleteAndRemove id).interp answers.handler t =
      answers.takeSteps ([.deleteState id, .deleteStateTmp id] ++ [.removeSession id]) t := by
  cases hstate : deletionError "state file: " answers.deleteState <;>
    cases htmp : deletionError "state tmp file: " answers.deleteStateTmp <;>
    simp [deleteAndRemove, CloseAnswers.takeSteps, CloseAnswers.failure, CloseAnswers.handler,
      CloseAnswers.answer, hstate, htmp]

/-- A retraction from the hook rows' file, and the steps after it. -/
theorem interp_hooksRetract_bind :
    ((hooksRetract hooksHandle).bind fun r =>
      match r with
      | .error e => .ret (.error ("hooks provisioner retract failed: " ++ e.message))
      | .ok () => deleteAndRemove id).interp answers.handler t =
      answers.takeSteps (hooksHandle.toList.map .hooksRetract ++
        ([.deleteState id, .deleteStateTmp id] ++ [.removeSession id])) t := by
  cases hooksHandle with
  | none => exact interp_deleteAndRemove answers id t
  | some handle =>
      simp only [hooksRetract, Prog.bind, Prog.interp_op, CloseAnswers.handler,
        CloseAnswers.answer, Option.toList_some, List.map, List.singleton_append,
        CloseAnswers.takeSteps, CloseAnswers.failure]
      cases hr : answers.hooksRetract with
      | error e => rfl
      | ok _ => exact interp_deleteAndRemove answers id (t.attempt (.hooksRetract handle))

/-- After the kill the steps are taken in order up to the first that fails. -/
theorem run_eq (hkill : answers.kill = .ok ()) :
    answers.run id mcpHandle hooksHandle sessions =
      answers.takeSteps (stepsAfterKill id mcpHandle hooksHandle)
        { sessions, attempted := [.kill id] } := by
  simp only [CloseAnswers.run, closeSessionImplWithHooks, stepsAfterKill, List.append_assoc,
    Prog.interp_op, CloseAnswers.handler, CloseAnswers.answer, hkill]
  cases mcpHandle with
  | none => exact interp_hooksRetract_bind answers id hooksHandle _
  | some handle =>
      simp only [mcpRetract, Prog.bind, Prog.interp_op, CloseAnswers.handler,
        CloseAnswers.answer, Option.toList_some, List.map, List.singleton_append,
        CloseAnswers.takeSteps, CloseAnswers.failure]
      cases hr : answers.mcpRetract with
      | error e => rfl
      | ok _ => exact interp_hooksRetract_bind answers id hooksHandle _

end

-- ============================================================================
-- When a teardown completes
-- ============================================================================

section

variable (answers : CloseAnswers) (id : SessionId)
  (mcpHandle hooksHandle : Option ProvisioningHandle) (sessions : SessionRegistry)

/-- Every step that applies is attempted, the session is removed, and a step
    that fails is reported. -/
structure Completes : Prop where
  attempted : ∀ o ∈ stepsAfterKill id mcpHandle hooksHandle,
    o ∈ (answers.run id mcpHandle hooksHandle sessions).2.attempted
  removed : (answers.run id mcpHandle hooksHandle sessions).2.sessions.get id = none
  reported : ∀ o ∈ stepsAfterKill id mcpHandle hooksHandle, answers.failure o ≠ none →
    (answers.run id mcpHandle hooksHandle sessions).1 ≠ .ok ()

/-- Once the kill has succeeded, a teardown completes exactly where no step that
    applies fails. -/
theorem completes_iff (hkill : answers.kill = .ok ()) :
    Completes answers id mcpHandle hooksHandle sessions ↔
      ∀ o ∈ stepsAfterKill id mcpHandle hooksHandle, answers.failure o = none := by
  constructor
  · intro h
    have hlast : CloseOp.removeSession id ∈
        (answers.run id mcpHandle hooksHandle sessions).2.attempted :=
      h.attempted _ (by simp [stepsAfterKill])
    rw [run_eq answers id mcpHandle hooksHandle sessions hkill] at hlast
    intro o ho
    rcases List.mem_append.mp ho with ho | ho
    · exact none_of_mem_takeSteps hlast (by simp) (by simp) o ho
    · rw [List.mem_singleton.mp ho]
      rfl
  · intro h
    have hrun := run_eq answers id mcpHandle hooksHandle sessions hkill
    rw [takeSteps_of_none h] at hrun
    constructor
    case attempted =>
      intro o ho
      rw [hrun, foldl_attempt_attempted]
      exact List.mem_append_right _ ho
    case removed =>
      rw [hrun]
      simp [stepsAfterKill, Progress.attempt, SessionRegistry.remove, SessionRegistry.get]
    case reported =>
      intro o ho hfail
      exact absurd (h o ho) hfail

end

/-- A close of a session whose terminal holds both handles, where the state
    file was never written. -/
theorem completes_without_failure :
    Completes ⟨.ok (), .ok (), .ok (), .error ⟨true, "not found"⟩, .ok ()⟩ "0"
      (some ⟨.global⟩) (some ⟨.global⟩) .empty :=
  (completes_iff ⟨.ok (), .ok (), .ok (), .error ⟨true, "not found"⟩, .ok ()⟩ "0"
    (some ⟨.global⟩) (some ⟨.global⟩) .empty rfl).mpr
      (by simp [stepsAfterKill, CloseAnswers.failure, deletionError])

/-- A session that is closed while the hook rows' file does not parse. -/
def held : Session where
  id := "0"
  workspace := "/w"
  agent := { kind := "claude-code", command := none, tier := .cooperative }
  status := .running
  title := ""
  createdAt := 0

/-- The retraction of the hook rows fails: neither file is deleted, and the
    session stays in the registry. -/
theorem failed_retract_skips :
    let answers : CloseAnswers :=
      ⟨.ok (), .ok (), .error (.parse "trailing comma"), .ok (), .ok ()⟩
    let run := answers.run "0" (some ⟨.global⟩) (some ⟨.global⟩) (.insert .empty held)
    run.1 = .error "hooks provisioner retract failed: config parse error: trailing comma" ∧
    run.2.attempted = [.kill "0", .mcpRetract ⟨.global⟩, .hooksRetract ⟨.global⟩] ∧
    run.2.sessions.get "0" = some held ∧
    ¬ Completes answers "0" (some ⟨.global⟩) (some ⟨.global⟩) (.insert .empty held) := by
  refine ⟨rfl, rfl, rfl, fun h => ?_⟩
  exact absurd h.removed (by decide)

end Spectty.Commands.Teardown
