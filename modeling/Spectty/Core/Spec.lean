/-
  Spectty.Core.Spec

  The plan contract of a session: tasks, progress, and the approval gate.
  `SpecContract.mayBeginEdits` is the gate; `SpecContract.applyProgress`
  advances a task through it.

  The readers (`TaskState.decode` ... `SpecContract.decode`) are the derived
  ones, with each field's wire name and default.
-/

import Spectty.Lib.Serde

namespace Spectty.Core

open Spectty.Lib (Json)
open Spectty.Lib.Serde

/-- Lifecycle state of a planned task. -/
inductive TaskState where
  | pending
  | inProgress
  | done
  | skipped
deriving DecidableEq, Repr

namespace TaskState

/-- One-way transition: an illegal move leaves the state unchanged. -/
def transition (self target : TaskState) : TaskState :=
  match self, target with
  | .pending, .inProgress => target
  | .pending, .skipped => target
  | .inProgress, .done => target
  | .inProgress, .skipped => target
  | _, _ => self

/-- The wire names (`snake_case`). -/
def variants : List (String × TaskState) :=
  [("pending", .pending), ("in_progress", .inProgress), ("done", .done), ("skipped", .skipped)]

def decode : Decode TaskState := unitEnum variants

end TaskState

/-- The plan-approval lifecycle. -/
inductive ApprovalState where
  | pending
  | approved
  | rejected
  | adjusted
deriving DecidableEq, Repr

namespace ApprovalState

/-- A submitted plan starts pending. -/
def default : ApprovalState := .pending

/-- The canonical string of a state, as serialized. -/
def wire : ApprovalState → String
  | .pending => "Pending"
  | .approved => "Approved"
  | .rejected => "Rejected"
  | .adjusted => "Adjusted"

def variants : List (String × ApprovalState) :=
  [("Pending", .pending), ("Approved", .approved), ("Rejected", .rejected),
    ("Adjusted", .adjusted)]

def decode : Decode ApprovalState := unitEnum variants

def encode (s : ApprovalState) : Json := .str s.wire

@[simp] theorem decode_wire (s : ApprovalState) : decode (.str s.wire) = some s := by
  cases s <;> decide

end ApprovalState

/-- A planned task. -/
structure SpecTask where
  id : String
  title : String
  state : TaskState
  notes : Option String
deriving DecidableEq, Repr

/-- The state has the wire name `status`. -/
def SpecTask.decode : Decode SpecTask := fun j => do
  let fields ← readFields ["id", "title", "status", "notes"] j
  let id ← required fields "id" string
  let title ← required fields "title" string
  let state ← required fields "status" TaskState.decode
  let notes ← defaulted fields "notes" none (option string)
  return { id, title, state, notes }

/-- A progress entry. -/
structure TaskProgress where
  taskId : String
  state : TaskState
deriving DecidableEq, Repr

def TaskProgress.decode : Decode TaskProgress := fun j => do
  let fields ← readFields ["task_id", "state"] j
  let taskId ← required fields "task_id" string
  let state ← required fields "state" TaskState.decode
  return { taskId, state }

/-- The plan-and-progress contract of a session. -/
structure SpecContract where
  intent : String
  proposal : Option String
  tasks : List SpecTask
  progress : List TaskProgress
  approval : ApprovalState
  steeringNotes : List String
  devOverride : Bool
deriving DecidableEq, Repr

/-- Errors of the spec rules. -/
inductive SpecError where
  | gateNotApproved
  | unknownTask (taskId : String)
deriving DecidableEq, Repr

/-- The text of an error. -/
def SpecError.message : SpecError → String
  | .gateNotApproved => "plan not approved: edits may not begin until the plan is Approved"
  | .unknownTask taskId => "unknown task id: " ++ taskId

namespace SpecContract

def decode : Decode SpecContract := fun j => do
  let fields ← readFields ["intent", "proposal", "tasks", "progress", "approval",
    "steering_notes", "dev_override"] j
  let intent ← defaulted fields "intent" "" string
  let proposal ← defaulted fields "proposal" none (option string)
  let tasks ← required fields "tasks" (vec SpecTask.decode)
  let progress ← defaulted fields "progress" [] (vec TaskProgress.decode)
  let approval ← defaulted fields "approval" .default ApprovalState.decode
  let steeringNotes ← defaulted fields "steering_notes" [] (vec string)
  let devOverride ← defaulted fields "dev_override" false bool
  return { intent, proposal, tasks, progress, approval, steeringNotes, devOverride }

/-- The plan-approval gate. -/
def mayBeginEdits (self : SpecContract) : Bool :=
  self.approval = .approved || self.devOverride

/-- Set the state of the first task with id `taskId`. -/
def setTask (taskId : String) (next : TaskState) : List SpecTask → List SpecTask
  | [] => []
  | t :: rest =>
      if t.id = taskId then { t with state := next } :: rest else t :: setTask taskId next rest

/-- Advance a task: the gate first, then the task lookup, then the one-way
    move, which leaves the contract as it is when it is illegal. -/
def applyProgress (self : SpecContract) (taskId : String) (target : TaskState) :
    Except SpecError SpecContract :=
  if target = .inProgress ∧ self.mayBeginEdits = false then .error .gateNotApproved
  else
    match self.tasks.find? (·.id = taskId) with
    | none => .error (.unknownTask taskId)
    | some task =>
        let next := task.state.transition target
        if next = task.state then .ok self
        else
          .ok { self with
            tasks := setTask taskId next self.tasks
            progress := self.progress ++ [{ taskId, state := next }] }

/-- The gate is the only rule that refuses work on a known task. -/
theorem applyProgress_gate {self : SpecContract} {taskId : String} :
    self.applyProgress taskId .inProgress = .error .gateNotApproved ↔
      self.mayBeginEdits = false := by
  unfold applyProgress
  constructor
  · intro h
    by_contra hgate
    rw [if_neg (by simp [hgate])] at h
    split at h
    · simp at h
    · dsimp only at h
      split at h <;> simp at h
  · intro hgate
    rw [if_pos ⟨rfl, hgate⟩]

end SpecContract

end Spectty.Core
