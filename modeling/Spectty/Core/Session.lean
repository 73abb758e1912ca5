/-
  Spectty.Core.Session

  Sessions and the registry that owns them.  `SessionRegistry.applyObserved`
  is the one place a stored status changes; `applyObserved_cases` says all it
  can do, and the later modules reason from it.
-/

import Spectty.Core.AgentStatus
import Mathlib.Logic.Function.Basic

namespace Spectty.Core

/-- Milliseconds since the clock's epoch. -/
abbrev Timestamp := Nat

/-- Saturating elapsed milliseconds. -/
def Timestamp.elapsedMsUntil (self later : Timestamp) : Nat := later - self

/-- Identity of a session (also the id of its terminal). -/
abbrev SessionId := String

/-- How cooperatively an agent takes part in the protocol. -/
inductive AgentTier where
  | cooperative
  | generic
deriving DecidableEq, Repr

/-- Which agent a session runs. -/
structure AgentSpec where
  kind : String
  command : Option (List String)
  tier : AgentTier
deriving DecidableEq, Repr

/-- An agent session within a workspace. -/
structure Session where
  id : SessionId
  workspace : String
  agent : AgentSpec
  status : AgentStatus
  title : String
  createdAt : Timestamp
deriving DecidableEq, Repr

/-- The sessions held, and the next id to mint. -/
structure SessionRegistry where
  sessions : SessionId → Option Session
  nextId : Nat

namespace SessionRegistry

/-- The registry at application start. -/
def empty : SessionRegistry where
  sessions := fun _ => none
  nextId := 0

/-- Mint a fresh session id. -/
def mintId (self : SessionRegistry) : SessionId × SessionRegistry :=
  (toString self.nextId, { self with nextId := self.nextId + 1 })

/-- Hold a session under its id. -/
def insert (self : SessionRegistry) (session : Session) : SessionRegistry :=
  { self with sessions := Function.update self.sessions session.id (some session) }

/-- Apply an observation to a session.  Answers the new status when it
    changed. -/
def applyObserved (self : SessionRegistry) (id : SessionId) (observed : Observed) :
    Option AgentStatus × SessionRegistry :=
  match self.sessions id with
  | none => (none, self)
  | some session =>
      let next := transition session.status observed
      if next = session.status then (none, self)
      else
        let session := { session with status := next }
        (some next, { self with sessions := Function.update self.sessions id (some session) })

/-- Look a session up. -/
def get (self : SessionRegistry) (id : SessionId) : Option Session := self.sessions id

/-- Remove a session, answering what was removed. -/
def remove (self : SessionRegistry) (id : SessionId) : Option Session × SessionRegistry :=
  (self.sessions id, { self with sessions := Function.update self.sessions id none })

/-- The stored status of a session. -/
def status (self : SessionRegistry) (id : SessionId) : Option AgentStatus :=
  (self.get id).map (·.status)

variable {self : SessionRegistry} {id id' : SessionId} {o : Observed}

-- ============================================================================
-- What each operation does to the stored statuses
-- ============================================================================

/-- An observation either finds the session gone or its status unmoved, and
    then nothing changes; or it moves the status and answers the new one. -/
theorem applyObserved_cases (self : SessionRegistry) (id : SessionId) (o : Observed) :
    ((self.applyObserved id o) = (none, self) ∧
      ∀ s, self.status id = some s → transition s o = s) ∨
    (∃ s, self.status id = some s ∧ transition s o ≠ s ∧
      (self.applyObserved id o).1 = some (transition s o) ∧
      (self.applyObserved id o).2.status id = some (transition s o)) := by
  unfold applyObserved status get
  cases hs : self.sessions id with
  | none => left; simp
  | some session =>
      simp only
      split
      case isTrue hsame =>
          left
          refine ⟨rfl, fun s h => ?_⟩
          obtain rfl : session.status = s := by simpa using h
          exact hsame
      case isFalse hne =>
          right
          exact ⟨session.status, by simp, hne, rfl, by simp⟩

/-- An observation of one session leaves the others alone. -/
theorem status_applyObserved_other (h : id' ≠ id) :
    (self.applyObserved id o).2.status id' = self.status id' := by
  unfold applyObserved status get
  split
  · rfl
  · simp only
    split
    · rfl
    · simp [Function.update_of_ne h]

@[simp] theorem status_remove_self : (self.remove id).2.status id = none := by
  simp [remove, status, get]

theorem status_remove_other (h : id' ≠ id) :
    (self.remove id).2.status id' = self.status id' := by
  simp [remove, status, get, Function.update_of_ne h]

/-- The status of a held session after an observation. -/
theorem status_applyObserved {s : AgentStatus} (h : self.status id = some s) :
    (self.applyObserved id o).2.status id = some (transition s o) := by
  rcases applyObserved_cases self id o with ⟨hnone, hsame⟩ | ⟨s', hs', -, -, hafter⟩
  · rw [hnone, hsame s h, h]
  · obtain rfl : s' = s := by rw [hs'] at h; exact Option.some.inj h
    exact hafter

end SessionRegistry

end Spectty.Core
