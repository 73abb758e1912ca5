/-
  Spectty.Effects

  What the programs of the application and of its sidecar do to the world:
  read and write the observation store, observe and read the session
  registry, announce a status to the UI.  Every function of the source that
  has such effects is modelled as a `Prog` over `Sys`, one operation for each
  store access, each registry lock and each emitted event, so that threads
  interleave where they do in the source.

  `World.step` is the general semantics: store accesses may fail, and a
  failed write may still have been stored.  `World.handler` is the
  deterministic one with chosen failures, where a failed write stores nothing.
-/

import Spectty.Core.Session
import Spectty.Adapters.OutputSignal
import Spectty.Lib.Kv
import Spectty.Lib.Pool

namespace Spectty

open Spectty.Core
open Spectty.Adapters (QuickAction)
open Spectty.Lib

/-- The `status_changed` event payload. -/
structure StatusChanged where
  sessionId : SessionId
  status : AgentStatus
  quickActions : List QuickAction
deriving DecidableEq, Repr

/-- Where an observation comes from.  It labels the call site of
    `apply_observed`; the operation does not depend on it. -/
inductive ObservationSource where
  | hook
  | scraping
deriving DecidableEq, Repr

/-- The operations. -/
inductive Op where
  | storeGet (topicKey : String)
  | storeUpsert (topicKey payload : String)
  | applyObserved (source : ObservationSource) (id : SessionId) (observed : Observed)
  | getSession (id : SessionId)
  | removeSession (id : SessionId)
  | emit (event : StatusChanged)
deriving DecidableEq

/-- The reply of each operation.  The error of a store access is the
    transport's message. -/
abbrev Op.Reply : Op → Type
  | .storeGet _ => Except String (Option String)
  | .storeUpsert _ _ => Except String Unit
  | .applyObserved _ _ _ => Option AgentStatus
  | .getSession _ => Option Session
  | .removeSession _ => Option Session
  | .emit _ => Unit

/-- The signature of the application's effects. -/
abbrev Sys : Sig where
  Op := Op
  Reply := Op.Reply

namespace Sys

/-- Read the latest content of a topic. -/
abbrev storeGet (topicKey : String) : Prog Sys (Except String (Option String)) :=
  .op (.storeGet topicKey) .ret

/-- Insert or replace the content of a topic. -/
abbrev storeUpsert (topicKey payload : String) : Prog Sys (Except String Unit) :=
  .op (.storeUpsert topicKey payload) .ret

/-- Apply an observation to a session. -/
abbrev applyObserved (source : ObservationSource) (id : SessionId) (observed : Observed) :
    Prog Sys (Option AgentStatus) :=
  .op (.applyObserved source id observed) .ret

/-- Look a session up. -/
abbrev getSession (id : SessionId) : Prog Sys (Option Session) := .op (.getSession id) .ret

/-- Remove a session. -/
abbrev removeSession (id : SessionId) : Prog Sys (Option Session) := .op (.removeSession id) .ret

/-- Emit a status event. -/
abbrev emit (event : StatusChanged) : Prog Sys Unit := .op (.emit event) .ret

end Sys

/-- The key the store keeps a topic under: the server lowercases topic keys
    and both readers match them case-insensitively. -/
def storeKey (topicKey : String) : String := String.ofList (topicKey.toList.map Char.toLower)

/-- The state the programs share. -/
structure World where
  store : Kv.Store String String
  sessions : SessionRegistry
  emitted : List StatusChanged

namespace World

/-- Nothing stored, no session, nothing emitted. -/
def initial : World where
  store := fun _ => none
  sessions := .empty
  emitted := []

/-- One session held, nothing else. -/
def ofSession (session : Session) : World :=
  { initial with sessions := SessionRegistry.empty.insert session }

/-- The content stored under a topic key. -/
def content (w : World) (topicKey : String) : Option String := w.store (storeKey topicKey)

/-- The stored status of a session. -/
def status (w : World) (id : SessionId) : Option AgentStatus := w.sessions.status id

/-- The world after a write under a topic key took effect. -/
def write (w : World) (topicKey payload : String) : World :=
  { w with store := Kv.write w.store (storeKey topicKey) payload }

@[simp] theorem content_write (w : World) (topicKey payload : String) :
    (w.write topicKey payload).content topicKey = some payload := Kv.write_same

theorem content_write_other {w : World} {topicKey key payload : String}
    (h : storeKey key ≠ storeKey topicKey) :
    (w.write key payload).content topicKey = w.content topicKey := Kv.write_other (Ne.symm h)

/-- What an operation may do. -/
def step : Prog.Semantics Sys World := fun w e w' =>
  match e with
  | ⟨.storeGet topicKey, r⟩ => Kv.Get w.store (storeKey topicKey) r ∧ w' = w
  | ⟨.storeUpsert topicKey payload, r⟩ =>
      ∃ store, Kv.Put w.store (storeKey topicKey) payload r store ∧ w' = { w with store := store }
  | ⟨.applyObserved _ id observed, r⟩ =>
      r = (w.sessions.applyObserved id observed).1 ∧
        w' = { w with sessions := (w.sessions.applyObserved id observed).2 }
  | ⟨.getSession id, r⟩ => r = w.sessions.get id ∧ w' = w
  | ⟨.removeSession id, r⟩ =>
      r = (w.sessions.remove id).1 ∧ w' = { w with sessions := (w.sessions.remove id).2 }
  | ⟨.emit event, _⟩ => w' = { w with emitted := w.emitted ++ [event] }

/-- The store accesses that fail, with the transport's message. -/
structure Faults where
  get : Option String
  upsert : Option String

/-- Every store access succeeds. -/
def noFaults : Faults where
  get := none
  upsert := none

/-- Run each operation with the given failures. -/
def handler (f : Faults) : Prog.Handler Sys World := fun o w =>
  match o with
  | .storeGet topicKey =>
      match f.get with
      | some msg => (.error msg, w)
      | none => (.ok (w.content topicKey), w)
  | .storeUpsert topicKey payload =>
      match f.upsert with
      | some msg => (.error msg, w)
      | none => (.ok (), w.write topicKey payload)
  | .applyObserved _ id observed =>
      ((w.sessions.applyObserved id observed).1,
        { w with sessions := (w.sessions.applyObserved id observed).2 })
  | .getSession id => (w.sessions.get id, w)
  | .removeSession id => ((w.sessions.remove id).1, { w with sessions := (w.sessions.remove id).2 })
  | .emit event => ((), { w with emitted := w.emitted ++ [event] })

/-- The deterministic runs are among the general ones. -/
theorem handler_step (f : Faults) (o : Op) (w : World) :
    step w ⟨o, (handler f o w).1⟩ (handler f o w).2 := by
  cases o with
  | storeGet topicKey =>
      cases hf : f.get with
      | none =>
          simp only [handler, hf, step]
          exact ⟨Kv.get_latest, trivial⟩
      | some msg =>
          simp only [handler, hf, step]
          exact ⟨Kv.get_error msg, trivial⟩
  | storeUpsert topicKey payload =>
      cases hf : f.upsert with
      | none =>
          simp only [handler, hf, step]
          exact ⟨_, Kv.put_stored _, rfl⟩
      | some msg =>
          simp only [handler, hf, step]
          exact ⟨_, Kv.put_refused msg, rfl⟩
  | applyObserved source id observed => exact ⟨rfl, rfl⟩
  | getSession id => exact ⟨rfl, rfl⟩
  | removeSession id => exact ⟨rfl, rfl⟩
  | emit event => rfl

/-- A read may answer the stored content. -/
theorem step_read {w : World} {topicKey : String} {v : Option String}
    (h : w.content topicKey = v) : step w ⟨.storeGet topicKey, .ok v⟩ w := by
  subst h
  exact ⟨Kv.get_latest, rfl⟩

/-- A write may take effect and succeed. -/
theorem step_write (w : World) (topicKey payload : String) :
    step w ⟨.storeUpsert topicKey payload, .ok ()⟩ (w.write topicKey payload) :=
  ⟨_, Kv.put_stored _, rfl⟩

/-- An emission appends its event and answers nothing. -/
theorem step_emission (w : World) (event : StatusChanged) :
    step w ⟨.emit event, ()⟩ { w with emitted := w.emitted ++ [event] } := rfl

-- ============================================================================
-- What a step leaves alone
-- ============================================================================

variable {w w' : World} {e : Event Sys}

/-- Only a write to a topic changes its content. -/
theorem step_content {topicKey : String} (h : step w e w')
    (hkey : ∀ k payload, e.op = .storeUpsert k payload → storeKey k ≠ storeKey topicKey) :
    w'.content topicKey = w.content topicKey := by
  obtain ⟨o, r⟩ := e
  cases o with
  | storeGet k =>
      obtain ⟨-, rfl⟩ := h
      rfl
  | storeUpsert k payload =>
      obtain ⟨store, hput, rfl⟩ := h
      exact hput.other (Ne.symm (hkey k payload rfl))
  | applyObserved source id observed =>
      obtain ⟨-, rfl⟩ := h
      rfl
  | getSession id =>
      obtain ⟨-, rfl⟩ := h
      rfl
  | removeSession id =>
      obtain ⟨-, rfl⟩ := h
      rfl
  | emit event =>
      obtain rfl := h
      rfl

/-- What a write leaves under its own topic. -/
theorem step_upsert_content {k payload : String} {r : Except String Unit}
    (h : step w ⟨.storeUpsert k payload, r⟩ w') :
    w'.content k = some payload ∨ w'.content k = w.content k ∧ ∃ msg, r = .error msg := by
  obtain ⟨store, hput, rfl⟩ := h
  rcases hput with rfl | ⟨rfl, hr⟩
  · exact Or.inl Kv.write_same
  · exact Or.inr ⟨rfl, hr⟩

/-- A read answers the stored content. -/
theorem step_get_content {k : String} {v : Option String}
    (h : step w ⟨.storeGet k, .ok v⟩ w') : v = w.content k :=
  h.1.ok

/-- The operations that may move or drop the stored status of a session. -/
def touchesStatus (id : SessionId) : Op → Bool
  | .applyObserved _ id' _ => id' = id
  | .removeSession id' => id' = id
  | _ => false

/-- Only those do. -/
theorem step_status {id : SessionId} (h : step w e w') (hop : touchesStatus id e.op = false) :
    w'.status id = w.status id := by
  obtain ⟨o, r⟩ := e
  cases o with
  | storeGet k =>
      obtain ⟨-, rfl⟩ := h
      rfl
  | storeUpsert k payload =>
      obtain ⟨store, -, rfl⟩ := h
      rfl
  | applyObserved source id' observed =>
      obtain ⟨-, rfl⟩ := h
      have hne : id' ≠ id := by simpa [touchesStatus] using hop
      exact SessionRegistry.status_applyObserved_other (Ne.symm hne)
  | getSession id =>
      obtain ⟨-, rfl⟩ := h
      rfl
  | removeSession id' =>
      obtain ⟨-, rfl⟩ := h
      have hne : id' ≠ id := by simpa [touchesStatus] using hop
      exact SessionRegistry.status_remove_other (Ne.symm hne)
  | emit event =>
      obtain rfl := h
      rfl

/-- The operation does not observe the session. -/
def observesNot (id : SessionId) : Op → Bool
  | .applyObserved _ id' _ => id' ≠ id
  | _ => true

/-- Without an observation, a stored status stays or is dropped. -/
theorem step_status_le {id : SessionId} (h : step w e w') (hop : observesNot id e.op = true) :
    w'.status id = w.status id ∨ w'.status id = none := by
  by_cases htouch : touchesStatus id e.op = false
  · exact Or.inl (step_status h htouch)
  · obtain ⟨o, r⟩ := e
    cases o with
    | removeSession id' =>
        obtain rfl : id' = id := by simpa [touchesStatus] using htouch
        obtain ⟨-, rfl⟩ := h
        exact Or.inr SessionRegistry.status_remove_self
    | applyObserved source id' observed => simp_all [touchesStatus, observesNot]
    | _ => simp [touchesStatus] at htouch

/-- A look at a session answers its stored status. -/
theorem step_getSession {id : SessionId} {r : Option Session}
    (h : step w ⟨.getSession id, r⟩ w') : w' = w ∧ r.map (·.status) = w.status id := by
  obtain ⟨rfl, rfl⟩ := h
  exact ⟨rfl, rfl⟩

/-- An observation changes nothing and answers nothing, or it moves the
    stored status and answers the new one. -/
theorem step_applyObserved {source : ObservationSource} {id : SessionId} {observed : Observed}
    {r : Option AgentStatus} (h : step w ⟨.applyObserved source id observed, r⟩ w') :
    r = none ∧ w' = w ∨
    ∃ s, w.status id = some s ∧ transition s observed ≠ s ∧ r = some (transition s observed) ∧
      w'.status id = some (transition s observed) := by
  obtain ⟨rfl, rfl⟩ := h
  rcases SessionRegistry.applyObserved_cases w.sessions id observed with
    ⟨hnone, -⟩ | ⟨s, hs, hne, hans, hafter⟩
  · rw [hnone]
    exact Or.inl ⟨rfl, rfl⟩
  · exact Or.inr ⟨s, hs, hne, hans, hafter⟩

/-- An emission appends its event. -/
theorem step_emit {event : StatusChanged} {r : Unit} (h : step w ⟨.emit event, r⟩ w') :
    w'.emitted = w.emitted ++ [event] ∧ w'.sessions = w.sessions := by
  obtain rfl := h
  exact ⟨rfl, rfl⟩

/-- Only an emission grows the list of events. -/
theorem step_emitted (h : step w e w') (hop : ∀ event, e.op ≠ .emit event) :
    w'.emitted = w.emitted := by
  obtain ⟨o, r⟩ := e
  cases o with
  | storeUpsert k payload =>
      obtain ⟨store, -, rfl⟩ := h
      rfl
  | emit event => exact absurd rfl (hop event)
  | _ =>
      obtain ⟨-, rfl⟩ := h
      rfl

end World

end Spectty
