/-
  Spectty.SpecBus

  The subscribe-by-polling seam: a reader that stamps each content it reads
  with a revision token, and a bus that emits a change when the token grew.

  `contentHash` is a parameter of the reader: it is only compared for
  equality.
-/

import Spectty.Adapters.Engram
import Mathlib.Data.String.Basic

namespace Spectty

open Spectty.Adapters
open Spectty.Lib

/-- One observation as seen by the poll loop. -/
structure Obs where
  content : String
  updatedAt : String
deriving DecidableEq, Repr

/-- What a poll emits. -/
structure Change where
  topicKey : String
  content : String
  updatedAt : String
deriving DecidableEq, Repr

/-- The bus's per-topic state. -/
structure SpecBus where
  topicKey : String
  lastUpdatedAt : Option String
deriving DecidableEq, Repr

/-- A number in decimal, padded with zeros to twenty digits. -/
def revisionToken (revision : Nat) : String :=
  let digits := Nat.toDigits 10 revision
  String.ofList (List.replicate (20 - digits.length) '0' ++ digits)

/-- The reader's change state: the last content's hash and the revision. -/
structure PortPollReader where
  lastContentHash : Option Nat
  revision : Nat
deriving DecidableEq, Repr

namespace PortPollReader

/-- No content seen. -/
def new : PortPollReader where
  lastContentHash := none
  revision := 0

/-- The token a seeded reader reports for the seed. -/
def seededToken : String := "00000000000000000001"

/-- `initialContent` already seen, as revision one. -/
def seeded (contentHash : String → Nat) (initialContent : String) : PortPollReader where
  lastContentHash := some (contentHash initialContent)
  revision := 1

/-- Stamp a content: a hash other than the last one is a new revision. -/
def stamp (contentHash : String → Nat) (self : PortPollReader) (content : String) :
    Obs × PortPollReader :=
  let self :=
    if self.lastContentHash ≠ some (contentHash content) then
      { lastContentHash := some (contentHash content), revision := self.revision + 1 }
    else self
  ({ content, updatedAt := revisionToken self.revision }, self)

/-- Read the latest content of a topic. -/
def read (contentHash : String → Nat) (self : PortPollReader) (topicKey : String) :
    Prog Sys (Except PersistenceError (Option Obs) × PortPollReader) := do
  match ← EngramAdapter.get topicKey with
  | .error e => return (.error e, self)
  | .ok none => return (.ok none, self)
  | .ok (some content) =>
      let (obs, self) := self.stamp contentHash content
      return (.ok (some obs), self)

end PortPollReader

namespace SpecBus

/-- No observation seen. -/
def new (topicKey : String) : SpecBus where
  topicKey := topicKey
  lastUpdatedAt := none

/-- `lastUpdatedAt` already seen. -/
def seeded (topicKey lastUpdatedAt : String) : SpecBus where
  topicKey := topicKey
  lastUpdatedAt := some lastUpdatedAt

/-- The token is greater than the last one seen. -/
def isNewer (self : SpecBus) (updatedAt : String) : Bool :=
  match self.lastUpdatedAt with
  | none => true
  | some prev => updatedAt > prev

/-- One tick's decision: a change where the token is greater than the last
    one seen; an absent observation or an error is ignored. -/
def decide (self : SpecBus) (observed : Except PersistenceError (Option Obs)) :
    Option Change × SpecBus :=
  match observed with
  | .error _ => (none, self)
  | .ok none => (none, self)
  | .ok (some obs) =>
      if self.isNewer obs.updatedAt then
        (some { topicKey := self.topicKey, content := obs.content, updatedAt := obs.updatedAt },
          { self with lastUpdatedAt := some obs.updatedAt })
      else (none, self)

/-- A decision leaves the topic. -/
@[simp] theorem decide_topicKey (bus : SpecBus)
    (observed : Except PersistenceError (Option Obs)) :
    (bus.decide observed).2.topicKey = bus.topicKey := by
  unfold SpecBus.decide
  split
  · rfl
  · rfl
  · split <;> rfl

/-- Read the topic and decide. -/
def poll (contentHash : String → Nat) (self : SpecBus) (reader : PortPollReader) :
    Prog Sys (Option Change × SpecBus × PortPollReader) := do
  let (observed, reader) ← reader.read contentHash self.topicKey
  let (change, self) := self.decide observed
  return (change, self, reader)

end SpecBus

/-- What a reader makes of the store's reply. -/
def PortPollReader.observed (contentHash : String → Nat) (self : PortPollReader)
    (r : Except String (Option String)) : Except PersistenceError (Option Obs) × PortPollReader :=
  match r with
  | .error msg => (.error (mapHttpErr msg), self)
  | .ok none => (.ok none, self)
  | .ok (some content) => ((self.stamp contentHash content).map (.ok ∘ some) id)

/-- A poll is one read. -/
theorem SpecBus.poll_eq (contentHash : String → Nat) (self : SpecBus) (reader : PortPollReader) :
    self.poll contentHash reader =
      .op (.storeGet self.topicKey) fun r =>
        let seen := reader.observed contentHash r
        .ret ((self.decide seen.1).1, (self.decide seen.1).2, seen.2) := by
  unfold poll PortPollReader.read EngramAdapter.get
  simp only [Prog.op_bind, Prog.ret_bind, Prog.pure_eq]
  congr 1
  funext r
  rcases r with msg | (_ | content) <;> rfl

/-- `ticks` rounds of a poll loop handing each change to `emit`. -/
def runPollLoop (contentHash : String → Nat) (emit : Change → Prog Sys Unit) :
    Nat → SpecBus → PortPollReader → Prog Sys Unit
  | 0, _, _ => return ()
  | ticks + 1, bus, reader => do
      let (change, bus, reader) ← bus.poll contentHash reader
      match change with
      | some change => emit change
      | none => pure ()
      runPollLoop contentHash emit ticks bus reader

/-- One round: a read, the change if there is one, and the next rounds. -/
theorem runPollLoop_succ (contentHash : String → Nat) (emit : Change → Prog Sys Unit) (ticks : Nat)
    (bus : SpecBus) (reader : PortPollReader) :
    runPollLoop contentHash emit (ticks + 1) bus reader =
      .op (.storeGet bus.topicKey) fun r =>
        let seen := reader.observed contentHash r
        ((bus.decide seen.1).1.elim (.ret ()) emit) >>= fun _ =>
          runPollLoop contentHash emit ticks (bus.decide seen.1).2 seen.2 := by
  rw [runPollLoop, SpecBus.poll_eq]
  simp only [Prog.op_bind, Prog.ret_bind]
  congr 1
  funext r
  cases (bus.decide (reader.observed contentHash r).1).1 <;> rfl

/-- A loop reads its topic, and does what it hands its changes to. -/
theorem allOps_runPollLoop {contentHash : String → Nat} {emit : Change → Prog Sys Unit}
    {P : Op → Prop} (h : ∀ change, (emit change).AllOps P) {bus : SpecBus}
    (hread : P (.storeGet bus.topicKey)) (ticks : Nat) (reader : PortPollReader) :
    (runPollLoop contentHash emit ticks bus reader).AllOps P := by
  induction ticks generalizing bus reader with
  | zero => trivial
  | succ ticks ih =>
      rw [runPollLoop_succ]
      refine ⟨hread, fun r => Prog.AllOps.bind ?_ fun _ => ih ?_ _⟩
      · cases (bus.decide (reader.observed contentHash r).1).1 with
        | none => trivial
        | some change => exact h change
      · rwa [SpecBus.decide_topicKey]

end Spectty
