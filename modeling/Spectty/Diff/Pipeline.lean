/-
  Spectty.Diff.Pipeline

  The diff pipeline of a session: a trigger claims the slot, reads the
  working tree's diff, compares its hash with the last one, has it explained,
  caches hash and explanation, emits, and releases the slot.

  Each section under the pipeline's lock and each call of a port is one
  operation, so triggers interleave where they do in the source.  `hashDiff` is a
  parameter: hashes are only compared for equality.
-/

import Spectty.Adapters.AgentRunner
import Spectty.Lib.Pool

namespace Spectty.Diff

open Spectty.Adapters (isWhitespace)
open Spectty.Lib

-- ============================================================================
-- Data
-- ============================================================================

/-- The rationale for one changed file. -/
structure FileExplanation where
  path : String
  rationale : String
deriving DecidableEq, Repr

/-- The explanation of a diff. -/
structure DiffExplanation where
  files : List FileExplanation
  summary : String
deriving DecidableEq, Repr

/-- Nothing to explain. -/
def DiffExplanation.empty : DiffExplanation where
  files := []
  summary := ""

/-- The `diff_updated` event payload. -/
structure DiffUpdated where
  sessionId : String
  explanation : DiffExplanation
deriving DecidableEq, Repr

/-- The outcome of one run. -/
inductive RunOutcome where
  | emitted (hash : Nat)
  | skippedUnchanged
  | empty
  | degraded
deriving DecidableEq, Repr

/-- Errors of the git port. -/
inductive GitError where
  | backend (msg : String)
deriving DecidableEq, Repr

/-- Errors of the explainer port. -/
inductive ExplainError where
  | unavailable (msg : String)
  | parse (msg : String)
deriving DecidableEq, Repr

/-- A pipeline: whose it is, and where it looks. -/
structure DiffPipeline where
  sessionId : String
  workspace : String
deriving DecidableEq, Repr

/-- What the pipeline keeps under its lock. -/
structure PipelineState where
  lastHash : Option Nat
  lastExplanation : Option DiffExplanation
  inFlight : Bool
deriving DecidableEq, Repr

/-- Before the first run. -/
def PipelineState.default : PipelineState where
  lastHash := none
  lastExplanation := none
  inFlight := false

/-- Only whitespace: `trim` leaves nothing. -/
def isBlank (diff : String) : Bool := diff.toList.all isWhitespace

-- ============================================================================
-- Effects
-- ============================================================================

/-- The locked sections, the calls of the ports, the event; and an edit of the
    working tree, after which `git diff HEAD` is `diff`. -/
inductive DiffOp where
  | claimSlot
  | diffHead (workspace : String)
  | cacheEmpty (hash : Nat)
  | lastHash
  | explain (diff workspace : String)
  | cacheExplanation (hash : Nat) (explanation : DiffExplanation)
  | emit (event : DiffUpdated)
  | releaseSlot
  | edit (diff : String)

/-- The reply of each operation; a claim answers whether a pass was in flight. -/
abbrev DiffOp.Reply : DiffOp → Type
  | .claimSlot => Bool
  | .diffHead _ => Except GitError String
  | .cacheEmpty _ => Unit
  | .lastHash => Option Nat
  | .explain _ _ => Except ExplainError DiffExplanation
  | .cacheExplanation _ _ => Unit
  | .emit _ => Unit
  | .releaseSlot => Unit
  | .edit _ => Unit

abbrev DiffSig : Sig where
  Op := DiffOp
  Reply := DiffOp.Reply

/-- The pipeline's state, the diff of the working tree, and the events emitted. -/
structure DiffWorld where
  state : PipelineState
  tree : String
  emitted : List DiffUpdated

/-- A new pipeline over a working tree. -/
def DiffWorld.start (tree : String) : DiffWorld where
  state := .default
  tree := tree
  emitted := []

/-- What the ports may reply: git to a tree with this diff, the explainer to this
    diff. -/
structure Ports where
  git : String → Except GitError String → Prop
  explainer : String → Except ExplainError DiffExplanation → Prop

/-- What an operation may do. -/
def step (ports : Ports) : Prog.Semantics DiffSig DiffWorld := fun w e w' =>
  match e with
  | ⟨.claimSlot, r⟩ =>
      r = w.state.inFlight ∧ w' = { w with state := { w.state with inFlight := true } }
  | ⟨.diffHead _, r⟩ => ports.git w.tree r ∧ w' = w
  | ⟨.cacheEmpty hash, _⟩ =>
      w' = { w with state :=
        { w.state with lastHash := some hash, lastExplanation := some .empty } }
  | ⟨.lastHash, r⟩ => r = w.state.lastHash ∧ w' = w
  | ⟨.explain diff _, r⟩ => ports.explainer diff r ∧ w' = w
  | ⟨.cacheExplanation hash explanation, _⟩ =>
      w' = { w with state :=
        { w.state with lastHash := some hash, lastExplanation := some explanation } }
  | ⟨.emit event, _⟩ => w' = { w with emitted := w.emitted ++ [event] }
  | ⟨.releaseSlot, _⟩ => w' = { w with state := { w.state with inFlight := false } }
  | ⟨.edit diff, _⟩ => w' = { w with tree := diff }

-- ============================================================================
-- One pass
-- ============================================================================

namespace DiffPipeline

variable (hashDiff : String → Nat) (self : DiffPipeline)

/-- The body of a pass, with the slot held. -/
def runInner : Prog DiffSig RunOutcome :=
  .op (.diffHead self.workspace) fun
    | .error (.backend _) => .ret .degraded
    | .ok diff =>
        if isBlank diff then .op (.cacheEmpty (hashDiff "")) fun _ => .ret .empty
        else
          .op .lastHash fun lastHash =>
            if lastHash = some (hashDiff diff) then .ret .skippedUnchanged
            else
              .op (.explain diff self.workspace) fun
                | .ok explanation =>
                    .op (.cacheExplanation (hashDiff diff) explanation) fun _ =>
                      .op (.emit { sessionId := self.sessionId, explanation }) fun _ =>
                        .ret (.emitted (hashDiff diff))
                | .error _ => .ret .degraded

/-- A trigger fired: claim the slot or bail, run the body, release the slot. -/
def runOnce : Prog DiffSig RunOutcome :=
  .op .claimSlot fun
    | true => .ret .degraded
    | false => do
        let outcome ← self.runInner hashDiff
        .op .releaseSlot fun _ => .ret outcome

/-- A trigger, of an edit if there is one. -/
def trigger : Option String → Prog DiffSig RunOutcome
  | none => self.runOnce hashDiff
  | some diff => .op (.edit diff) fun _ => self.runOnce hashDiff

/-- Triggers and edits over one pipeline. -/
def pool {ι : Type} (edits : ι → Option String) (tree : String) :
    Pool ι DiffWorld DiffSig RunOutcome where
  shared := .start tree
  threads i := self.trigger hashDiff (edits i)

/-- The explanation served to the UI. -/
def currentExplanation (w : DiffWorld) : Option DiffExplanation := w.state.lastExplanation

end DiffPipeline

end Spectty.Diff
