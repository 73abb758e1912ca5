/-
  Spectty.Core.AgentStatus

  The session state machine: `AgentStatus`, what a detector may observe of an
  agent (`Observed`), and the transition policy.

  `transition` is the code's match, arm by arm.  `Edge` is the same policy as
  a graph: which status may follow which, whatever was observed.
  `edge_iff` ties the two, so the graph is what the table means.
-/

import Mathlib.Logic.Basic
import Mathlib.Tactic.Cases

namespace Spectty.Core

/-- Lifecycle status of an agent session. -/
inductive AgentStatus where
  | starting
  | idle
  | running
  | awaitingInput
  | completed
  | error
deriving DecidableEq, Repr

/-- What a detector observed from one output signal. -/
inductive Observed where
  | ready
  | working
  | needsInput
  | finished
  | failed
deriving DecidableEq, Repr

/-- The transition policy.  An illegal or no-op observation returns the
    current status. -/
def transition (current : AgentStatus) (observed : Observed) : AgentStatus :=
  match current, observed with
  | .completed, _ => current
  | .error, _ => current
  | _, .failed => .error
  | .running, .finished => .completed
  | .idle, .finished => .completed
  | .starting, .ready => .idle
  | .starting, .working => .running
  | .idle, .working => .running
  | .running, .needsInput => .awaitingInput
  | .running, .ready => .idle
  | .awaitingInput, .working => .running
  | .awaitingInput, .ready => .idle
  | _, _ => current

namespace AgentStatus

/-- The absorbing statuses. -/
def isTerminal : AgentStatus → Bool
  | .completed => true
  | .error => true
  | _ => false

end AgentStatus

-- ============================================================================
-- The graph
-- ============================================================================

/-- The legal changes of status. -/
inductive Edge : AgentStatus → AgentStatus → Prop where
  | ready : Edge .starting .idle
  | skipIdle : Edge .starting .running
  | task : Edge .idle .running
  | prompt : Edge .running .awaitingInput
  | turnEnd : Edge .running .idle
  | input : Edge .awaitingInput .running
  | dismissed : Edge .awaitingInput .idle
  | done : Edge .running .completed
  | timeout : Edge .idle .completed
  | fail {s : AgentStatus} : s.isTerminal = false → Edge s .error

/-- A transition that changes the status follows an edge. -/
theorem edge_transition {s : AgentStatus} {o : Observed} (h : transition s o ≠ s) :
    Edge s (transition s o) := by
  cases s <;> cases o <;> first | exact absurd rfl h | exact .fail rfl | constructor

/-- Every edge is taken by some observation. -/
theorem Edge.exists_observed {s s' : AgentStatus} (h : Edge s s') :
    ∃ o, transition s o = s' := by
  cases h with
  | ready => exact ⟨.ready, rfl⟩
  | skipIdle => exact ⟨.working, rfl⟩
  | task => exact ⟨.working, rfl⟩
  | prompt => exact ⟨.needsInput, rfl⟩
  | turnEnd => exact ⟨.ready, rfl⟩
  | input => exact ⟨.working, rfl⟩
  | dismissed => exact ⟨.ready, rfl⟩
  | done => exact ⟨.finished, rfl⟩
  | timeout => exact ⟨.finished, rfl⟩
  | fail hs => exact ⟨.failed, by cases s <;> first | rfl | cases hs⟩

theorem Edge.ne {s s' : AgentStatus} (h : Edge s s') : s ≠ s' := by
  cases h with
  | fail hs => rintro rfl; cases hs
  | _ => decide

/-- The graph is the transition policy with the observations forgotten. -/
theorem edge_iff {s s' : AgentStatus} : Edge s s' ↔ s ≠ s' ∧ ∃ o, transition s o = s' := by
  constructor
  · intro h
    exact ⟨h.ne, h.exists_observed⟩
  · rintro ⟨hne, o, rfl⟩
    exact edge_transition (Ne.symm hne)

/-- No edge leaves a terminal status. -/
theorem Edge.not_terminal {s s' : AgentStatus} (h : Edge s s') : s.isTerminal = false := by
  cases h with
  | fail hs => exact hs
  | _ => rfl

/-- Nothing is observed out of a terminal status. -/
theorem transition_terminal {s : AgentStatus} (h : s.isTerminal = true) (o : Observed) :
    transition s o = s := by
  cases s <;> first | rfl | cases h

-- ============================================================================
-- The edges hooks own
-- ============================================================================

/-- The changes of status that, with hooks active, only a hook event may
    drive. -/
def hookOwned : AgentStatus → AgentStatus → Bool
  | .running, .idle => true
  | .idle, .running => true
  | .starting, .running => true
  | _, .awaitingInput => true
  | .awaitingInput, .idle => true
  | _, _ => false

end Spectty.Core
