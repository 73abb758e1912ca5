/-
  Spectty.Status.Terminal

  The end of the output, for the built-in runners.

  On EOF the loop observes a quiescent signal and then the exit code.  The
  first observation is meant to leave the statuses from which the second
  cannot reach its terminal one.  It does not when it is `NeedsInput` (a
  dialog still in the window) or `Finished` (a generic session idle for its
  whole timeout): `terminal_at_eof` says exactly when the outcome is reached.
-/

import Spectty.Status.Rounds
import Spectty.Lib.JsonText

namespace Spectty.Status

open Spectty.Core
open Spectty.Adapters
open Spectty.Lib

-- ============================================================================
-- Observations and the stored status
-- ============================================================================

/-- The status a signal moves `s` to. -/
def observeFrom (runner : AgentRunner) (signal : OutputSignal) (s : AgentStatus) : AgentStatus :=
  (runner.detectStatus signal).elim s (transition s)

section

variable {J : SerdeJson} {runner : AgentRunner} {id : SessionId} {f : World.Faults} {w : World}
  {s : AgentStatus}

theorem status_applyAndEmit {source : ObservationSource} {observed : Observed}
    (h : w.status id = some s) :
    (Prog.interp (World.handler f) (applyAndEmit runner id source observed) w).2.status id =
      some (transition s observed) := by
  have hmoved := SessionRegistry.status_applyObserved (o := observed) h
  unfold applyAndEmit
  rw [Prog.op_bind, Prog.interp_op]
  simp only [World.handler, Prog.ret_bind]
  cases (w.sessions.applyObserved id observed).1 with
  | none => exact hmoved
  | some status => exact hmoved

theorem status_emitOnChange (signal : OutputSignal) (h : w.status id = some s) :
    (Prog.interp (World.handler f) (emitOnChange runner id signal) w).2.status id =
      some (observeFrom runner signal s) := by
  rw [emitOnChange_eq, observeFrom]
  cases runner.detectStatus signal with
  | none => exact h
  | some observed => exact status_applyAndEmit h

end

-- ============================================================================
-- The built-in runners
-- ============================================================================

/-- The built-in runners. -/
inductive BuiltIn where
  | claudeCode
  | generic (idleTimeoutMs : Nat)
deriving DecidableEq, Repr

def BuiltIn.runner : BuiltIn → AgentRunner
  | .claudeCode => claudeCodeRunner
  | .generic idleTimeoutMs => genericRunner idleTimeoutMs

/-- The terminal status an exit code stands for. -/
def outcome (exitCode : Int) : AgentStatus := if exitCode = 0 then .completed else .error

/-- The quiescent observation, made from status `s` with this window and idle
    time, leaves the outcome within reach of the exit code. -/
def LeavesOutcome (runner : BuiltIn) (exitCode : Int) (s : AgentStatus) (textWindow : String)
    (idleMs : Nat) : Prop :=
  match runner with
  | .claudeCode =>
      exitCode = 0 → s = .idle ∨ ClaudeCodeRunner.showsDialog textWindow = false
  | .generic idleTimeoutMs =>
      idleMs < idleTimeoutMs ∨
        if exitCode = 0 then s = .running ∨ s = .idle else s = .starting ∨ s = .awaitingInput

/-- The exit code is observed whatever the runner. -/
theorem detectStatus_exit (runner : BuiltIn) {signal : OutputSignal} {exitCode : Int}
    (h : signal.exitCode = some exitCode) :
    runner.runner.detectStatus signal = some (if exitCode = 0 then .finished else .failed) := by
  cases runner <;>
    simp only [BuiltIn.runner, claudeCodeRunner, genericRunner, ClaudeCodeRunner.detectStatus,
      GenericRunner.detectStatus, h] <;> split <;> rfl

/-- A quiescent signal before the exit. -/
structure Quiescent (signal : OutputSignal) : Prop where
  inactive : signal.isActive = false
  running : signal.exitCode = none

theorem detectStatus_claude {signal : OutputSignal} (h : Quiescent signal) :
    claudeCodeRunner.detectStatus signal =
      some (if ClaudeCodeRunner.showsDialog signal.textWindow then .needsInput else .ready) := by
  simp only [claudeCodeRunner, ClaudeCodeRunner.detectStatus, h.inactive, h.running]
  split_ifs <;> simp_all

theorem detectStatus_generic {signal : OutputSignal} (idleTimeoutMs : Nat) (h : Quiescent signal) :
    (genericRunner idleTimeoutMs).detectStatus signal =
      some (if signal.idleMs < idleTimeoutMs then .ready else .finished) := by
  simp only [genericRunner, GenericRunner.detectStatus, h.inactive, h.running,
    Bool.false_eq_true, if_false]
  by_cases hidle : signal.idleMs < idleTimeoutMs
  · rw [if_pos hidle, if_neg (by omega)]
  · rw [if_neg hidle, if_pos (by omega)]

-- ============================================================================
-- Two observations
-- ============================================================================

theorem transition_finished_iff {s : AgentStatus} :
    transition s .finished = .completed ↔ s = .running ∨ s = .idle ∨ s = .completed := by
  cases s <;> simp [transition]

theorem transition_failed_iff {s : AgentStatus} :
    transition s .failed = .error ↔ s ≠ .completed := by
  cases s <;> simp [transition]

/-- The exit code takes a status to its outcome. -/
theorem transition_exit_iff {s : AgentStatus} {exitCode : Int} :
    transition s (if exitCode = 0 then .finished else .failed) = outcome exitCode ↔
      if exitCode = 0 then s = .running ∨ s = .idle ∨ s = .completed else s ≠ .completed := by
  unfold outcome
  split_ifs
  · exact transition_finished_iff
  · exact transition_failed_iff

/-- A live status is idle once the agent is observed ready. -/
theorem transition_ready {s : AgentStatus} (hlive : s.isTerminal = false) :
    transition s .ready = .idle := by
  cases s <;> first | rfl | cases hlive

/-- The two observations of the EOF arm reach the outcome from a live status
    exactly if the first leaves it within reach. -/
theorem observeFrom_eof (runner : BuiltIn) {exitCode : Int} {s : AgentStatus}
    (hlive : s.isTerminal = false) {quiescent terminal : OutputSignal} (hq : Quiescent quiescent)
    (hexit : terminal.exitCode = some exitCode) :
    observeFrom runner.runner terminal (observeFrom runner.runner quiescent s) = outcome exitCode ↔
      LeavesOutcome runner exitCode s quiescent.textWindow quiescent.idleMs := by
  rw [observeFrom, detectStatus_exit runner hexit, Option.elim_some, transition_exit_iff,
    observeFrom]
  cases runner with
  | claudeCode =>
      rw [BuiltIn.runner, detectStatus_claude hq, Option.elim_some]
      cases hdialog : ClaudeCodeRunner.showsDialog quiescent.textWindow with
      | false =>
          simp only [Bool.false_eq_true, if_false, transition_ready hlive]
          simp [LeavesOutcome, hdialog]
      | true =>
          -- a dialog keeps every status but `Running`
          rw [if_pos rfl]
          cases s <;> simp_all [transition, LeavesOutcome, AgentStatus.isTerminal]
  | generic idleTimeoutMs =>
      rw [BuiltIn.runner, detectStatus_generic _ hq, Option.elim_some]
      by_cases hidle : quiescent.idleMs < idleTimeoutMs
      · rw [if_pos hidle, transition_ready hlive]
        simp [LeavesOutcome, hidle]
      · -- the timeout completes `Running` and `Idle`, whatever the exit code
        rw [if_neg hidle]
        simp only [LeavesOutcome, hidle, false_or]
        cases s <;> simp_all [transition, AgentStatus.isTerminal]

-- ============================================================================
-- The loop
-- ============================================================================

section

variable (J : SerdeJson) (runner : AgentRunner) (id : SessionId) (hooksActive : Bool)
  (exitCodeOnEof : Int) (hookReader : StateFileReader) (startedAt : Timestamp)

/-- The world after the loop, run alone. -/
def afterLoop (ticks : List Tick) (w : World) : World :=
  (Prog.interp (World.handler World.noFaults)
    (runSignalLoop J runner id hooksActive exitCodeOnEof hookReader startedAt ticks) w).2

/-- The quiescent signal the EOF arm observes first. -/
def eofSignal (ticks : List Tick) (eof : Tick) : OutputSignal :=
  SignalState.signal (SignalState.after J (.start startedAt hookReader) ticks) eof

variable {J runner id hooksActive exitCodeOnEof hookReader startedAt}

/-- Before the end no exit code is known. -/
theorem exitCode_after (ticks : List Tick) (st : SignalState) :
    (SignalState.after J st ticks).producer.exitCode = st.producer.exitCode := by
  induction ticks generalizing st with
  | nil => rfl
  | cons tick ticks ih =>
      rw [SignalState.after, List.foldl_cons, ← SignalState.after, ih]
      unfold SignalState.next
      cases tick.outcome <;> simp

theorem quiescent_eofSignal (ticks : List Tick) {eof : Tick} (heof : eof.outcome = .disconnected) :
    Quiescent (eofSignal J hookReader startedAt ticks eof) := by
  unfold eofSignal SignalState.signal
  rw [heof]
  exact ⟨rfl, exitCode_after ticks _⟩

/-- The EOF arm moves the stored status by its two observations. -/
theorem status_afterLoop {ticks : List Tick} {eof : Tick} {w : World} {s : AgentStatus}
    (hticks : ∀ tick ∈ ticks, tick.outcome ≠ .disconnected) (heof : eof.outcome = .disconnected)
    (hclose : (afterLoop J runner id hooksActive exitCodeOnEof hookReader startedAt ticks
      w).status id = some s) :
    ∃ terminal : OutputSignal, terminal.exitCode = some exitCodeOnEof ∧
      (afterLoop J runner id hooksActive exitCodeOnEof hookReader startedAt (ticks ++ [eof])
        w).status id =
        some (observeFrom runner terminal
          (observeFrom runner (eofSignal J hookReader startedAt ticks eof) s)) := by
  refine ⟨SignalState.exitSignal (SignalState.after J (.start startedAt hookReader) ticks)
    exitCodeOnEof eof, rfl, ?_⟩
  unfold afterLoop runSignalLoop at hclose ⊢
  rw [signalLoop_append hticks, signalLoop_eof heof, Prog.interp_bind, Prog.interp_bind]
  exact status_emitOnChange _ (status_emitOnChange _ hclose)

/-- At the end of the output of a live session, a built-in runner takes it to
    the outcome of its exit code exactly if the quiescent observation leaves
    that within reach. -/
theorem terminal_at_eof (runner : BuiltIn) {ticks : List Tick} {eof : Tick} {w : World}
    {s : AgentStatus} (hticks : ∀ tick ∈ ticks, tick.outcome ≠ .disconnected)
    (heof : eof.outcome = .disconnected)
    (hclose : (afterLoop J runner.runner id hooksActive exitCodeOnEof hookReader startedAt ticks
      w).status id = some s)
    (hlive : s.isTerminal = false) :
    (afterLoop J runner.runner id hooksActive exitCodeOnEof hookReader startedAt (ticks ++ [eof])
      w).status id = some (outcome exitCodeOnEof) ↔
    LeavesOutcome runner exitCodeOnEof s (eofSignal J hookReader startedAt ticks eof).textWindow
      (eofSignal J hookReader startedAt ticks eof).idleMs := by
  obtain ⟨terminal, hexit, hstatus⟩ := status_afterLoop hticks heof hclose
  rw [hstatus, Option.some.injEq]
  exact observeFrom_eof runner hlive (quiescent_eofSignal ticks heof) hexit

end

-- ============================================================================
-- A dialog left in the window
-- ============================================================================

/-- The bytes of `(y/n)`. -/
def dialogTick : Tick where
  outcome := .slice [0x28, 0x79, 0x2F, 0x6E, 0x29]
  stateFile := none
  now := 1

def eofTick : Tick where
  outcome := .disconnected
  stateFile := none
  now := 2

/-- A running session under Claude Code with hooks, after these rounds. -/
def dialogLoop (exitCode : Int) (ticks : List Tick) : Option AgentStatus :=
  (afterLoop .compact claudeCodeRunner "1" true exitCode (.new "/run" "1") 0 ticks
    (.ofSession ⟨"1", "", ⟨"claude-code", none, .cooperative⟩, .running, "", 0⟩)).status "1"

/-- The window after those bytes. -/
theorem dialogWindow : String.ofList (fromUtf8Lossy [0x28, 0x79, 0x2F, 0x6E, 0x29]) = "(y/n)" := by
  rw [fromUtf8Lossy_ascii (by simp)]
  rfl

theorem detectStatus_dialogTick :
    claudeCodeRunner.detectStatus (SignalState.signal (.start 0 (.new "/run" "1")) dialogTick) =
      some .needsInput := by
  have hexit : (SignalState.signal (.start 0 (.new "/run" "1")) dialogTick).exitCode = none := rfl
  have hwindow : (SignalState.signal (.start 0 (.new "/run" "1")) dialogTick).textWindow =
      "(y/n)" := dialogWindow
  simp only [claudeCodeRunner, ClaudeCodeRunner.detectStatus, hwindow, hexit]
  decide

/-- While the output is open, the hooks keep the session running. -/
theorem dialogLoop_running (exitCode : Int) : dialogLoop exitCode [dialogTick] = some .running := by
  unfold dialogLoop afterLoop runSignalLoop
  rw [signalLoop_cons (by decide), signalRound, emitScrapingGuarded, detectStatus_dialogTick]
  rfl

/-- A non-zero exit is an error even then. -/
theorem terminal_at_eof_dialog : dialogLoop 1 ([dialogTick] ++ [eofTick]) = some .error :=
  (terminal_at_eof .claudeCode (by decide) rfl (dialogLoop_running 1) rfl).mpr
    fun hzero => absurd hzero (by decide)

/-- A zero exit leaves the session awaiting input. -/
theorem outcome_missed_on_dialog :
    dialogLoop 0 [dialogTick] = some .running ∧
      dialogLoop 0 ([dialogTick] ++ [eofTick]) = some .awaitingInput := by
  refine ⟨dialogLoop_running 0, ?_⟩
  obtain ⟨terminal, hexit, hstatus⟩ :=
    status_afterLoop (by decide) (rfl : eofTick.outcome = .disconnected) (dialogLoop_running 0)
  have hdialog : ClaudeCodeRunner.showsDialog
      (eofSignal .compact (.new "/run" "1") 0 [dialogTick] eofTick).textWindow = true := by
    have hwindow : (eofSignal .compact (.new "/run" "1") 0 [dialogTick] eofTick).textWindow =
        "(y/n)" := dialogWindow
    rw [hwindow]
    decide
  have hfirst : observeFrom claudeCodeRunner
      (eofSignal .compact (.new "/run" "1") 0 [dialogTick] eofTick) .running = .awaitingInput := by
    rw [observeFrom, detectStatus_claude (quiescent_eofSignal _ rfl), hdialog]
    rfl
  rw [dialogLoop, hstatus, hfirst, observeFrom,
    show claudeCodeRunner = BuiltIn.claudeCode.runner from rfl, detectStatus_exit _ hexit]
  rfl

end Spectty.Status
