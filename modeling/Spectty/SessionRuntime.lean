/-
  Spectty.SessionRuntime

  The status pipeline of a session: the signal loop.

  The loop's environment is its list of `Tick`s: what the receive gave, what
  reading the state file gave, and the clock.  A list without a disconnect is
  a loop still running; a theorem about every list is about every moment of
  every run.

  `ingestArm`, `quiesceArm` and `eofArm` are the three arms of the loop;
  within an arm, each registry access and each emission is one operation.
-/

import Spectty.Effects
import Spectty.Adapters.AgentRunner
import Spectty.Adapters.Hook

namespace Spectty

open Spectty.Core
open Spectty.Adapters
open Spectty.Lib

/-- The byte cap of the rolling window. -/
def signalWindowBytes : Nat := 8 * 1024

/-- What a receive with timeout gives. -/
inductive Recv where
  | slice (bytes : List UInt8)
  | timeout
  | disconnected
deriving DecidableEq, Repr

/-- The action a receive resolves to. -/
inductive SignalAction where
  | ingest (slice : List UInt8)
  | quiesce
  | eof
deriving DecidableEq, Repr

def signalStep : Recv → SignalAction
  | .slice bytes => .ingest bytes
  | .timeout => .quiesce
  | .disconnected => .eof

/-- One round of the loop: the receive's outcome, the state file's content if
    it could be read, and the clock. -/
structure Tick where
  outcome : Recv
  stateFile : Option String
  now : Timestamp

/-- What the loop carries from round to round. -/
structure SignalState where
  producer : OutputSignalProducer
  lastByteAt : Timestamp
  hookReader : StateFileReader

/-- The state before the first round. -/
def SignalState.start (now : Timestamp) (hookReader : StateFileReader) : SignalState where
  producer := .new signalWindowBytes
  lastByteAt := now
  hookReader := hookReader

section

variable (J : SerdeJson) (runner : AgentRunner) (id : SessionId)

/-- Emit the event of a new status. -/
def announce (status : AgentStatus) : Prog Sys Unit :=
  Sys.emit { sessionId := id, status, quickActions := runner.quickActions status }

/-- Apply an observation, and announce the new status if there is one. -/
def applyAndEmit (source : ObservationSource) (observed : Observed) : Prog Sys Unit := do
  match ← Sys.applyObserved source id observed with
  | none => return ()
  | some status => announce runner id status

/-- Detect and apply: the new status if it changed. -/
def observeAndDiff (signal : OutputSignal) : Prog Sys (Option AgentStatus) :=
  match runner.detectStatus signal with
  | none => return none
  | some observed => Sys.applyObserved .scraping id observed

/-- Poll the state file's reader and drive the event it answers. -/
def emitHookIfPresent (hookReader : StateFileReader) (stateFile : Option String) :
    Prog Sys StateFileReader := do
  let (event, hookReader) := hookReader.poll J stateFile
  match event with
  | none => return hookReader
  | some hookEvent => do
      applyAndEmit runner id .hook (eventToObserved hookEvent)
      return hookReader

/-- Observe a signal and announce a change. -/
def emitOnChange (signal : OutputSignal) : Prog Sys Unit := do
  match ← observeAndDiff runner id signal with
  | none => return ()
  | some status => announce runner id status

/-- The observations only a hook may drive, by the status found. -/
def suppressed : Option AgentStatus → Observed → Bool
  | some .running, .ready => true
  | some .idle, .working => true
  | some .starting, .working => true
  | _, .needsInput => true
  | some .awaitingInput, .ready => true
  | _, _ => false

/-- As `emitOnChange`; with hooks active, the legs hooks own are suppressed by
    the status read before. -/
def emitScrapingGuarded (signal : OutputSignal) (hooksActive : Bool) : Prog Sys Unit :=
  if hooksActive = false then emitOnChange runner id signal
  else
    match runner.detectStatus signal with
    | none => return ()
    | some observed => do
        let session ← Sys.getSession id
        if suppressed (session.map (·.status)) observed then return ()
        else applyAndEmit runner id .scraping observed

/-- A slice arrived. -/
def ingestArm (hooksActive : Bool) (st : SignalState) (tick : Tick) (slice : List UInt8) :
    Prog Sys SignalState := do
  let hookReader ← emitHookIfPresent J runner id st.hookReader tick.stateFile
  let producer := st.producer.ingest slice
  let lastByteAt := tick.now
  emitScrapingGuarded runner id (producer.snapshot lastByteAt 0 true) hooksActive
  return { producer, lastByteAt, hookReader }

/-- The terminal was quiet. -/
def quiesceArm (hooksActive : Bool) (st : SignalState) (tick : Tick) : Prog Sys SignalState := do
  let hookReader ← emitHookIfPresent J runner id st.hookReader tick.stateFile
  let idleMs := Timestamp.elapsedMsUntil st.lastByteAt tick.now
  emitScrapingGuarded runner id (st.producer.snapshot st.lastByteAt idleMs false) hooksActive
  return { st with hookReader }

/-- The channel closed: a quiescent observation, then the exit code. -/
def eofArm (exitCodeOnEof : Int) (st : SignalState) (tick : Tick) : Prog Sys Unit := do
  let now := tick.now
  let idleMs := Timestamp.elapsedMsUntil st.lastByteAt now
  emitOnChange runner id (st.producer.snapshot st.lastByteAt idleMs false)
  let producer := st.producer.markExit exitCodeOnEof
  emitOnChange runner id (producer.snapshot now idleMs false)

/-- The loop, from a carried state, over the rounds of its environment. -/
def signalLoop (hooksActive : Bool) (exitCodeOnEof : Int) : SignalState → List Tick → Prog Sys Unit
  | _, [] => return ()
  | st, tick :: ticks =>
      match signalStep tick.outcome with
      | .ingest slice => do
          let st ← ingestArm J runner id hooksActive st tick slice
          signalLoop hooksActive exitCodeOnEof st ticks
      | .quiesce => do
          let st ← quiesceArm J runner id hooksActive st tick
          signalLoop hooksActive exitCodeOnEof st ticks
      | .eof => eofArm runner id exitCodeOnEof st tick

/-- The signal thread. -/
def runSignalLoop (hooksActive : Bool) (exitCodeOnEof : Int) (hookReader : StateFileReader)
    (startedAt : Timestamp) (ticks : List Tick) : Prog Sys Unit :=
  signalLoop J runner id hooksActive exitCodeOnEof (.start startedAt hookReader) ticks

/-- The observation of a signal goes through `applyAndEmit`. -/
theorem emitOnChange_eq (signal : OutputSignal) :
    emitOnChange runner id signal =
      match runner.detectStatus signal with
      | none => .ret ()
      | some observed => applyAndEmit runner id .scraping observed := by
  unfold emitOnChange observeAndDiff
  cases runner.detectStatus signal with
  | none => rfl
  | some observed =>
      rfl

end

end Spectty
