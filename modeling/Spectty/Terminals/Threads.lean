/-
  Spectty.Terminals.Threads

  The threads of a terminal, and the way of its output to the screen: the read thread
  tees what it reads to the forwarder and, in an agent session, to the signal thread;
  the forwarder batches and sends over the output channel; the UI's channel
  hands on to the terminal that is mounted.

  A step is one of any of them, in any order.  `output_law` says what the terminals get,
  `signal_law` what the signal loop gets, `returns_after` that the read thread returns
  once it leaves its loop, with the other two, and `reads_after_shutdown` that
  a shutdown ends the loop.
-/

import Spectty.Commands.Pty
import Spectty.Output.Dropped
import Spectty.Ui.OutputChannel

namespace Spectty.Terminals

open Spectty.Adapters
open Spectty.Commands
open Spectty.Lib
open Spectty.Output (signalChannelCap signalTrySend survivors Teed)
open Spectty.Ui (BufferedOutputChannel Write byteNumbers)
open Spectty.Ui.BufferedOutputChannel (bytesOf)

/-- What a read of the terminal gives; no bytes are the end of its output. -/
inductive ReadOutcome where
  | data (bytes : List UInt8)
  | interrupted
  | failed
deriving DecidableEq, Repr

/-- The threads that a terminal has: the two of `spawn_read_thread`, or the three of
    `spawn_session_threads`. -/
inductive ThreadKind where
  | raw
  | session
deriving DecidableEq, Repr

/-- Where the read thread is: about to look at the stop flag, in a read, past its loop
    with the senders dropped, or returned. -/
inductive ReadPhase where
  | checking
  | reading
  | joining
  | returned
deriving DecidableEq, Repr

/-- The read thread still holds its senders. -/
def ReadPhase.sending : ReadPhase → Bool
  | checking | reading => true
  | joining | returned => false

/-- The threads, the channels between them, and the UI's end.  `slices` and `refused`
    record the slices read and whether the output channel has refused a chunk. -/
structure OutputPath where
  kind : ThreadKind
  stop : Bool
  phase : ReadPhase
  slices : List Teed
  renderQueue : List (List UInt8)
  forwarder : Option Coalescer
  refused : Bool
  ptyExits : Nat
  signalQueue : List (List UInt8)
  signalRunning : Bool
  signalled : List Recv
  inFlight : List (List UInt8)
  channel : BufferedOutputChannel Nat
  mounts : Nat
  written : List (Write Nat)

/-- A step: the shutdown sets the flag, the read thread looks at it, comes back from a
    read or from its joins, the forwarder or the signal thread comes back from a receive,
    or the UI handles the next message or mounts a terminal. -/
inductive PathStep where
  | shutdown
  | check
  | read (outcome : ReadOutcome)
  | join
  | forward (now : Instant) (accepts : Bool)
  | signal
  | message
  | mount
deriving DecidableEq, Repr

def PathStep.isForward : PathStep → Bool
  | .forward _ _ => true
  | _ => false

def PathStep.isSignal : PathStep → Bool
  | .signal => true
  | _ => false

/-- What a receive gives, and what it leaves queued. -/
def receive (sending : Bool) : List (List UInt8) → Recv × List (List UInt8)
  | slice :: queue => (.slice slice, queue)
  | [] => (if sending then .timeout else .disconnected, [])

namespace OutputPath

/-- The threads as they are spawned, and the channel that the UI has created. -/
def spawned (kind : ThreadKind) (maxChunk : Nat) (flushInterval : Duration) (now : Instant) :
    OutputPath where
  kind := kind
  stop := false
  phase := .checking
  slices := []
  renderQueue := []
  forwarder := some (.new maxChunk flushInterval now)
  refused := false
  ptyExits := 0
  signalQueue := []
  signalRunning := match kind with
    | .raw => false
    | .session => true
  signalled := []
  inFlight := []
  channel := .create
  mounts := 0
  written := []

/-- Queue a slice for the forwarder, unless it has gone. -/
def sendRender (self : OutputPath) (slice : List UInt8) : Bool × OutputPath :=
  match self.forwarder with
  | some _ => (true, { self with renderQueue := self.renderQueue ++ [slice] })
  | none => (false, self)

/-- Queue a slice for the signal thread, if it is there and has room. -/
def sendSignal (self : OutputPath) (slice : List UInt8) : Bool × OutputPath :=
  if self.signalRunning then
    let (queued, signalQueue) := signalTrySend signalChannelCap self.signalQueue slice
    (queued, { self with signalQueue })
  else (false, self)

/-- A slice has been read.  Without its forwarder a raw terminal's thread stops; a
    session's goes on for the signal thread. -/
def tee (self : OutputPath) (slice : List UInt8) : OutputPath :=
  match self.kind with
  | .raw =>
      let (sent, self) := self.sendRender slice
      { self with
        slices := self.slices ++ [(slice, false)]
        phase := if sent then .checking else .joining }
  | .session =>
      let (_, self) := self.sendRender slice
      let (queued, self) := self.sendSignal slice
      { self with slices := self.slices ++ [(slice, queued)], phase := .checking }

/-- A read has returned. -/
def afterRead (self : OutputPath) : ReadOutcome → OutputPath
  | .data [] => { self with phase := .joining }
  | .data slice => self.tee slice
  | .interrupted => { self with phase := .checking }
  | .failed => { self with phase := .joining }

/-- The forwarder ends: its receiver goes with what is queued, and the exit is
    announced. -/
def exitForwarder (self : OutputPath) : OutputPath :=
  { self with forwarder := none, renderQueue := [], ptyExits := self.ptyExits + 1 }

/-- Send a chunk over the output channel. -/
def sendChunk (self : OutputPath) (chunk : List UInt8) (accepts : Bool) : OutputPath :=
  if accepts then { self with inFlight := self.inFlight ++ [chunk] }
  else { self with refused := true }

/-- A receive of the forwarder has returned. -/
def afterForward (self : OutputPath) (coalescer : Coalescer) (now : Instant) (accepts : Bool) :
    OutputPath :=
  let (outcome, renderQueue) := receive self.phase.sending self.renderQueue
  let self := { self with renderQueue }
  match forwardStep coalescer outcome now with
  | (.continue (some chunk), coalescer) =>
      if accepts then { self.sendChunk chunk accepts with forwarder := some coalescer }
      else (self.sendChunk chunk accepts).exitForwarder
  | (.continue none, coalescer) => { self with forwarder := some coalescer }
  | (.exit (some chunk), _) => (self.sendChunk chunk accepts).exitForwarder
  | (.exit none, _) => self.exitForwarder

/-- A receive of the signal thread has returned; the loop ends with a disconnect. -/
def afterSignal (self : OutputPath) : OutputPath :=
  let (outcome, signalQueue) := receive self.phase.sending self.signalQueue
  { self with
    signalQueue
    signalled := self.signalled ++ [outcome]
    signalRunning := decide (outcome ≠ .disconnected) }

/-- Some writes reach their terminals. -/
def write (self : OutputPath) (result : List (Write Nat) × BufferedOutputChannel Nat) :
    OutputPath :=
  { self with channel := result.2, written := self.written ++ result.1 }

/-- One step; a step of a thread that is elsewhere does nothing. -/
def step (self : OutputPath) : PathStep → OutputPath
  | .shutdown => { self with stop := true }
  | .check =>
      if self.phase = .checking then
        { self with phase := if self.stop then .joining else .reading }
      else self
  | .read outcome => if self.phase = .reading then self.afterRead outcome else self
  | .join =>
      if self.phase = .joining ∧ self.forwarder = none ∧ self.signalRunning = false then
        { self with phase := .returned }
      else self
  | .forward now accepts =>
      match self.forwarder with
      | some coalescer => self.afterForward coalescer now accepts
      | none => self
  | .signal => if self.signalRunning then self.afterSignal else self
  | .message =>
      match self.inFlight with
      | [] => self
      | chunk :: inFlight =>
          { self with inFlight }.write (self.channel.onMessage (.array (byteNumbers chunk)))
  | .mount =>
      { self with mounts := self.mounts + 1 }.write (self.channel.drainTo self.mounts)

/-- The bytes of the slices read. -/
def bytesRead (self : OutputPath) : List UInt8 := (self.slices.map Prod.fst).flatten

/-- The bytes written to terminals. -/
def bytesWritten (self : OutputPath) : List UInt8 := bytesOf self.written

/-- The bytes on their way, from the screen back to the read thread. -/
def underway (self : OutputPath) : List UInt8 :=
  self.channel.buffer.flatten ++ self.inFlight.flatten ++
    ((self.forwarder.map Coalescer.buf).getD [] ++ self.renderQueue.flatten)

-- ============================================================================
-- What a step does
-- ============================================================================

variable {self : OutputPath} {coalescer : Coalescer} {now : Instant} {accepts : Bool}
  {slice : List UInt8}

/-- What a receive of the forwarder leads to: it goes on with the rest of the queue, it
    ends because a chunk is refused, or it ends with everything handed over. -/
inductive Forwarded (self : OutputPath) (coalescer : Coalescer) : OutputPath → Prop where
  | continues (chunk : Option (List UInt8)) (coalescer' : Coalescer) :
      coalescer.buf ++ self.renderQueue.head?.getD [] = chunk.getD [] ++ coalescer'.buf →
      (self.renderQueue = [] → self.phase.sending = true) →
      Forwarded self coalescer
        { self with
          renderQueue := self.renderQueue.tail
          forwarder := some coalescer'
          inFlight := self.inFlight ++ chunk.toList }
  | refused : Forwarded self coalescer { self with refused := true }.exitForwarder
  | drained (chunk : Option (List UInt8)) : self.renderQueue = [] → self.phase.sending = false →
      coalescer.buf = chunk.getD [] →
      Forwarded self coalescer
        { self with inFlight := self.inFlight ++ chunk.toList }.exitForwarder

/-- A receive that finds a slice, or times out. -/
theorem forwarded_continue (outcome : Recv) (houtcome : outcome ≠ .disconnected)
    (hreceive : receive self.phase.sending self.renderQueue =
      (outcome, self.renderQueue.tail))
    (hdata : (Round.call ⟨outcome, now, accepts⟩).data = self.renderQueue.head?.getD [])
    (hsending : self.renderQueue = [] → self.phase.sending = true) :
    Forwarded self coalescer (self.afterForward coalescer now accepts) := by
  have hstep := @forwardStep_continue coalescer ⟨outcome, now, accepts⟩ houtcome
  have hbytes := Coalescer.conserves coalescer (Round.call ⟨outcome, now, accepts⟩)
  rw [hdata] at hbytes
  unfold afterForward
  rw [hreceive]
  show Forwarded self coalescer (match forwardStep coalescer outcome now with
    | (.continue (some chunk), coalescer) => _
    | (.continue none, coalescer) => _
    | (.exit (some chunk), _) => _
    | (.exit none, _) => _)
  rw [hstep]
  cases hchunk : ((Round.call ⟨outcome, now, accepts⟩).run coalescer).1 with
  | none =>
      rw [hchunk] at hbytes
      have hcontinues := Forwarded.continues none _ hbytes hsending
      rwa [Option.toList_none, List.append_nil] at hcontinues
  | some chunk =>
      rw [hchunk] at hbytes
      cases accepts with
      | true => exact .continues (some chunk) _ hbytes hsending
      | false => exact .refused

theorem forwarded (self : OutputPath) (coalescer : Coalescer) (now : Instant) (accepts : Bool) :
    Forwarded self coalescer (self.afterForward coalescer now accepts) := by
  cases hqueue : self.renderQueue with
  | cons slice queue =>
      apply forwarded_continue (.slice slice) (by simp)
      · rw [hqueue]
        rfl
      · rw [hqueue]
        rfl
      · simp [hqueue]
  | nil =>
      cases hsending : self.phase.sending with
      | true =>
          apply forwarded_continue .timeout (by simp)
          · rw [hqueue, hsending]
            rfl
          · rw [hqueue]
            rfl
          · exact fun _ => hsending
      | false =>
          have hempty : ({ self with renderQueue := [] } : OutputPath) = self := by rw [← hqueue]
          unfold afterForward
          rw [hqueue, hsending]
          show Forwarded self coalescer (match forwardStep coalescer .disconnected now with
            | (.continue (some chunk), coalescer) => _
            | (.continue none, coalescer) => _
            | (.exit (some chunk), _) => _
            | (.exit none, _) => _)
          rw [forwardStep_disconnected]
          by_cases hbuf : coalescer.buf = []
          · have hdrained := Forwarded.drained none hqueue hsending hbuf
            rw [Option.toList_none, List.append_nil] at hdrained
            rw [Coalescer.drainAll_of_nil hbuf]
            exact hdrained
          · rw [Coalescer.drainAll_of_ne hbuf]
            cases accepts with
            | true => exact .drained (some coalescer.buf) hqueue hsending rfl
            | false => exact .refused

/-- What a step can do: nothing, set the flag, move the read thread within or out of its
    loop, tee a slice, return from the joins, one receive of another thread, or one turn of
    the UI. -/
inductive Stepped (self : OutputPath) : OutputPath → Prop where
  | idle : Stepped self self
  | flagged : Stepped self { self with stop := true }
  | moved (phase : ReadPhase) : self.phase.sending = true → phase ≠ .returned →
      Stepped self { self with phase }
  | teed (slice : List UInt8) : self.phase = .reading → Stepped self (self.tee slice)
  | returned : self.phase = .joining → self.forwarder = none → self.signalRunning = false →
      Stepped self { self with phase := .returned }
  | forwarded (coalescer : Coalescer) (self' : OutputPath) : self.forwarder = some coalescer →
      Forwarded self coalescer self' → Stepped self self'
  | signalled : self.signalRunning = true → Stepped self self.afterSignal
  | shown (chunk : List UInt8) (inFlight : List (List UInt8)) : self.inFlight = chunk :: inFlight →
      Stepped self ({ self with inFlight }.write (self.channel.deliver chunk))
  | mounted : Stepped self
      ({ self with mounts := self.mounts + 1 }.write (self.channel.drainTo self.mounts))

theorem stepped (self : OutputPath) (s : PathStep) : Stepped self (self.step s) := by
  cases s with
  | shutdown => exact .flagged
  | check =>
      rw [step]
      split_ifs with hphase hstop
      · exact .moved .joining (by rw [hphase]; rfl) (by simp)
      · exact .moved .reading (by rw [hphase]; rfl) (by simp)
      · exact .idle
  | read outcome =>
      rw [step]
      split_ifs with hphase
      · have hsending : self.phase.sending = true := by rw [hphase]; rfl
        rcases outcome with (- | ⟨byte, bytes⟩) | - | -
        · exact .moved .joining hsending (by simp)
        · exact .teed (byte :: bytes) hphase
        · exact .moved .checking hsending (by simp)
        · exact .moved .joining hsending (by simp)
      · exact .idle
  | join =>
      rw [step]
      split_ifs with hjoin
      · exact .returned hjoin.1 hjoin.2.1 hjoin.2.2
      · exact .idle
  | forward now accepts =>
      rw [step]
      cases hforwarder : self.forwarder with
      | none => exact .idle
      | some coalescer =>
          exact .forwarded coalescer _ hforwarder (forwarded self coalescer now accepts)
  | signal =>
      rw [step]
      split_ifs with hrunning
      · exact .signalled hrunning
      · exact .idle
  | message =>
      rw [step]
      cases hinFlight : self.inFlight with
      | nil => exact .idle
      | cons chunk inFlight =>
          have hmessage : self.channel.onMessage (.array (byteNumbers chunk)) =
              self.channel.deliver chunk := by
            rw [BufferedOutputChannel.onMessage, Ui.decode_byteNumbers]
          show Stepped self ({ self with inFlight }.write (self.channel.onMessage _))
          rw [hmessage]
          exact .shown chunk inFlight hinFlight
  | mount => exact .mounted

theorem sendRender_eq (self : OutputPath) (slice : List UInt8) :
    self.sendRender slice = (self.forwarder.isSome,
      { self with
        renderQueue := self.renderQueue ++ if self.forwarder.isSome then [slice] else [] }) := by
  unfold sendRender
  cases hforwarder : self.forwarder with
  | none =>
      simp only [Option.isSome_none, Bool.false_eq_true, if_false, List.append_nil]
      rw [← hforwarder]
  | some coalescer =>
      simp only [Option.isSome_some, if_true]

/-- The signal thread is there and its channel has room. -/
def hasRoom (self : OutputPath) : Bool :=
  self.signalRunning && decide (self.signalQueue.length < signalChannelCap)

theorem sendSignal_eq (self : OutputPath) (slice : List UInt8) :
    self.sendSignal slice = (self.hasRoom,
      { self with signalQueue := self.signalQueue ++ if self.hasRoom then [slice] else [] }) := by
  unfold sendSignal signalTrySend
  by_cases hrunning : self.signalRunning = true
  · have hroom : self.hasRoom = decide (self.signalQueue.length < signalChannelCap) := by
      rw [hasRoom, hrunning, Bool.true_and]
    rw [if_pos hrunning, hroom]
    by_cases hlen : self.signalQueue.length < signalChannelCap
    · simp only [hlen, if_true, decide_true]
    · simp only [hlen, if_false, decide_false, Bool.false_eq_true, List.append_nil]
  · have hroom : self.hasRoom = false := by simp [hasRoom, hrunning]
    rw [if_neg hrunning, hroom]
    simp only [Bool.false_eq_true, if_false, List.append_nil]

/-- The slice is recorded, and queued for the forwarder if that is still there. -/
theorem tee_render (self : OutputPath) (slice : List UInt8) :
    (self.tee slice).bytesRead = self.bytesRead ++ slice ∧
      (self.tee slice).renderQueue =
        self.renderQueue ++ (if self.forwarder.isSome then [slice] else []) ∧
      ((self.tee slice).phase = .checking ∨
        (self.tee slice).phase = .joining ∧ self.forwarder = none) := by
  unfold tee bytesRead
  rw [sendRender_eq]
  cases self.kind with
  | raw => cases self.forwarder <;> simp
  | session => simp [sendSignal_eq]

/-- A tee leaves the forwarder, the UI and the signal thread as they are. -/
theorem tee_frame (self : OutputPath) (slice : List UInt8) :
    (self.tee slice).forwarder = self.forwarder ∧ (self.tee slice).refused = self.refused ∧
      (self.tee slice).ptyExits = self.ptyExits ∧ (self.tee slice).inFlight = self.inFlight ∧
      (self.tee slice).channel = self.channel ∧ (self.tee slice).written = self.written ∧
      (self.tee slice).signalRunning = self.signalRunning := by
  unfold tee
  rw [sendRender_eq]
  cases self.kind with
  | raw => simp
  | session => simp [sendSignal_eq]

-- ============================================================================
-- How the threads end
-- ============================================================================

/-- The exit is announced once, when the forwarder goes; it goes with a chunk refused, or
    with the read thread past its loop; the read thread returns after the others. -/
structure Ending (path : OutputPath) : Prop where
  exits : path.ptyExits = if path.forwarder.isSome then 0 else 1
  gone : path.forwarder = none →
    path.renderQueue = [] ∧ (path.refused = true ∨ path.phase.sending = false)
  returned : path.phase = .returned → path.forwarder = none ∧ path.signalRunning = false

theorem ending_stepped {self' : OutputPath} (h : Stepped self self') (hending : Ending self) :
    Ending self' := by
  obtain ⟨hexits, hgone, hreturned⟩ := hending
  cases h with
  | idle => exact ⟨hexits, hgone, hreturned⟩
  | flagged => exact ⟨hexits, hgone, hreturned⟩
  | moved phase hsending hphase =>
      refine ⟨hexits, fun hnone => ?_, fun h => absurd h hphase⟩
      obtain ⟨hqueue, hrefused⟩ := hgone hnone
      exact ⟨hqueue, .inl (hrefused.resolve_right (by simp [hsending]))⟩
  | teed slice hphase =>
      obtain ⟨-, hqueue, htee⟩ := tee_render self slice
      obtain ⟨hforwarder, hrefused, hptyExits, -, -, -, -⟩ := tee_frame self slice
      refine ⟨by rw [hptyExits, hforwarder, hexits], fun hnone => ?_, fun h => ?_⟩
      · rw [hforwarder] at hnone
        obtain ⟨hempty, hwhy⟩ := hgone hnone
        refine ⟨by simp [hqueue, hempty, hnone], ?_⟩
        rw [hrefused]
        exact .inl (hwhy.resolve_right (by simp [hphase, ReadPhase.sending]))
      · rcases htee with htee | ⟨htee, -⟩ <;> rw [htee] at h <;> cases h
  | returned hphase hforwarder hrunning =>
      refine ⟨hexits, fun hnone => ⟨(hgone hnone).1, .inr rfl⟩, fun _ => ⟨hforwarder, hrunning⟩⟩
  | forwarded coalescer self' hforwarder hforwarded =>
      have hzero : self.ptyExits = 0 := by simpa [hforwarder] using hexits
      cases hforwarded with
      | continues chunk coalescer' _ _ =>
          refine ⟨by simpa using hzero, fun h => by simp at h, fun h => ?_⟩
          rw [hforwarder] at hreturned
          exact absurd (hreturned h).1 (by simp)
      | refused =>
          refine ⟨by simp [exitForwarder, hzero], fun _ => ⟨rfl, .inl rfl⟩, fun h => ?_⟩
          exact ⟨rfl, (hreturned h).2⟩
      | drained chunk hqueue hsending _ =>
          refine ⟨by simp [exitForwarder, hzero], fun _ => ⟨rfl, .inr hsending⟩, fun h => ?_⟩
          exact ⟨rfl, (hreturned h).2⟩
  | signalled hrunning =>
      refine ⟨hexits, hgone, fun h => ?_⟩
      exact absurd (hreturned h).2 (by simp [hrunning])
  | shown chunk inFlight hinFlight => exact ⟨hexits, hgone, hreturned⟩
  | mounted => exact ⟨hexits, hgone, hreturned⟩

/-- The threads and the UI after some steps. -/
abbrev after (kind : ThreadKind) (maxChunk : Nat) (flushInterval : Duration) (start : Instant)
    (steps : List PathStep) : OutputPath :=
  Machine.run step (spawned kind maxChunk flushInterval start) steps

/-- What every step keeps holds of every run. -/
theorem invariant_after {I : OutputPath → Prop} {kind : ThreadKind} {maxChunk : Nat}
    {flushInterval : Duration} {start : Instant}
    (h0 : I (spawned kind maxChunk flushInterval start))
    (hstep : ∀ self self', Stepped self self' → I self → I self') (steps : List PathStep) :
    I (after kind maxChunk flushInterval start steps) := by
  have halong : Machine.Along step (fun _ _ => True) (spawned kind maxChunk flushInterval start)
      steps := fun _ _ _ _ => trivial
  exact Machine.invariant (I := fun _ => I) h0
    (fun cs c _ hI => hstep _ _ (stepped _ c) hI) halong

theorem ending_after (kind : ThreadKind) (maxChunk : Nat) (flushInterval : Duration)
    (start : Instant) (steps : List PathStep) :
    Ending (after kind maxChunk flushInterval start steps) := by
  refine invariant_after ⟨rfl, fun h => ?_, fun h => ?_⟩ (fun _ _ => ending_stepped) steps
  · exact absurd h (Option.some_ne_none _)
  · cases h

-- ============================================================================
-- What the terminals get
-- ============================================================================

/-- Every byte read is written, underway or lost, in this order; bytes are lost only
    once the output channel has refused a chunk. -/
def Accounted (self : OutputPath) : Prop :=
  ∃ lost, self.bytesRead = self.bytesWritten ++ (self.underway ++ lost) ∧
    (lost ≠ [] → self.refused = true ∧ self.forwarder = none)

theorem accounted_stepped {self' : OutputPath} (h : Stepped self self') (hending : Ending self)
    (haccounted : Accounted self) : Accounted self' := by
  obtain ⟨lost, hbytes, hlost⟩ := haccounted
  cases h with
  | idle => exact ⟨lost, hbytes, hlost⟩
  | flagged => exact ⟨lost, hbytes, hlost⟩
  | moved phase hsending hphase => exact ⟨lost, hbytes, hlost⟩
  | teed slice hphase =>
      obtain ⟨hread, hqueue, -⟩ := tee_render self slice
      obtain ⟨hforwarder, hrefused, -, hinFlight, hchannel, hwritten, -⟩ := tee_frame self slice
      have hsame : (self.tee slice).bytesWritten = self.bytesWritten := by
        rw [bytesWritten, hwritten, bytesWritten]
      have hunderway : (self.tee slice).underway =
          self.underway ++ if self.forwarder.isSome then slice else [] := by
        unfold underway
        rw [hforwarder, hinFlight, hchannel, hqueue]
        cases self.forwarder <;> simp
      unfold Accounted
      rw [hread, hbytes, hsame, hunderway, hforwarder, hrefused]
      cases hgone : self.forwarder with
      | none =>
          have hwhy := (hending.gone hgone).2
          refine ⟨lost ++ slice, by simp, fun _ => ⟨?_, rfl⟩⟩
          exact hwhy.resolve_right (by simp [hphase, ReadPhase.sending])
      | some coalescer =>
          have hnone : lost = [] := by
            by_contra hne
            exact absurd (hlost hne).2 (by simp [hgone])
          exact ⟨[], by simp [hnone], fun h => absurd rfl h⟩
  | returned hphase hforwarder hrunning => exact ⟨lost, hbytes, hlost⟩
  | forwarded coalescer self' hforwarder hforwarded =>
      have hnone : lost = [] := by
        by_contra hne
        exact absurd (hlost hne).2 (by simp [hforwarder])
      subst hnone
      have hheld : self.underway = self.channel.buffer.flatten ++ self.inFlight.flatten ++
          (coalescer.buf ++ self.renderQueue.flatten) := by simp [underway, hforwarder]
      rw [hheld] at hbytes
      cases hforwarded with
      | continues chunk coalescer' hbuf _ =>
          refine ⟨[], ?_, fun h => absurd rfl h⟩
          have hqueue : self.renderQueue.flatten =
              self.renderQueue.head?.getD [] ++ self.renderQueue.tail.flatten := by
            cases self.renderQueue <;> simp
          have hchunk : chunk.toList.flatten = chunk.getD [] := by cases chunk <;> simp
          rw [hqueue, ← List.append_assoc coalescer.buf, hbuf] at hbytes
          show self.bytesRead = self.bytesWritten ++ _
          rw [hbytes]
          simp [underway, hchunk]
      | refused =>
          refine ⟨coalescer.buf ++ self.renderQueue.flatten, ?_, fun _ => ⟨rfl, rfl⟩⟩
          show self.bytesRead = self.bytesWritten ++ _
          rw [hbytes]
          simp [underway, exitForwarder]
      | drained chunk hqueue _ hbuf =>
          refine ⟨[], ?_, fun h => absurd rfl h⟩
          have hchunk : chunk.toList.flatten = chunk.getD [] := by cases chunk <;> simp
          show self.bytesRead = self.bytesWritten ++ _
          rw [hbytes, hqueue, hbuf]
          simp [underway, exitForwarder, hchunk]
  | signalled hrunning => exact ⟨lost, hbytes, hlost⟩
  | shown chunk inFlight hinFlight =>
      refine ⟨lost, ?_, hlost⟩
      have hdeliver := self.channel.deliver_conserves chunk
      have hhead : self.channel.buffer.flatten ++ self.inFlight.flatten =
          bytesOf (self.channel.deliver chunk).1 ++
            ((self.channel.deliver chunk).2.buffer.flatten ++ inFlight.flatten) := by
        rw [hinFlight, List.flatten_cons, ← List.append_assoc, hdeliver, List.append_assoc]
      show self.bytesRead = bytesOf (self.written ++ (self.channel.deliver chunk).1) ++ _
      rw [hbytes, underway, hhead]
      simp [bytesWritten, underway, write]
  | mounted =>
      refine ⟨lost, ?_, hlost⟩
      have hdrain := self.channel.drainTo_conserves self.mounts
      show self.bytesRead = bytesOf (self.written ++ (self.channel.drainTo self.mounts).1) ++ _
      rw [hbytes, underway, hdrain]
      simp [bytesWritten, underway, write]

/-- The channel is wired to the terminal mounted last. -/
def Wired (path : OutputPath) : Prop :=
  path.channel.sink = if path.mounts = 0 then none else some (path.mounts - 1)

/-- What is written between two states goes to the terminal mounted last. -/
def WritesNewest (path path' : OutputPath) : Prop :=
  ∃ writes, path'.written = path.written ++ writes ∧ ∀ w ∈ writes, w.1 + 1 = path'.mounts

/-- Nothing is written where the log of the writes stays as it is. -/
theorem writesNewest_of_written {self' : OutputPath} (h : self'.written = self.written) :
    WritesNewest self self' :=
  ⟨[], by rw [h, List.append_nil], fun w hw => absurd hw List.not_mem_nil⟩

theorem tee_mounts (self : OutputPath) (slice : List UInt8) :
    (self.tee slice).mounts = self.mounts := by
  unfold tee
  rw [sendRender_eq]
  cases self.kind with
  | raw => rfl
  | session => simp [sendSignal_eq]

/-- A step keeps the channel wired to the newest terminal, and writes to no other. -/
theorem wired_stepped {self' : OutputPath} (h : Stepped self self') (hwired : Wired self) :
    Wired self' ∧ WritesNewest self self' := by
  cases h with
  | idle => exact ⟨hwired, writesNewest_of_written rfl⟩
  | flagged => exact ⟨hwired, writesNewest_of_written rfl⟩
  | moved phase _ _ => exact ⟨hwired, writesNewest_of_written rfl⟩
  | teed slice _ =>
      obtain ⟨-, -, -, -, hchannel, hwritten, -⟩ := tee_frame self slice
      refine ⟨?_, writesNewest_of_written hwritten⟩
      rw [Wired, hchannel, tee_mounts]
      exact hwired
  | returned _ _ _ => exact ⟨hwired, writesNewest_of_written rfl⟩
  | forwarded coalescer self' _ hforwarded =>
      cases hforwarded <;> exact ⟨hwired, writesNewest_of_written rfl⟩
  | signalled _ => exact ⟨hwired, writesNewest_of_written rfl⟩
  | shown chunk inFlight _ =>
      refine ⟨?_, (self.channel.deliver chunk).1, rfl, ?_⟩
      · show (self.channel.deliver chunk).2.sink = _
        rw [BufferedOutputChannel.sink_deliver]
        exact hwired
      · intro w hw
        by_cases hzero : self.mounts = 0
        · have hnone : self.channel.sink = none := by rw [hwired, if_pos hzero]
          rw [(BufferedOutputChannel.deliver_of_none hnone).1] at hw
          exact absurd hw List.not_mem_nil
        · have hsome : self.channel.sink = some (self.mounts - 1) := by rw [hwired, if_neg hzero]
          rw [BufferedOutputChannel.deliver_of_some hsome] at hw
          obtain rfl := List.mem_singleton.mp hw
          show self.mounts - 1 + 1 = self.mounts
          omega
  | mounted =>
      refine ⟨?_, (self.channel.drainTo self.mounts).1, rfl, ?_⟩
      · show some self.mounts = if self.mounts + 1 = 0 then none else some (self.mounts + 1 - 1)
        simp
      · intro w hw
        obtain ⟨chunk, -, rfl⟩ := List.mem_map.mp hw
        rfl

/-- Only a mount adds a terminal. -/
theorem mounts_of_ne {s : PathStep} (h : s ≠ .mount) : (self.step s).mounts = self.mounts := by
  cases s with
  | shutdown => rfl
  | check =>
      rw [step]
      split_ifs <;> rfl
  | read outcome =>
      rw [step]
      split_ifs
      · rcases outcome with (- | ⟨byte, bytes⟩) | - | - <;> first | rfl | exact tee_mounts _ _
      · rfl
  | join =>
      rw [step]
      split_ifs <;> rfl
  | forward now accepts =>
      rw [step]
      cases self.forwarder with
      | none => rfl
      | some coalescer =>
          have hforwarded := forwarded self coalescer now accepts
          show (self.afterForward coalescer now accepts).mounts = self.mounts
          generalize self.afterForward coalescer now accepts = self' at hforwarded ⊢
          cases hforwarded <;> rfl
  | signal =>
      rw [step]
      split_ifs <;> rfl
  | message =>
      rw [step]
      cases self.inFlight <;> rfl
  | mount => exact absurd rfl h

/-- The terminals are numbered as they are mounted. -/
theorem mounts_step (self : OutputPath) (s : PathStep) :
    (self.step s).mounts = self.mounts + [s].count .mount := by
  by_cases h : s = .mount
  · subst h
    rfl
  · rw [mounts_of_ne h, List.count_eq_zero.mpr fun hmem => h (List.mem_singleton.mp hmem).symm,
      Nat.add_zero]

theorem mounts_run (steps : List PathStep) :
    (Machine.run step self steps).mounts = self.mounts + steps.count .mount := by
  induction steps generalizing self with
  | nil => rfl
  | cons s steps ih =>
      rw [Machine.run_cons, ih, mounts_step, Nat.add_assoc, ← List.count_append,
        List.singleton_append]

/-- In every state of every run, the bytes written to terminals are the beginning of
    the bytes read, and what the next step writes goes to the terminal that is by then
    mounted last; once the read thread has returned, with no chunk refused and none in
    flight, the terminals that were mounted have between them been written every byte. -/
theorem output_law (kind : ThreadKind) (maxChunk : Nat) (flushInterval : Duration)
    (start : Instant) (steps : List PathStep) (s : PathStep) :
    let path := after kind maxChunk flushInterval start steps
    path.bytesWritten <+: path.bytesRead ∧
      (∃ writes, (path.step s).written = path.written ++ writes ∧
        ∀ w ∈ writes, w.1 + 1 = (steps ++ [s]).count .mount) ∧
      (path.phase = .returned → path.refused = false → path.inFlight = [] → .mount ∈ steps →
        path.bytesWritten = path.bytesRead) := by
  intro path
  have hending : Ending path := ending_after kind maxChunk flushInterval start steps
  have hboth : Ending path ∧ Accounted path := by
    refine invariant_after (I := fun self => Ending self ∧ Accounted self) ⟨?_, ?_⟩ ?_ steps
    · exact ending_after kind maxChunk flushInterval start []
    · exact ⟨[], rfl, fun h => absurd rfl h⟩
    · exact fun _ _ h hI => ⟨ending_stepped h hI.1, accounted_stepped h hI.1 hI.2⟩
  have hwired : Wired path :=
    invariant_after (I := Wired) rfl (fun _ _ h hI => (wired_stepped h hI).1) steps
  have hmounts : path.mounts = steps.count .mount := by
    have hrun := @mounts_run (spawned kind maxChunk flushInterval start) steps
    rwa [show (spawned kind maxChunk flushInterval start).mounts = 0 from rfl,
      Nat.zero_add] at hrun
  obtain ⟨lost, hbytes, hlost⟩ := hboth.2
  refine ⟨⟨_, hbytes.symm⟩, ?_, fun hreturned hrefused hinFlight hmount => ?_⟩
  · obtain ⟨writes, hwritten, hnewest⟩ := (wired_stepped (stepped path s) hwired).2
    refine ⟨writes, hwritten, fun w hw => ?_⟩
    rw [hnewest w hw, mounts_step, hmounts, List.count_append]
  · have hforwarder := (hending.returned hreturned).1
    have hnone : lost = [] := by
      by_contra hne
      exact absurd (hlost hne).1 (by simp [hrefused])
    have hpos : path.mounts ≠ 0 := by
      rw [hmounts]
      exact (List.count_pos_iff.mpr hmount).ne'
    have hbuffer : path.channel.buffer = [] :=
      path.channel.wired (by rw [hwired, if_neg hpos]; exact Option.some_ne_none _)
    have hempty : path.underway = [] := by
      simp [underway, hbuffer, hinFlight, hforwarder, (hending.gone hforwarder).1]
    rw [hbytes, hempty, hnone, List.append_nil, List.append_nil]

-- ============================================================================
-- What the signal loop gets
-- ============================================================================

/-- The slices among what some receives gave. -/
def slicesOf (recvs : List Recv) : List (List UInt8) :=
  recvs.filterMap fun
    | .slice bytes => some bytes
    | _ => none

@[simp] theorem slicesOf_append (recvs recvs' : List Recv) :
    slicesOf (recvs ++ recvs') = slicesOf recvs ++ slicesOf recvs' := List.filterMap_append

@[simp] theorem slicesOf_disconnected : slicesOf [.disconnected] = [] := rfl

/-- The signal thread of a session receives the slices that were queued, and ends with
    the one disconnect that follows the last of them. -/
structure Signalling (path : OutputPath) : Prop where
  room : path.signalQueue.length ≤ signalChannelCap
  slices : slicesOf path.signalled ++ path.signalQueue = survivors path.slices
  running : path.signalRunning = true → .disconnected ∉ path.signalled
  ended : path.signalRunning = false → path.signalQueue = [] ∧ path.phase.sending = false ∧
    ∃ recvs, path.signalled = recvs ++ [.disconnected] ∧ .disconnected ∉ recvs

/-- What a receive of the signal thread leads to. -/
theorem afterSignal_cases (self : OutputPath) :
    (∃ slice queue, self.signalQueue = slice :: queue ∧ self.afterSignal =
      { self with
        signalQueue := queue
        signalled := self.signalled ++ [.slice slice]
        signalRunning := true }) ∨
    (self.signalQueue = [] ∧ self.phase.sending = true ∧ self.afterSignal =
      { self with
        signalQueue := []
        signalled := self.signalled ++ [.timeout]
        signalRunning := true }) ∨
    (self.signalQueue = [] ∧ self.phase.sending = false ∧ self.afterSignal =
      { self with
        signalQueue := []
        signalled := self.signalled ++ [.disconnected]
        signalRunning := false }) := by
  unfold afterSignal
  cases hqueue : self.signalQueue with
  | cons slice queue => exact .inl ⟨slice, queue, rfl, rfl⟩
  | nil =>
      right
      cases hsending : self.phase.sending with
      | true => exact .inl ⟨rfl, rfl, rfl⟩
      | false => exact .inr ⟨rfl, rfl, rfl⟩

/-- In a session the slice is recorded with whether it was queued for the signal
    thread. -/
theorem tee_signal (h : self.kind = .session) (slice : List UInt8) :
    (self.tee slice).slices = self.slices ++ [(slice, self.hasRoom)] ∧
      (self.tee slice).signalQueue =
        self.signalQueue ++ (if self.hasRoom then [slice] else []) ∧
      (self.tee slice).signalled = self.signalled ∧ (self.tee slice).kind = .session := by
  unfold tee
  rw [h, sendRender_eq]
  simp [sendSignal_eq, hasRoom, h]

theorem survivors_concat (slices : List Teed) (slice : List UInt8) (queued : Bool) :
    survivors (slices ++ [(slice, queued)]) =
      survivors slices ++ if queued then [slice] else [] := by
  cases queued <;> simp [survivors, List.filter_append]

theorem signalling_stepped {self' : OutputPath} (h : Stepped self self')
    (hkind : self.kind = .session) (hsignalling : Signalling self) :
    self'.kind = .session ∧ Signalling self' := by
  obtain ⟨hroom, hslices, hrunning, hended⟩ := hsignalling
  cases h with
  | idle => exact ⟨hkind, hroom, hslices, hrunning, hended⟩
  | flagged => exact ⟨hkind, hroom, hslices, hrunning, hended⟩
  | moved phase hsending hphase =>
      refine ⟨hkind, hroom, hslices, hrunning, fun h => ?_⟩
      exact absurd (hended h).2.1 (by simp [hsending])
  | teed slice hphase =>
      obtain ⟨hteed, hqueue, hsignalled, hsession⟩ := tee_signal hkind slice
      have hframe := (tee_frame self slice).2.2.2.2.2.2
      refine ⟨hsession, ?_, ?_, ?_, fun h => ?_⟩
      · rw [hqueue, List.length_append]
        by_cases hfits : self.hasRoom = true
        · have hlt : self.signalQueue.length < signalChannelCap := by
            simpa using (Bool.and_eq_true_iff.mp hfits).2
          rw [if_pos hfits, List.length_singleton]
          omega
        · rw [if_neg hfits, List.length_nil]
          omega
      · rw [hsignalled, hqueue, hteed, survivors_concat, ← hslices, List.append_assoc]
      · rw [hframe, hsignalled]
        exact hrunning
      · rw [hframe] at h
        exact absurd (hended h).2.1 (by simp [hphase, ReadPhase.sending])
  | returned hphase hforwarder hstopped =>
      refine ⟨hkind, hroom, hslices, hrunning, fun h => ?_⟩
      obtain ⟨hqueue, -, hrecvs⟩ := hended h
      exact ⟨hqueue, rfl, hrecvs⟩
  | forwarded coalescer self' _ hforwarded =>
      cases hforwarded <;> exact ⟨hkind, hroom, hslices, hrunning, hended⟩
  | signalled hrun =>
      have hnone := hrunning hrun
      rcases afterSignal_cases self with ⟨slice, queue, hqueue, hafter⟩ | ⟨hqueue, _, hafter⟩ |
        ⟨hqueue, hsending, hafter⟩ <;> rw [hafter]
      · rw [hqueue] at hslices hroom
        refine ⟨hkind, ?_, ?_, fun _ => by simp [hnone], fun h => by simp at h⟩
        · rw [List.length_cons] at hroom
          show queue.length ≤ signalChannelCap
          omega
        · rw [← hslices]
          simp [slicesOf]
      · rw [hqueue] at hslices
        refine ⟨hkind, Nat.zero_le _, ?_, fun _ => by simp [hnone], fun h => by simp at h⟩
        rw [← hslices]
        simp [slicesOf]
      · rw [hqueue] at hslices
        refine ⟨hkind, Nat.zero_le _, ?_, fun h => by simp at h, fun _ => ?_⟩
        · rw [← hslices]
          simp [slicesOf]
        · exact ⟨rfl, hsending, self.signalled, rfl, hnone⟩
  | shown chunk inFlight _ => exact ⟨hkind, hroom, hslices, hrunning, hended⟩
  | mounted => exact ⟨hkind, hroom, hslices, hrunning, hended⟩

theorem signalling_after (maxChunk : Nat) (flushInterval : Duration) (start : Instant)
    (steps : List PathStep) :
    (after .session maxChunk flushInterval start steps).kind = .session ∧
      Signalling (after .session maxChunk flushInterval start steps) := by
  refine invariant_after (I := fun self => self.kind = .session ∧ Signalling self) ?_ ?_ steps
  · exact ⟨rfl, Nat.zero_le _, rfl, fun _ => List.not_mem_nil, fun h => by cases h⟩
  · exact fun _ _ h hI => signalling_stepped h hI.1 hI.2

/-- In every state of every run of a session, the signal channel keeps to its bound,
    the signal loop has received the slices that found room, less those still queued, and
    is there for as long as the read thread sends, so that a slice finds room if and only
    if the queue is then short of the bound; by the time the read thread returns, the loop
    has received them all and then one disconnect. -/
theorem signal_law (maxChunk : Nat) (flushInterval : Duration) (start : Instant)
    (steps : List PathStep) :
    let path := after .session maxChunk flushInterval start steps
    path.signalQueue.length ≤ signalChannelCap ∧
      slicesOf path.signalled ++ path.signalQueue = survivors path.slices ∧
      (path.phase.sending = true → path.signalRunning = true) ∧
      (∀ slice, slice ≠ [] → path.phase = .reading →
        (path.step (.read (.data slice))).slices =
          path.slices ++ [(slice, decide (path.signalQueue.length < signalChannelCap))]) ∧
      (path.phase = .returned → ∃ recvs, path.signalled = recvs ++ [.disconnected] ∧
        .disconnected ∉ recvs ∧ slicesOf recvs = survivors path.slices) := by
  intro path
  have hending : Ending path := ending_after .session maxChunk flushInterval start steps
  obtain ⟨hkind, hroom, hslices, -, hended⟩ :
      path.kind = .session ∧ Signalling path := signalling_after maxChunk flushInterval start steps
  have hthere : path.phase.sending = true → path.signalRunning = true := by
    intro hsending
    by_contra hstopped
    have hphase := (hended (Bool.eq_false_iff.mpr hstopped)).2.1
    exact absurd hphase (by simp [hsending])
  refine ⟨hroom, hslices, hthere, fun slice hne hreading => ?_, fun hreturned => ?_⟩
  · have hread : path.step (.read (.data slice)) = path.tee slice := by
      rw [step, if_pos hreading]
      cases slice with
      | nil => exact absurd rfl hne
      | cons byte bytes => rfl
    rw [hread, (tee_signal hkind slice).1, hasRoom, hthere (by rw [hreading]; rfl), Bool.true_and]
  · obtain ⟨hqueue, -, recvs, hsignalled, hnone⟩ := hended (hending.returned hreturned).2
    refine ⟨recvs, hsignalled, hnone, ?_⟩
    rw [← hslices, hqueue, hsignalled]
    simp

/-- The status pipeline over these receives has ingested the slices that found room, once
    none is queued. -/
theorem producer_after_signalled (J : SerdeJson) (st : SignalState) (ticks : List Tick)
    (maxChunk : Nat) (flushInterval : Duration) (start : Instant) (steps : List PathStep)
    (hticks : ticks.map Tick.outcome =
      (after .session maxChunk flushInterval start steps).signalled)
    (hqueue : (after .session maxChunk flushInterval start steps).signalQueue = []) :
    (Status.SignalState.after J st ticks).producer =
      (survivors (after .session maxChunk flushInterval start steps).slices).foldl
        OutputSignalProducer.ingest st.producer := by
  have hslices := (signalling_after maxChunk flushInterval start steps).2.slices
  rw [hqueue, List.append_nil, ← hticks, slicesOf, List.filterMap_map] at hslices
  rw [Output.producer_after, ← hslices]
  rfl

-- ============================================================================
-- The end of the read thread
-- ============================================================================

/-- The receives that the forwarder has before it, with the senders gone. -/
def renderWork (self : OutputPath) : Nat :=
  if self.forwarder.isSome then self.renderQueue.length + 1 else 0

/-- The same for the signal thread. -/
def signalWork (self : OutputPath) : Nat :=
  if self.signalRunning then self.signalQueue.length + 1 else 0

/-- With the senders gone, each receive of a thread takes one from its work. -/
structure Works (path path' : OutputPath) (forwards signals : Nat) : Prop where
  sending : path'.phase.sending = false
  render : path'.renderWork ≤ path.renderWork - forwards
  signal : path'.signalWork ≤ path.signalWork - signals

theorem works_step (s : PathStep) (hsending : self.phase.sending = false) :
    Works self (self.step s) (if s.isForward then 1 else 0) (if s.isSignal then 1 else 0) := by
  cases s with
  | shutdown => exact ⟨hsending, Nat.le_refl _, Nat.le_refl _⟩
  | check =>
      have hphase : self.phase ≠ .checking := fun h => by simp [h, ReadPhase.sending] at hsending
      rw [step, if_neg hphase]
      exact ⟨hsending, Nat.le_refl _, Nat.le_refl _⟩
  | read outcome =>
      have hphase : self.phase ≠ .reading := fun h => by simp [h, ReadPhase.sending] at hsending
      rw [step, if_neg hphase]
      exact ⟨hsending, Nat.le_refl _, Nat.le_refl _⟩
  | join =>
      by_cases hjoin : self.phase = .joining ∧ self.forwarder = none ∧ self.signalRunning = false
      · rw [step, if_pos hjoin]
        exact ⟨rfl, Nat.le_refl _, Nat.le_refl _⟩
      · rw [step, if_neg hjoin]
        exact ⟨hsending, Nat.le_refl _, Nat.le_refl _⟩
  | forward now accepts =>
      rw [step]
      cases hforwarder : self.forwarder with
      | none => exact ⟨hsending, by simp [renderWork, hforwarder], Nat.le_refl _⟩
      | some coalescer =>
          have hwork : self.renderWork = self.renderQueue.length + 1 := by
            simp [renderWork, hforwarder]
          have hforwarded := forwarded self coalescer now accepts
          show Works self (self.afterForward coalescer now accepts) 1 0
          generalize self.afterForward coalescer now accepts = self' at hforwarded ⊢
          cases hforwarded with
          | continues chunk coalescer' _ hqueue =>
              have hne : self.renderQueue ≠ [] := fun h => by simp [hqueue h] at hsending
              have hlen := List.length_pos_iff.mpr hne
              refine ⟨hsending, ?_, Nat.le_refl _⟩
              rw [hwork]
              simp only [renderWork, Option.isSome_some, if_true, List.length_tail]
              omega
          | refused => exact ⟨hsending, by simp [renderWork, exitForwarder], Nat.le_refl _⟩
          | drained chunk _ _ _ =>
              exact ⟨hsending, by simp [renderWork, exitForwarder], Nat.le_refl _⟩
  | signal =>
      by_cases hrunning : self.signalRunning = true
      · rw [step, if_pos hrunning]
        have hwork : self.signalWork = self.signalQueue.length + 1 := by
          simp [signalWork, hrunning]
        show Works self self.afterSignal 0 1
        rcases afterSignal_cases self with ⟨slice, queue, hqueue, hafter⟩ | ⟨-, hphase, -⟩ |
          ⟨-, -, hafter⟩
        · rw [hafter]
          refine ⟨hsending, Nat.le_refl _, ?_⟩
          rw [hwork, hqueue]
          simp [signalWork]
        · exact absurd hphase (by simp [hsending])
        · rw [hafter]
          exact ⟨hsending, Nat.le_refl _, by simp [signalWork]⟩
      · rw [step, if_neg hrunning]
        exact ⟨hsending, Nat.le_refl _, by simp [signalWork, hrunning]⟩
  | message =>
      rw [step]
      cases self.inFlight <;> exact ⟨hsending, Nat.le_refl _, Nat.le_refl _⟩
  | mount => exact ⟨hsending, Nat.le_refl _, Nat.le_refl _⟩

theorem works_run (steps : List PathStep) (hsending : self.phase.sending = false) :
    Works self (Machine.run step self steps) (steps.countP PathStep.isForward)
      (steps.countP PathStep.isSignal) := by
  induction steps generalizing self with
  | nil => exact ⟨hsending, Nat.le_refl _, Nat.le_refl _⟩
  | cons s steps ih =>
      have hstep := works_step s hsending
      have hrest := ih hstep.sending
      have hrender := hstep.render
      have hsignal := hstep.signal
      have hrender' := hrest.render
      have hsignal' := hrest.signal
      rw [Machine.run_cons, List.countP_cons, List.countP_cons]
      exact ⟨hrest.sending, by omega, by omega⟩

/-- Once the read thread is past its loop, it returns after as many receives of the other
    threads as they have slices queued, and one each for the disconnect; the exit has
    been announced once by then. -/
theorem returns_after (kind : ThreadKind) (maxChunk : Nat) (flushInterval : Duration)
    (start : Instant) (steps more : List PathStep)
    (hphase : (after kind maxChunk flushInterval start steps).phase = .joining)
    (hforward : (after kind maxChunk flushInterval start steps).renderQueue.length <
      more.countP PathStep.isForward)
    (hsignal : (after kind maxChunk flushInterval start steps).signalRunning = true →
      (after kind maxChunk flushInterval start steps).signalQueue.length <
        more.countP PathStep.isSignal) :
    let path := after kind maxChunk flushInterval start (steps ++ (more ++ [.join]))
    path.phase = .returned ∧ path.ptyExits = 1 := by
  intro path
  have hending : Ending path :=
    ending_after kind maxChunk flushInterval start (steps ++ (more ++ [.join]))
  set found := after kind maxChunk flushInterval start steps with hfound
  have hsending : found.phase.sending = false := by rw [hphase]; rfl
  have hworks := works_run more hsending
  set waited := Machine.run step found more with hwaited
  have hforwarder : waited.forwarder = none := by
    have hwork : waited.renderWork = 0 := by
      have hrender := hworks.render
      have hstart : found.renderWork ≤ found.renderQueue.length + 1 := by
        unfold renderWork
        split_ifs <;> omega
      omega
    by_contra hsome
    obtain ⟨coalescer, hcoalescer⟩ := Option.ne_none_iff_exists'.mp hsome
    simp [renderWork, hcoalescer] at hwork
  have hstopped : waited.signalRunning = false := by
    by_contra hrunning
    have hwork : waited.signalWork = waited.signalQueue.length + 1 := by
      simp [signalWork, hrunning]
    have hsignals := hworks.signal
    by_cases hran : found.signalRunning = true
    · have hstart : found.signalWork = found.signalQueue.length + 1 := by simp [signalWork, hran]
      have := hsignal hran
      omega
    · have hstart : found.signalWork = 0 := by simp [signalWork, hran]
      omega
  have hpath : path = waited.step .join := by
    show Machine.run step _ (steps ++ (more ++ [.join])) = _
    rw [← List.append_assoc, Machine.run_concat, hwaited, hfound]
    simp only [after, Machine.run, List.foldl_append]
  have hreturned : path.phase = .returned := by
    rw [hpath, step]
    split_ifs with hjoin
    · rfl
    · have hnotJoining : waited.phase ≠ .joining := fun h => hjoin ⟨h, hforwarder, hstopped⟩
      have hpast := hworks.sending
      cases hwhere : waited.phase with
      | checking => simp [hwhere, ReadPhase.sending] at hpast
      | reading => simp [hwhere, ReadPhase.sending] at hpast
      | joining => exact absurd hwhere hnotJoining
      | returned => rfl
  refine ⟨hreturned, ?_⟩
  rw [hending.exits, (hending.returned hreturned).1]
  rfl

/-- One slice, and then a read that fails. -/
theorem returns_after_two :
    let path := after .session 8 8 0 ([.check, .read (.data [1]), .check, .read .failed] ++
      ([.forward 0 true, .signal, .forward 1 true, .signal] ++ [.join]))
    path.phase = .returned ∧ path.ptyExits = 1 :=
  returns_after .session 8 8 0 [.check, .read (.data [1]), .check, .read .failed]
    [.forward 0 true, .signal, .forward 1 true, .signal] (by rfl) (by decide) (by decide)

-- ============================================================================
-- The shutdown
-- ============================================================================

/-- The slices read, and the one that a read under way may add. -/
def readRoom (self : OutputPath) : Nat :=
  self.slices.length + if self.phase = .reading then 1 else 0

/-- With the flag set: it stays set, no read begins, the loop is not entered again, and
    only a read under way adds a slice. -/
structure Stopping (path path' : OutputPath) : Prop where
  stop : path'.stop = true
  reading : path'.phase = .reading → path.phase = .reading
  sending : path'.phase.sending = true → path.phase.sending = true
  reads : path'.readRoom ≤ path.readRoom

theorem stopping_refl (hstop : self.stop = true) : Stopping self self :=
  ⟨hstop, id, id, Nat.le_refl _⟩

/-- A read that returns adds at most one slice. -/
theorem afterRead_slices (self : OutputPath) (outcome : ReadOutcome) :
    (self.afterRead outcome).slices.length ≤ self.slices.length + 1 ∧
      (self.afterRead outcome).phase ≠ .reading ∧ (self.afterRead outcome).stop = self.stop := by
  rcases outcome with (- | ⟨byte, bytes⟩) | - | -
  · exact ⟨Nat.le_succ _, by simp [afterRead], rfl⟩
  · show (self.tee _).slices.length ≤ _ ∧ (self.tee _).phase ≠ _ ∧ (self.tee _).stop = _
    unfold tee
    rw [sendRender_eq]
    cases self.kind with
    | raw => cases self.forwarder <;> simp
    | session => simp [sendSignal_eq]
  · exact ⟨Nat.le_succ _, by simp [afterRead], rfl⟩
  · exact ⟨Nat.le_succ _, by simp [afterRead], rfl⟩

theorem stopping_step (s : PathStep) (hstop : self.stop = true) :
    Stopping self (self.step s) := by
  cases s with
  | shutdown => exact ⟨rfl, id, id, Nat.le_refl _⟩
  | check =>
      by_cases hphase : self.phase = .checking
      · rw [step, if_pos hphase, if_pos hstop]
        refine ⟨hstop, fun h => ?_, fun h => ?_, ?_⟩
        · cases h
        · cases h
        · simp [readRoom]
      · rw [step, if_neg hphase]
        exact stopping_refl hstop
  | read outcome =>
      by_cases hphase : self.phase = .reading
      · obtain ⟨hslices, hnot, hkept⟩ := afterRead_slices self outcome
        rw [step, if_pos hphase]
        refine ⟨hkept.trans hstop, fun h => absurd h hnot, fun _ => by rw [hphase]; rfl, ?_⟩
        rw [readRoom, if_neg hnot, readRoom, if_pos hphase]
        exact hslices
      · rw [step, if_neg hphase]
        exact stopping_refl hstop
  | join =>
      by_cases hjoin : self.phase = .joining ∧ self.forwarder = none ∧ self.signalRunning = false
      · rw [step, if_pos hjoin]
        refine ⟨hstop, fun h => ?_, fun h => ?_, ?_⟩
        · cases h
        · cases h
        · simp [readRoom]
      · rw [step, if_neg hjoin]
        exact stopping_refl hstop
  | forward now accepts =>
      rw [step]
      cases self.forwarder with
      | none => exact stopping_refl hstop
      | some coalescer =>
          have hforwarded := forwarded self coalescer now accepts
          show Stopping self (self.afterForward coalescer now accepts)
          generalize self.afterForward coalescer now accepts = self' at hforwarded ⊢
          cases hforwarded <;> exact ⟨hstop, id, id, Nat.le_refl _⟩
  | signal =>
      rw [step]
      split_ifs <;> exact ⟨hstop, id, id, Nat.le_refl _⟩
  | message =>
      rw [step]
      cases self.inFlight <;> exact ⟨hstop, id, id, Nat.le_refl _⟩
  | mount => exact ⟨hstop, id, id, Nat.le_refl _⟩

theorem stopping_run (steps : List PathStep) (hstop : self.stop = true) :
    Stopping self (Machine.run step self steps) := by
  induction steps generalizing self with
  | nil => exact stopping_refl hstop
  | cons s steps ih =>
      have hstep := stopping_step s hstop
      have hrest := ih hstep.stop
      exact ⟨hrest.stop, fun h => hstep.reading (hrest.reading h),
        fun h => hstep.sending (hrest.sending h), hrest.reads.trans hstep.reads⟩

/-- After a shutdown at most one slice is read, and once the read under way has returned
    and the flag has been looked at, the read thread is past its loop. -/
theorem reads_after_shutdown (kind : ThreadKind) (maxChunk : Nat) (flushInterval : Duration)
    (start : Instant) (steps more : List PathStep) :
    let found := after kind maxChunk flushInterval start steps
    let path := after kind maxChunk flushInterval start (steps ++ .shutdown :: more)
    path.slices.length ≤ found.slices.length + 1 ∧
      ∀ early outcome middle late, more = early ++ .read outcome :: (middle ++ .check :: late) →
        path.phase.sending = false := by
  intro found path
  have hpath : path = Machine.run step (found.step .shutdown) more := by
    show Machine.run step _ (steps ++ .shutdown :: more) = _
    simp only [Machine.run, List.foldl_append, List.foldl_cons, found]
  have hstop : (found.step .shutdown).stop = true := rfl
  refine ⟨?_, fun early outcome middle late hmore => ?_⟩
  · have hreads := (stopping_run more hstop).reads
    have hroom : (found.step .shutdown).readRoom ≤ found.slices.length + 1 := by
      show found.slices.length + (if found.phase = .reading then 1 else 0) ≤ _
      split_ifs <;> omega
    rw [hpath]
    exact (Nat.le_add_right _ _).trans (hreads.trans hroom)
  · have hearly := stopping_run early hstop
    set waiting := Machine.run step (found.step .shutdown) early with hwaiting
    have hnotReading : (waiting.step (.read outcome)).phase ≠ .reading := by
      rw [step]
      split_ifs with hphase
      · exact (afterRead_slices waiting outcome).2.1
      · exact hphase
    have hread := stopping_step (.read outcome) hearly.stop
    have hmiddle := stopping_run middle hread.stop
    set looking := Machine.run step (waiting.step (.read outcome)) middle with hlooking
    have hpast : (looking.step .check).phase.sending = false := by
      by_cases hchecking : looking.phase = .checking
      · rw [step, if_pos hchecking, if_pos hmiddle.stop]
        rfl
      · rw [step, if_neg hchecking]
        cases hwhere : looking.phase with
        | checking => exact absurd hwhere hchecking
        | reading => exact absurd (hmiddle.reading hwhere) hnotReading
        | joining => rfl
        | returned => rfl
    have hlate := stopping_run late (stopping_step .check hmiddle.stop).stop
    have hend : path = Machine.run step (looking.step .check) late := by
      rw [hpath, hmore, hlooking, hwaiting]
      simp only [Machine.run, List.foldl_append, List.foldl_cons]
    rw [hend]
    by_contra hsending
    have hback := hlate.sending (by simpa using hsending)
    exact absurd hpast (by simp [hback])

end OutputPath

end Spectty.Terminals
