/-
  Spectty.Adapters.FileWatch

  The file watcher: a debounce thread that records the paths sent to its channel,
  and hands them to `on_change` in one batch when a receive times out, or when it
  ends.

  `accounts` is the law of the debouncer: what was recorded is pending or in a
  batch.  A path that is received restarts the wait, so a pending path stays for as
  long as others keep coming (`delivered_iff_quiet`).  A stop that the thread finds set
  leaves unread what is still in the channel; `delivered_at_exit_iff` says when
  nothing is lost with it.
-/

import Spectty.Lib.Fifo
import Spectty.Adapters.Coalescer
import Mathlib.Data.Finset.Sort
import Mathlib.Data.String.Basic

namespace Spectty.Adapters

open Spectty.Lib

/-- A batch of changed paths. -/
structure FileChanged (P : Type) where
  paths : List P
deriving DecidableEq, Repr

/-- The paths recorded since the last flush. -/
structure Debouncer (P : Type) where
  pending : Finset P

/-- How a pass of the thread's loop goes: with what its receive gives, or with the
    stop flag found set. -/
inductive LoopPass (P : Type) where
  | received (path : P)
  | timeout
  | disconnected
  | stopped
deriving DecidableEq, Repr

variable {P : Type} [LinearOrder P]

namespace Debouncer

def new : Debouncer P where
  pending := ∅

def record (self : Debouncer P) (path : P) : Debouncer P where
  pending := insert path self.pending

/-- One batch of what is pending, if anything is. -/
def flush (self : Debouncer P) : Option (FileChanged P) × Debouncer P :=
  if self.pending = ∅ then (none, self) else (some { paths := self.pending.sort }, new)

/-- What a pass hands to `on_change`.  The loop ends with the last two, and then
    flushes once more. -/
def pass (self : Debouncer P) : LoopPass P → Option (FileChanged P) × Debouncer P
  | .received path => (none, self.record path)
  | .timeout => self.flush
  | .disconnected => self.flush
  | .stopped => self.flush

def next (self : Debouncer P) (pass : LoopPass P) : Debouncer P := (self.pass pass).2

/-- The batches of a run of the loop. -/
def batches : Debouncer P → List (LoopPass P) → List (FileChanged P)
  | _, [] => []
  | self, pass :: passes => (self.pass pass).1.toList ++ batches (self.next pass) passes

variable {self : Debouncer P} {path : P}

-- ============================================================================
-- What is recorded
-- ============================================================================

/-- A flush hands out what is pending. -/
theorem mem_flush : (∃ batch ∈ self.flush.1, path ∈ batch.paths) ↔ path ∈ self.pending := by
  unfold flush
  split_ifs with hempty
  · simp [hempty]
  · simp

@[simp] theorem pending_flush : self.flush.2.pending = ∅ := by
  unfold flush
  split_ifs with hempty
  · exact hempty
  · rfl

/-- A pass that receives no path flushes. -/
theorem pass_of_ne_received {pass : LoopPass P} (h : ∀ path, pass ≠ .received path) :
    self.pass pass = self.flush := by
  cases pass with
  | received path => exact absurd rfl (h path)
  | timeout => rfl
  | disconnected => rfl
  | stopped => rfl

/-- After a pass, what was pending before it or has been received is pending, or has
    been handed out. -/
theorem accounts (self : Debouncer P) (pass : LoopPass P) (path : P) :
    (path ∈ self.pending ∨ pass = .received path) ↔
      (∃ batch ∈ (self.pass pass).1, path ∈ batch.paths) ∨ path ∈ (self.next pass).pending := by
  by_cases h : ∀ other, pass ≠ .received other
  · rw [next, pass_of_ne_received h, mem_flush, pending_flush]
    simp [h path]
  · obtain ⟨other, hother⟩ := not_forall.mp h
    obtain rfl := not_not.mp hother
    simp [next, Debouncer.pass, record, or_comm, eq_comm]

-- ============================================================================
-- The delay
-- ============================================================================

/-- A run of the loop hands a path to `on_change`. -/
def Delivered (self : Debouncer P) (passes : List (LoopPass P)) (path : P) : Prop :=
  ∃ batch ∈ self.batches passes, path ∈ batch.paths

/-- A pending path is handed out by the first pass that receives no path. -/
theorem delivered_iff_of_pending {passes : List (LoopPass P)} (h : path ∈ self.pending) :
    self.Delivered passes path ↔ ∃ pass ∈ passes, ∀ other, pass ≠ .received other := by
  induction passes generalizing self with
  | nil => simp [Delivered, batches]
  | cons pass passes ih =>
      by_cases hquiet : ∀ other, pass ≠ .received other
      · refine iff_of_true ?_ ⟨pass, List.mem_cons_self, hquiet⟩
        obtain ⟨batch, hbatch, hpath⟩ := mem_flush.mpr h
        refine ⟨batch, List.mem_append_left _ ?_, hpath⟩
        rwa [pass_of_ne_received hquiet, Option.mem_toList]
      · obtain ⟨other, hother⟩ := not_forall.mp hquiet
        obtain rfl := not_not.mp hother
        have hrest : (self.record other).Delivered passes path ↔ _ :=
          ih (Finset.mem_insert_of_mem h)
        simpa [Delivered, batches, next, Debouncer.pass] using hrest

/-- A pass of the loop, and the clock at its end. -/
structure LoopStep (P : Type) where
  pass : LoopPass P
  now : Instant
deriving DecidableEq, Repr

/-- The debouncer after some steps of the loop. -/
def after (steps : List (LoopStep P)) : Debouncer P :=
  Machine.run next new (steps.map LoopStep.pass)

/-- Every path that is received has been handed out by the end of any step that
    comes the window or more after it. -/
def DeliveredInTime (window : Duration) (steps : List (LoopStep P)) : Prop :=
  ∀ before path now between step rest,
    steps = before ++ { pass := .received path, now } :: between ++ step :: rest →
    now + window ≤ step.now →
    (after (before ++ [{ pass := .received path, now }])).Delivered
      ((between ++ [step]).map LoopStep.pass) path

/-- A path that is received has been handed out by the end of a later step just when
    that step, or one between them, is a timeout or ends the loop. -/
theorem delivered_iff_quiet (before between : List (LoopStep P)) (path : P) (now : Instant)
    (step : LoopStep P) :
    (after (before ++ [{ pass := .received path, now }])).Delivered
        ((between ++ [step]).map LoopStep.pass) path ↔
      ∃ later ∈ between ++ [step], ∀ other, later.pass ≠ .received other := by
  have hpending : path ∈ (after (before ++ [{ pass := .received path, now }])).pending := by
    rw [after, List.map_append]
    exact Machine.run_concat ▸ Finset.mem_insert_self _ _
  rw [delivered_iff_of_pending hpending]
  simp only [List.mem_map, exists_exists_and_eq_and]

/-- A path every five, and a window of eight: at ten, nothing has been handed out. -/
theorem busy_workspace_waits :
    let steps : List (LoopStep String) := [{ pass := .received "a.rs", now := 0 },
      { pass := .received "b.rs", now := 5 }, { pass := .received "a.rs", now := 10 }]
    (steps.Pairwise fun a b => a.now ≤ b.now) ∧ ¬ DeliveredInTime 8 steps := by
  refine ⟨by simp, fun h => ?_⟩
  obtain ⟨batch, hbatch, -⟩ := h [] "a.rs" 0 [{ pass := .received "b.rs", now := 5 }]
    { pass := .received "a.rs", now := 10 } [] rfl (by decide)
  exact absurd hbatch (List.not_mem_nil)

end Debouncer

-- ============================================================================
-- The thread, its channel and its flag
-- ============================================================================

/-- Where the thread is in a pass of its loop. -/
inductive WatchPhase where
  | checking
  | receiving
  | exited
deriving DecidableEq, Repr

/-- The watcher: the channel of the events, the stop flag, and the thread with the
    batches it has passed to `on_change`. -/
structure Watcher (P : Type) where
  channel : List P
  stop : Bool
  phase : WatchPhase
  debouncer : Debouncer P
  batches : List (FileChanged P)

/-- A step of the watch: an event sends a path, the guard sets the flag, or the thread
    looks at the flag or comes back from its receive. -/
inductive WatchStep (P : Type) where
  | send (path : P)
  | setStop
  | check
  | receive
  | timeout
  | disconnected
deriving DecidableEq, Repr

namespace Watcher

def start : Watcher P where
  channel := []
  stop := false
  phase := .checking
  debouncer := .new
  batches := []

/-- Do what a pass of the loop does, and go on. -/
def complete (self : Watcher P) (pass : LoopPass P) (phase : WatchPhase) : Watcher P :=
  let (batch, debouncer) := self.debouncer.pass pass
  { self with phase, debouncer, batches := self.batches ++ batch.toList }

/-- One step.  A receive gives a path while there is one; it can time out, or find the
    channel closed, only when there is none. -/
def next (self : Watcher P) : WatchStep P → Watcher P
  | .send path => { self with channel := self.channel ++ [path] }
  | .setStop => { self with stop := true }
  | .check =>
      match self.phase with
      | .checking =>
          if self.stop then self.complete .stopped .exited else { self with phase := .receiving }
      | _ => self
  | .receive =>
      match self.phase, self.channel with
      | .receiving, path :: channel =>
          { self with channel }.complete (.received path) .checking
      | _, _ => self
  | .timeout =>
      match self.phase, self.channel with
      | .receiving, [] => self.complete .timeout .checking
      | _, _ => self
  | .disconnected =>
      match self.phase, self.channel with
      | .receiving, [] => self.complete .disconnected .exited
      | _, _ => self

variable {self : Watcher P} {path : P}

/-- What a step takes from the channel. -/
def taken (self : Watcher P) : WatchStep P → List P
  | .receive =>
      match self.phase, self.channel with
      | .receiving, path :: _ => [path]
      | _, _ => []
  | _ => []

/-- What a step sends to the channel. -/
def sends : WatchStep P → List P
  | .send path => [path]
  | _ => []

@[simp] theorem channel_complete (pass : LoopPass P) (phase : WatchPhase) :
    (self.complete pass phase).channel = self.channel := rfl

@[simp] theorem phase_complete (pass : LoopPass P) (phase : WatchPhase) :
    (self.complete pass phase).phase = phase := rfl

/-- The channel is a buffer of paths. -/
def paths : Fifo (Watcher P) (WatchStep P) P where
  step := next
  held := channel
  input := sends
  output := taken
  conserves self step := by
    obtain ⟨channel, stop, phase, debouncer, batches⟩ := self
    cases step with
    | send path => rfl
    | setStop => simp [sends, taken, next]
    | check =>
        cases phase <;> cases stop <;> simp [sends, taken, next]
    | receive => cases phase <;> cases channel <;> simp [sends, taken, next]
    | timeout => cases phase <;> cases channel <;> simp [sends, taken, next]
    | disconnected => cases phase <;> cases channel <;> simp [sends, taken, next]

-- ============================================================================
-- What is recorded
-- ============================================================================

/-- A path is in a batch. -/
def Reported (self : Watcher P) (path : P) : Prop := ∃ batch ∈ self.batches, path ∈ batch.paths

/-- A path is in a batch, or will be in the next. -/
def Recorded (self : Watcher P) (path : P) : Prop :=
  self.Reported path ∨ path ∈ self.debouncer.pending

theorem recorded_complete (self : Watcher P) (pass : LoopPass P) (phase : WatchPhase) (path : P) :
    (self.complete pass phase).Recorded path ↔ self.Recorded path ∨ pass = .received path := by
  have haccounts := self.debouncer.accounts pass path
  have hreported : (self.complete pass phase).Reported path ↔
      self.Reported path ∨ ∃ batch ∈ (self.debouncer.pass pass).1, path ∈ batch.paths := by
    simp [Reported, complete, or_and_right, exists_or]
  rw [Recorded, hreported, Recorded, or_assoc, or_assoc, haccounts]
  rfl

/-- A step records what it takes from the channel. -/
theorem recorded_next (self : Watcher P) (step : WatchStep P) (path : P) :
    (self.next step).Recorded path ↔ self.Recorded path ∨ path ∈ taken self step := by
  obtain ⟨channel, stop, phase, debouncer, batches⟩ := self
  cases step with
  | send other => simp [taken, next, Recorded, Reported]
  | setStop => simp [taken, next, Recorded, Reported]
  | check =>
      cases phase with
      | checking =>
          cases stop with
          | true => simp [taken, next, recorded_complete]
          | false => simp [taken, next, Recorded, Reported]
      | receiving => simp [taken, next]
      | exited => simp [taken, next]
  | receive =>
      cases phase with
      | receiving =>
          cases channel with
          | nil => simp [taken, next]
          | cons first channel =>
              have hrecorded := recorded_complete ⟨channel, stop, .receiving, debouncer, batches⟩
                (.received first) .checking path
              rw [LoopPass.received.injEq, eq_comm (a := first)] at hrecorded
              rw [taken, List.mem_singleton]
              exact hrecorded
      | checking => simp [taken, next]
      | exited => simp [taken, next]
  | timeout => cases phase <;> cases channel <;> simp [taken, next, recorded_complete]
  | disconnected => cases phase <;> cases channel <;> simp [taken, next, recorded_complete]

theorem recorded_run (self : Watcher P) (steps : List (WatchStep P)) (path : P) :
    (Machine.run next self steps).Recorded path ↔
      self.Recorded path ∨ path ∈ paths.outputs self steps := by
  induction steps generalizing self with
  | nil => simp [Fifo.outputs]
  | cons step steps ih =>
      rw [Machine.run_cons, ih, recorded_next, or_assoc, Fifo.outputs, List.mem_append]
      rfl

/-- The thread leaves nothing pending when it exits. -/
theorem pending_exit {step : WatchStep P} (hrunning : self.phase ≠ .exited)
    (hexit : (self.next step).phase = .exited) : (self.next step).debouncer.pending = ∅ := by
  obtain ⟨channel, stop, phase, debouncer, batches⟩ := self
  cases step with
  | send other => exact absurd hexit hrunning
  | setStop => exact absurd hexit hrunning
  | check =>
      cases phase with
      | checking =>
          cases stop with
          | true => exact Debouncer.pending_flush
          | false => exact absurd hexit (by simp [next])
      | receiving => exact absurd hexit hrunning
      | exited => exact absurd rfl hrunning
  | receive => cases phase <;> cases channel <;> simp_all [next]
  | timeout => cases phase <;> cases channel <;> simp_all [next]
  | disconnected =>
      cases phase <;> cases channel <;> first
        | exact Debouncer.pending_flush
        | exact absurd hexit hrunning

/-- The step that ends the thread takes nothing from the channel. -/
theorem taken_exit {step : WatchStep P} (hrunning : self.phase ≠ .exited)
    (hexit : (self.next step).phase = .exited) : taken self step = [] := by
  obtain ⟨channel, stop, phase, debouncer, batches⟩ := self
  cases step with
  | receive => cases phase <;> cases channel <;> simp_all [next]
  | _ => rfl

-- ============================================================================
-- The exit
-- ============================================================================

/-- The paths sent before the flag is set. -/
def sentBeforeStop (steps : List (WatchStep P)) : List P :=
  paths.inputs (steps.takeWhile (· ≠ .setStop))

/-- The paths received. -/
def received (steps : List (WatchStep P)) : List P := paths.outputs start steps

/-- The paths sent before the flag is set that are still in the channel. -/
def queued (steps : List (WatchStep P)) : List P :=
  (sentBeforeStop steps).drop (received steps).length

/-- What was sent before the flag was set has been received, or is in the channel. -/
theorem mem_received_or_queued {steps : List (WatchStep P)} (h : path ∈ sentBeforeStop steps) :
    path ∈ received steps ∨ path ∈ queued steps := by
  have hreceived : received steps <+: paths.inputs steps := Fifo.outputs_isPrefix rfl steps
  have hsent : sentBeforeStop steps <+: paths.inputs steps := by
    obtain ⟨rest, hrest⟩ := List.takeWhile_prefix (p := fun step => decide (step ≠ .setStop))
      (l := steps)
    exact ⟨paths.inputs rest, by rw [sentBeforeStop, ← Fifo.inputs_append, hrest]⟩
  rcases List.prefix_or_prefix_of_prefix hsent hreceived with hshort | ⟨rest, hrest⟩
  · exact .inl (hshort.subset h)
  · rw [queued, ← hrest, List.drop_left]
    rw [← hrest] at h
    exact List.mem_append.mp h

/-- When the thread has exited, every path sent before the flag was set is in a batch
    just when those of them that were still in the channel at its last step had also
    been received before. -/
theorem delivered_at_exit_iff (steps : List (WatchStep P)) (last : WatchStep P)
    (hrunning : (Machine.run next start steps).phase ≠ .exited)
    (hexit : (Machine.run next start (steps ++ [last])).phase = .exited) :
    (∀ path ∈ sentBeforeStop steps,
      (Machine.run next start (steps ++ [last])).Reported path) ↔
      ∀ path ∈ queued steps, path ∈ received steps := by
  have hreported : ∀ path, (Machine.run next start (steps ++ [last])).Reported path ↔
      path ∈ received steps := by
    intro path
    have hrecorded := recorded_run start (steps ++ [last]) path
    have htaken : paths.outputs start (steps ++ [last]) = received steps ++
        taken (Machine.run next start steps) last := Fifo.outputs_concat _ _ _
    have hstart : ¬ (start : Watcher P).Recorded path := by
      simp [Recorded, Reported, start, Debouncer.new]
    rw [Machine.run_concat] at hexit ⊢
    rw [Machine.run_concat, Recorded, pending_exit hrunning hexit, htaken,
      taken_exit hrunning hexit, List.append_nil] at hrecorded
    simpa [hstart] using hrecorded
  simp only [hreported]
  constructor
  · exact fun h path hpath => h path (List.mem_of_mem_drop hpath)
  · exact fun h path hpath => (mem_received_or_queued hpath).elim id (h path)

/-- One path, received before the flag is set. -/
theorem delivered_at_exit_one :
    (Machine.run next start [.check, .send "a.rs", .receive, .setStop, .check]).phase = .exited ∧
    ∀ path ∈ sentBeforeStop [.check, .send "a.rs", .receive, .setStop],
      (Machine.run next start
        [.check, .send "a.rs", .receive, .setStop, .check]).Reported path :=
  ⟨by decide, (delivered_at_exit_iff [.check, .send "a.rs", .receive, .setStop] .check
    (by decide) (by decide)).mpr (by decide)⟩

/-- Two paths, and the flag is set before the second is received. -/
theorem queued_event_lost :
    let steps : List (WatchStep String) :=
      [.check, .send "a.rs", .send "b.rs", .receive, .setStop]
    (Machine.run next start (steps ++ [.check])).phase = .exited ∧
    ¬ ∀ path ∈ sentBeforeStop steps,
      (Machine.run next start (steps ++ [.check])).Reported path := by
  refine ⟨rfl, fun h => ?_⟩
  have hrecorded := (recorded_run start _ "b.rs").mp (.inl (h "b.rs" (by decide)))
  rcases hrecorded with (⟨batch, hbatch, -⟩ | hpending) | hreceived
  · exact absurd hbatch List.not_mem_nil
  · exact absurd hpending (Finset.notMem_empty _)
  · exact absurd hreceived (by decide)

end Watcher

end Spectty.Adapters
