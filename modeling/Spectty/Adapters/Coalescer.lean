/-
  Spectty.Adapters.Coalescer

  The batcher of terminal output: it hands a chunk out when the buffer reaches
  `maxChunk` bytes, or when the flush interval has elapsed.

  A push hands out one chunk and leaves the remainder in the buffer, so a drain may
  find, and hand out, more than `maxChunk` bytes (`drained_oversized`).
  `chunks_bounded_iff` says in which runs every chunk keeps to the bound.
-/

import Spectty.Lib.Fifo

namespace Spectty.Adapters

open Spectty.Lib

/-- A reading of the monotonic clock, in nanoseconds. -/
abbrev Instant := Nat

/-- A span of time, in nanoseconds. -/
abbrev Duration := Nat

/-- The time since an earlier instant, zero when it is a later one. -/
def durationSince (self earlier : Instant) : Duration := self - earlier

structure Coalescer where
  buf : List UInt8
  maxChunk : Nat
  flushInterval : Duration
  lastFlush : Instant
deriving DecidableEq, Repr

namespace Coalescer

def new (maxChunk : Nat) (flushInterval : Duration) (now : Instant) : Coalescer where
  buf := []
  maxChunk := maxChunk
  flushInterval := flushInterval
  lastFlush := now

/-- Split `maxChunk` bytes off the front of the buffer. -/
def splitChunk (self : Coalescer) : List UInt8 × Coalescer :=
  (self.buf.take self.maxChunk, { self with buf := self.buf.drop self.maxChunk })

/-- Take the whole buffer. -/
def takeBuffer (self : Coalescer) : List UInt8 × Coalescer := (self.buf, { self with buf := [] })

/-- Append the data; a buffer that has reached `maxChunk` gives one chunk. -/
def push (self : Coalescer) (data : List UInt8) (now : Instant) :
    Option (List UInt8) × Coalescer :=
  let self := { self with buf := self.buf ++ data }
  if self.maxChunk ≤ self.buf.length then
    let (chunk, self) := self.splitChunk
    (some chunk, { self with lastFlush := now })
  else (none, self)

/-- Flush what is buffered if the interval has elapsed. -/
def drainDue (self : Coalescer) (now : Instant) : Option (List UInt8) × Coalescer :=
  if self.buf = [] then (none, self)
  else if self.flushInterval ≤ durationSince now self.lastFlush then
    let self := { self with lastFlush := now }
    let (chunk, self) := self.takeBuffer
    (some chunk, self)
  else (none, self)

/-- Flush what is buffered. -/
def drainAll (self : Coalescer) : Option (List UInt8) × Coalescer :=
  if self.buf = [] then (none, self)
  else
    let (chunk, self) := self.takeBuffer
    (some chunk, self)

/-- A call of one of the three. -/
inductive Call where
  | push (data : List UInt8) (now : Instant)
  | drainDue (now : Instant)
  | drainAll
deriving DecidableEq, Repr

def Call.run (self : Coalescer) : Call → Option (List UInt8) × Coalescer
  | .push data now => self.push data now
  | .drainDue now => self.drainDue now
  | .drainAll => self.drainAll

/-- What a call appends. -/
def Call.data : Call → List UInt8
  | .push data _ => data
  | .drainDue _ | .drainAll => []

/-- The coalescer after a call. -/
def next (self : Coalescer) (call : Call) : Coalescer := (call.run self).2

variable {self : Coalescer} {data : List UInt8} {now : Instant} {call : Call}

-- ============================================================================
-- What a call does
-- ============================================================================

theorem push_of_le (h : self.maxChunk ≤ (self.buf ++ data).length) :
    self.push data now = (some ((self.buf ++ data).take self.maxChunk),
      { self with buf := (self.buf ++ data).drop self.maxChunk, lastFlush := now }) := if_pos h

theorem push_of_lt (h : (self.buf ++ data).length < self.maxChunk) :
    self.push data now = (none, { self with buf := self.buf ++ data }) :=
  if_neg (Nat.not_le.mpr h)

theorem drainDue_of_due (hne : self.buf ≠ [])
    (hdue : self.flushInterval ≤ durationSince now self.lastFlush) :
    self.drainDue now = (some self.buf, { self with buf := [], lastFlush := now }) := by
  rw [drainDue, if_neg hne, if_pos hdue]
  rfl

theorem drainDue_of_not
    (h : self.buf = [] ∨ ¬ self.flushInterval ≤ durationSince now self.lastFlush) :
    self.drainDue now = (none, self) := by
  unfold drainDue
  split_ifs with hempty hdue
  · rfl
  · exact absurd h (by simp [hempty, hdue])
  · rfl

theorem drainAll_of_ne (hne : self.buf ≠ []) :
    self.drainAll = (some self.buf, { self with buf := [] }) := if_neg hne

theorem drainAll_of_nil (h : self.buf = []) : self.drainAll = (none, self) := if_pos h

@[simp] theorem maxChunk_next (call : Call) : (self.next call).maxChunk = self.maxChunk := by
  cases call <;>
  · simp only [next, Call.run, push, drainDue, drainAll, splitChunk, takeBuffer]
    split_ifs <;> rfl

@[simp] theorem flushInterval_next (call : Call) :
    (self.next call).flushInterval = self.flushInterval := by
  cases call <;>
  · simp only [next, Call.run, push, drainDue, drainAll, splitChunk, takeBuffer]
    split_ifs <;> rfl

/-- A call hands out the front of what is buffered and appended, and keeps the
    rest. -/
theorem conserves (self : Coalescer) (call : Call) :
    self.buf ++ call.data = ((call.run self).1.getD []) ++ (self.next call).buf := by
  cases call with
  | push data now =>
      rw [next, Call.run]
      rcases Nat.lt_or_ge (self.buf ++ data).length self.maxChunk with h | h
      · rw [push_of_lt h]
        rfl
      · rw [push_of_le h]
        exact (List.take_append_drop _ _).symm
  | drainDue now =>
      rw [next, Call.run, Call.data, List.append_nil]
      by_cases h : self.buf = [] ∨ ¬ self.flushInterval ≤ durationSince now self.lastFlush
      · rw [drainDue_of_not h]
        rfl
      · obtain ⟨hne, hdue⟩ := not_or.mp h
        rw [drainDue_of_due hne (not_not.mp hdue)]
        exact (List.append_nil _).symm
  | drainAll =>
      rw [next, Call.run, Call.data, List.append_nil]
      by_cases h : self.buf = []
      · rw [drainAll_of_nil h]
        rfl
      · rw [drainAll_of_ne h]
        exact (List.append_nil _).symm

/-- No call returns an empty chunk. -/
theorem ne_nil_of_run (h : 1 ≤ self.maxChunk) {chunk : List UInt8}
    (hchunk : (call.run self).1 = some chunk) : chunk ≠ [] := by
  cases call with
  | push data now =>
      rw [Call.run] at hchunk
      rcases Nat.lt_or_ge (self.buf ++ data).length self.maxChunk with hlt | hle
      · rw [push_of_lt hlt] at hchunk
        cases hchunk
      · rw [push_of_le hle] at hchunk
        obtain rfl := Option.some.inj hchunk
        refine List.ne_nil_of_length_pos ?_
        rw [List.length_take, Nat.min_eq_left hle]
        exact h
  | drainDue now =>
      rw [Call.run] at hchunk
      by_cases hdue : self.buf = [] ∨ ¬ self.flushInterval ≤ durationSince now self.lastFlush
      · rw [drainDue_of_not hdue] at hchunk
        cases hchunk
      · obtain ⟨hne, hdue⟩ := not_or.mp hdue
        rw [drainDue_of_due hne (not_not.mp hdue)] at hchunk
        rwa [← Option.some.inj hchunk]
  | drainAll =>
      rw [Call.run] at hchunk
      by_cases hempty : self.buf = []
      · rw [drainAll_of_nil hempty] at hchunk
        cases hchunk
      · rw [drainAll_of_ne hempty] at hchunk
        rwa [← Option.some.inj hchunk]

/-- The coalescer is a buffer of bytes. -/
def fifo : Fifo Coalescer Call UInt8 where
  step := next
  held := buf
  input := Call.data
  output self call := (call.run self).1.getD []
  conserves := conserves

/-- In any run of calls nothing that is pushed is lost, or handed out out of order. -/
theorem buf_run (self : Coalescer) (calls : List Call) :
    self.buf ++ fifo.inputs calls = fifo.outputs self calls ++ (Machine.run next self calls).buf :=
  fifo.conserve self calls

-- ============================================================================
-- The bound
-- ============================================================================

/-- The chunk that the call returns, if any, is not empty and keeps to the bound. -/
def Bounded (self : Coalescer) (call : Call) : Prop :=
  ∀ chunk, (call.run self).1 = some chunk → chunk ≠ [] ∧ chunk.length ≤ self.maxChunk

/-- The call does not drain a buffer that has outgrown the bound. -/
def Fits (self : Coalescer) : Call → Prop
  | .push _ _ => True
  | .drainDue now =>
      self.flushInterval ≤ durationSince now self.lastFlush → self.buf.length ≤ self.maxChunk
  | .drainAll => self.buf.length ≤ self.maxChunk

theorem length_of_push {chunk : List UInt8} (hchunk : (self.push data now).1 = some chunk) :
    chunk.length ≤ self.maxChunk := by
  rcases Nat.lt_or_ge (self.buf ++ data).length self.maxChunk with hlt | hle
  · rw [push_of_lt hlt] at hchunk
    cases hchunk
  · rw [push_of_le hle] at hchunk
    rw [← Option.some.inj hchunk]
    exact List.length_take_le _ _

/-- A call keeps to the bound if it fits, and only then. -/
theorem bounded_iff_fits (h : 1 ≤ self.maxChunk) : Bounded self call ↔ Fits self call := by
  have hne : ∀ chunk, (call.run self).1 = some chunk → chunk ≠ [] := fun _ => ne_nil_of_run h
  cases call with
  | push data now =>
      exact iff_of_true (fun chunk hchunk => ⟨hne chunk hchunk, length_of_push hchunk⟩) trivial
  | drainDue now =>
      by_cases hdue : self.buf = [] ∨ ¬ self.flushInterval ≤ durationSince now self.lastFlush
      · have hnone : (Call.drainDue now).run self = _ := drainDue_of_not hdue
        refine iff_of_true (fun chunk hchunk => ?_) fun hle => ?_
        · rw [hnone] at hchunk
          cases hchunk
        · rcases hdue with hempty | hnot
          · rw [hempty]
            exact Nat.zero_le _
          · exact absurd hle hnot
      · obtain ⟨hfull, hdue⟩ := not_or.mp hdue
        have hdrain : (Call.drainDue now).run self = _ := drainDue_of_due hfull (not_not.mp hdue)
        simp [Bounded, Fits, hdrain, not_not.mp hdue, hfull]
  | drainAll =>
      by_cases hempty : self.buf = []
      · have hnone : Call.drainAll.run self = _ := drainAll_of_nil hempty
        simp [Bounded, Fits, hnone, hempty]
      · have hdrain : Call.drainAll.run self = _ := drainAll_of_ne hempty
        simp [Bounded, Fits, hdrain, hempty]

@[simp] theorem maxChunk_run (calls : List Call) :
    (Machine.run next self calls).maxChunk = self.maxChunk := by
  induction calls generalizing self with
  | nil => rfl
  | cons call calls ih => rw [Machine.run_cons, ih, maxChunk_next]

/-- Every chunk that a run of calls returns is not empty and has at most `maxChunk`
    bytes, just when no drain of the run finds more than `maxChunk` bytes to hand
    out. -/
theorem chunks_bounded_iff (maxChunk : Nat) (flushInterval : Duration) (start : Instant)
    (h : 1 ≤ maxChunk) (calls : List Call) :
    Machine.Along next Bounded (new maxChunk flushInterval start) calls ↔
      Machine.Along next Fits (new maxChunk flushInterval start) calls := by
  have hpos : ∀ pre, 1 ≤ (Machine.run next (new maxChunk flushInterval start) pre).maxChunk := by
    intro pre
    rw [maxChunk_run]
    exact h
  constructor
  · exact fun hall pre call post hsplit =>
      (bounded_iff_fits (hpos pre)).mp (hall pre call post hsplit)
  · exact fun hall pre call post hsplit =>
      (bounded_iff_fits (hpos pre)).mpr (hall pre call post hsplit)

/-- Three bytes of at most eight. -/
theorem chunks_bounded_small :
    Machine.Along next Bounded (new 8 10 0) [.push [1, 2, 3] 0, .drainAll] := by
  refine (chunks_bounded_iff 8 10 0 (by decide) _).mpr ?_
  rw [Machine.along_cons, Machine.along_cons]
  exact ⟨trivial, by simp [Fits, next, Call.run, push, new], Machine.along_nil⟩

/-- Twenty-four bytes in one push: eight are split off, and the drain hands out the
    other sixteen in one chunk. -/
theorem drained_oversized :
    ¬ Machine.Along next Bounded (new 8 10 0)
      [.push (List.replicate 24 0) 0, .drainAll] := by
  intro hall
  have hdrain := hall [.push (List.replicate 24 0) 0] .drainAll [] rfl (List.replicate 16 0)
    (by decide)
  exact absurd hdrain.2 (by decide)

/-- Pushes of at most `maxChunk` bytes never leave more than that. -/
theorem fits_of_pushes_le {calls : List Call} (hpos : 1 ≤ self.maxChunk)
    (hbuf : self.buf.length < self.maxChunk)
    (h : ∀ call ∈ calls, call.data.length ≤ self.maxChunk) :
    Machine.Along next Fits self calls := by
  induction calls generalizing self with
  | nil => exact Machine.along_nil
  | cons call calls ih =>
      have hfits : Fits self call := by
        cases call with
        | push data now => trivial
        | drainDue now => exact fun _ => hbuf.le
        | drainAll => exact hbuf.le
      rw [Machine.along_cons]
      refine ⟨hfits, ih (by simpa) ?_ fun c hc => ?_⟩
      · rw [maxChunk_next]
        have hdata := h call List.mem_cons_self
        cases call with
        | push data now =>
            rw [next, Call.run]
            rw [Call.data] at hdata
            rcases Nat.lt_or_ge (self.buf ++ data).length self.maxChunk with hlt | hle
            · rwa [push_of_lt hlt]
            · rw [push_of_le hle]
              simp only [List.length_drop, List.length_append] at hle ⊢
              omega
        | drainDue now =>
            by_cases hdue : self.buf = [] ∨
              ¬ self.flushInterval ≤ durationSince now self.lastFlush
            · rwa [next, Call.run, drainDue_of_not hdue]
            · obtain ⟨hne, hdue⟩ := not_or.mp hdue
              rw [next, Call.run, drainDue_of_due hne (not_not.mp hdue)]
              exact hpos
        | drainAll =>
            by_cases hempty : self.buf = []
            · rwa [next, Call.run, drainAll_of_nil hempty]
            · rw [next, Call.run, drainAll_of_ne hempty]
              exact hpos
      · rw [maxChunk_next]
        exact h c (List.mem_cons_of_mem _ hc)

end Coalescer

end Spectty.Adapters
