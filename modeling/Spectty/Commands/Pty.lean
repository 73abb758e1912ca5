/-
  Spectty.Commands.Pty

  The render forwarder: it takes the slices that the read thread sends, batches
  them, and sends the chunks over the output channel.

  `forwards_all` says that the chunks are the slices, cut anew.  The flush interval
  is looked at only when a receive times out, so a slice waits for as long as
  other slices keep coming (`trickle_waits`); `prompt_iff` says in which runs every
  byte is handed out in time.
-/

import Spectty.SessionRuntime
import Spectty.Adapters.Coalescer

namespace Spectty.Commands

open Spectty.Adapters
open Spectty.Lib
open Spectty.Lib.Fifo (inputs_nil inputs_append outputs_concat inputs_prefix_outputs_iff)

/-- What the forwarder does after a receive. -/
inductive ForwardAction where
  | continue (chunk : Option (List UInt8))
  | exit (chunk : Option (List UInt8))
deriving DecidableEq, Repr

/-- The decision of one step. -/
def forwardStep (coalescer : Coalescer) (outcome : Recv) (now : Instant) :
    ForwardAction × Coalescer :=
  match outcome with
  | .slice bytes =>
      let (chunk, coalescer) := coalescer.push bytes now
      (.continue chunk, coalescer)
  | .timeout =>
      let (chunk, coalescer) := coalescer.drainDue now
      (.continue chunk, coalescer)
  | .disconnected =>
      let (chunk, coalescer) := coalescer.drainAll
      (.exit chunk, coalescer)

/-- One round of the forwarder's environment: what the receive gave, the clock
    after it, and whether the output channel accepts a chunk. -/
structure Round where
  outcome : Recv
  now : Instant
  accepts : Bool
deriving DecidableEq, Repr

/-- What the UI gets from the forwarder. -/
inductive RenderEvent where
  | output (chunk : List UInt8)
  | ptyExit
deriving DecidableEq, Repr

/-- The forwarder's loop, over the rounds of its environment. -/
def renderForwarder : Coalescer → List Round → List RenderEvent
  | _, [] => []
  | coalescer, round :: rounds =>
      match forwardStep coalescer round.outcome round.now with
      | (.continue (some chunk), coalescer) =>
          if round.accepts then .output chunk :: renderForwarder coalescer rounds
          else [.ptyExit]
      | (.continue none, coalescer) => renderForwarder coalescer rounds
      | (.exit (some chunk), _) =>
          if round.accepts then [.output chunk, .ptyExit] else [.ptyExit]
      | (.exit none, _) => [.ptyExit]

-- ============================================================================
-- The forwarder as a buffer
-- ============================================================================

/-- The call that a step makes on the coalescer. -/
def Round.call (round : Round) : Coalescer.Call :=
  match round.outcome with
  | .slice bytes => .push bytes round.now
  | .timeout => .drainDue round.now
  | .disconnected => .drainAll

/-- The chunk of an action. -/
def ForwardAction.chunk : ForwardAction → Option (List UInt8)
  | .continue chunk | .exit chunk => chunk

theorem chunk_forwardStep (coalescer : Coalescer) (round : Round) :
    (forwardStep coalescer round.outcome round.now).1.chunk = (round.call.run coalescer).1 := by
  obtain ⟨outcome, now, accepts⟩ := round
  cases outcome <;> rfl

theorem snd_forwardStep (coalescer : Coalescer) (round : Round) :
    (forwardStep coalescer round.outcome round.now).2 = coalescer.next round.call := by
  obtain ⟨outcome, now, accepts⟩ := round
  cases outcome <;> rfl

/-- Slices go in, chunks come out. -/
def forwarding : Fifo Coalescer Round UInt8 where
  step coalescer round := (forwardStep coalescer round.outcome round.now).2
  held := Coalescer.buf
  input round := round.call.data
  output coalescer round := (forwardStep coalescer round.outcome round.now).1.chunk.getD []
  conserves coalescer round := by
    rw [chunk_forwardStep, snd_forwardStep]
    exact Coalescer.conserves coalescer round.call

/-- The bytes of the slices received. -/
abbrev received (rounds : List Round) : List UInt8 := forwarding.inputs rounds

/-- The bytes of the chunks handed out. -/
abbrev handedOut (coalescer : Coalescer) (rounds : List Round) : List UInt8 :=
  forwarding.outputs coalescer rounds

-- ============================================================================
-- Nothing is lost
-- ============================================================================

/-- A step that is no disconnect continues. -/
theorem forwardStep_continue (coalescer : Coalescer) {round : Round}
    (h : round.outcome ≠ .disconnected) :
    forwardStep coalescer round.outcome round.now =
      (.continue (round.call.run coalescer).1, coalescer.next round.call) := by
  obtain ⟨outcome, now, accepts⟩ := round
  cases outcome with
  | slice bytes => rfl
  | timeout => rfl
  | disconnected => exact absurd rfl h

theorem forwardStep_disconnected (coalescer : Coalescer) (now : Instant) :
    forwardStep coalescer .disconnected now =
      (.exit coalescer.drainAll.1, coalescer.drainAll.2) := rfl

/-- The last round hands out what is left. -/
theorem renderForwarder_disconnected (coalescer : Coalescer) {last : Round}
    (h : last.outcome = .disconnected) (haccepts : last.accepts = true) :
    ∃ chunks : List (List UInt8), renderForwarder coalescer [last] =
        chunks.map .output ++ [.ptyExit] ∧
      chunks.flatten = coalescer.buf ∧ ∀ chunk ∈ chunks, chunk ≠ [] := by
  rw [renderForwarder, h, forwardStep_disconnected]
  by_cases hempty : coalescer.buf = []
  · rw [Coalescer.drainAll_of_nil hempty]
    exact ⟨[], rfl, hempty.symm, by simp⟩
  · rw [Coalescer.drainAll_of_ne hempty]
    refine ⟨[coalescer.buf], ?_, List.flatten_singleton, by simpa using hempty⟩
    simp [haccepts]

/-- The chunks that the forwarder sends over a channel that accepts them all are the
    slices it received, in order, and none is empty. -/
theorem forwards_all (maxChunk : Nat) (flushInterval : Duration) (start : Instant)
    (hpos : 1 ≤ maxChunk) (rounds : List Round) (last : Round)
    (hrounds : ∀ round ∈ rounds, round.outcome ≠ .disconnected)
    (hlast : last.outcome = .disconnected)
    (haccepts : ∀ round ∈ rounds ++ [last], round.accepts = true) :
    ∃ chunks : List (List UInt8),
      renderForwarder (.new maxChunk flushInterval start) (rounds ++ [last]) =
        chunks.map .output ++ [.ptyExit] ∧
      chunks.flatten = received rounds ∧ ∀ chunk ∈ chunks, chunk ≠ [] := by
  suffices hall : ∀ coalescer : Coalescer, 1 ≤ coalescer.maxChunk →
      ∃ chunks : List (List UInt8), renderForwarder coalescer (rounds ++ [last]) =
          chunks.map .output ++ [.ptyExit] ∧
        chunks.flatten = coalescer.buf ++ received rounds ∧ ∀ chunk ∈ chunks, chunk ≠ [] from
    hall (.new maxChunk flushInterval start) hpos
  induction rounds with
  | nil =>
      intro coalescer _
      obtain ⟨chunks, hsent, hbytes, hne⟩ :=
        renderForwarder_disconnected coalescer hlast (haccepts last (by simp))
      exact ⟨chunks, hsent, by rw [hbytes, received, inputs_nil, List.append_nil], hne⟩
  | cons round rounds ih =>
      intro coalescer hpos
      have hne : ∀ bytes, (round.call.run coalescer).1 = some bytes → bytes ≠ [] :=
        fun _ => Coalescer.ne_nil_of_run hpos
      have hconserves := Coalescer.conserves coalescer round.call
      obtain ⟨chunks, hsent, hbytes, hchunks⟩ := ih
        (fun r hr => hrounds r (List.mem_cons_of_mem _ hr))
        (fun r hr => haccepts r (List.mem_cons_of_mem _ hr)) (coalescer.next round.call) (by simpa)
      have hall : (round.call.run coalescer).1.getD [] ++ chunks.flatten =
          coalescer.buf ++ received (round :: rounds) := by
        rw [hbytes, ← List.append_assoc, ← hconserves, List.append_assoc]
        rfl
      rw [List.cons_append, renderForwarder,
        forwardStep_continue coalescer (hrounds round List.mem_cons_self)]
      cases hchunk : (round.call.run coalescer).1 with
      | none =>
          rw [hchunk] at hall
          exact ⟨chunks, hsent, hall, hchunks⟩
      | some bytes =>
          rw [hchunk] at hall
          refine ⟨bytes :: chunks, ?_, hall, List.forall_mem_cons.mpr ⟨hne bytes hchunk, hchunks⟩⟩
          simp only [haccepts round List.mem_cons_self, if_true, hsent, List.map_cons,
            List.cons_append]

/-- Two slices, the first of them cut. -/
theorem forwards_all_two :
    ∃ chunks : List (List UInt8),
      renderForwarder (.new 2 8 0)
          ([⟨.slice [1, 2, 3], 0, true⟩, ⟨.slice [4], 1, true⟩] ++ [⟨.disconnected, 2, true⟩]) =
        chunks.map .output ++ [.ptyExit] ∧
      chunks.flatten = [1, 2, 3, 4] ∧ ∀ chunk ∈ chunks, chunk ≠ [] :=
  forwards_all 2 8 0 (by decide) [⟨.slice [1, 2, 3], 0, true⟩, ⟨.slice [4], 1, true⟩]
    ⟨.disconnected, 2, true⟩ (by simp) rfl (by simp)

-- ============================================================================
-- In time
-- ============================================================================

/-- The coalescer after some rounds. -/
abbrev afterRounds (coalescer : Coalescer) (rounds : List Round) : Coalescer :=
  Machine.run forwarding.step coalescer rounds

/-- By the end of each step, the slices of the flush interval or more before it
    have been handed out. -/
def Prompt (coalescer : Coalescer) (rounds : List Round) : Prop :=
  ∀ before slice between step after,
    rounds = before ++ slice :: between ++ step :: after →
    slice.now + coalescer.flushInterval ≤ step.now →
    received (before ++ [slice]) <+: handedOut coalescer (before ++ slice :: between ++ [step])

/-- The bytes of the slices that are due at a time. -/
def due (interval : Duration) (before : List Round) (now : Instant) : List UInt8 :=
  received (before.filter fun round => round.now + interval ≤ now)

/-- How many bytes are due, and still in the buffer. -/
def overdue (coalescer : Coalescer) (before : List Round) (now : Instant) : Nat :=
  (due coalescer.flushInterval before now).length - (handedOut coalescer before).length

/-- A step that finds bytes overdue hands them out: it is the disconnect, or a timeout
    with the interval elapsed since the last flush, or a slice that fills a chunk
    with all of them in it. -/
def OnTime (coalescer : Coalescer) (before : List Round) (step : Round) : Prop :=
  let found := afterRounds coalescer before
  overdue coalescer before step.now = 0 ∨
    match step.outcome with
    | .slice bytes => found.maxChunk ≤ found.buf.length + bytes.length ∧
        overdue coalescer before step.now ≤ found.maxChunk
    | .timeout => found.flushInterval ≤ durationSince step.now found.lastFlush
    | .disconnected => True

section

variable {coalescer : Coalescer} {rounds before : List Round} {step : Round}

/-- What a step hands out, against a number of bytes in the buffer. -/
theorem le_output_iff {n : Nat} (hn : n ≤ coalescer.buf.length) :
    n ≤ (forwarding.output coalescer step).length ↔
      n = 0 ∨
        match step.outcome with
        | .slice bytes =>
            coalescer.maxChunk ≤ coalescer.buf.length + bytes.length ∧ n ≤ coalescer.maxChunk
        | .timeout => coalescer.flushInterval ≤ durationSince step.now coalescer.lastFlush
        | .disconnected => True := by
  obtain ⟨outcome, now, accepts⟩ := step
  show n ≤ ((forwardStep coalescer outcome now).1.chunk.getD []).length ↔ _
  cases outcome with
  | slice bytes =>
      show n ≤ ((coalescer.push bytes now).1.getD []).length ↔ _
      rcases Nat.lt_or_ge (coalescer.buf ++ bytes).length coalescer.maxChunk with hlt | hle
      · rw [Coalescer.push_of_lt hlt]
        simp only [List.length_append, Option.getD_none, List.length_nil] at hlt ⊢
        omega
      · rw [Coalescer.push_of_le hle]
        simp only [List.length_append, Option.getD_some, List.length_take] at hle ⊢
        omega
  | timeout =>
      show n ≤ ((coalescer.drainDue now).1.getD []).length ↔ _
      by_cases hempty : coalescer.buf = []
      · rw [hempty, List.length_nil] at hn
        exact iff_of_true (by omega) (.inl (by omega))
      · by_cases hdue : coalescer.flushInterval ≤ durationSince now coalescer.lastFlush
        · rw [Coalescer.drainDue_of_due hempty hdue]
          exact iff_of_true hn (.inr hdue)
        · rw [Coalescer.drainDue_of_not (.inr hdue)]
          simp [hdue]
  | disconnected =>
      show n ≤ (coalescer.drainAll.1.getD []).length ↔ _
      refine iff_of_true ?_ (.inr trivial)
      by_cases hempty : coalescer.buf = []
      · rw [hempty] at hn
        exact hn.trans (Nat.zero_le _)
      · rw [Coalescer.drainAll_of_ne hempty]
        exact hn

/-- Where an element that passes has only such elements before it, those that pass
    are the beginning of the list. -/
theorem filter_isPrefix {α : Type} {p : α → Bool} {l : List α}
    (h : l.Pairwise fun a b => p b = true → p a = true) : l.filter p <+: l := by
  induction h with
  | nil => exact List.prefix_rfl
  | @cons a l ha hl ih =>
      cases hp : p a with
      | true =>
          rw [List.filter_cons_of_pos hp]
          exact (List.prefix_cons_inj a).mpr ih
      | false =>
          have hnone : (a :: l).filter p = [] := by
            rw [List.filter_eq_nil_iff]
            intro b hb hpb
            rcases List.mem_cons.mp hb with rfl | hb
            · exact absurd hpb (by simp [hp])
            · exact absurd (ha b hb hpb) (by simp [hp])
          rw [hnone]
          exact List.nil_prefix

/-- Rounds whose clock does not go back. -/
def Chronological (rounds : List Round) : Prop := rounds.Pairwise fun a b => a.now ≤ b.now

theorem due_isPrefix (interval : Duration) (now : Instant) (h : Chronological before) :
    before.filter (fun round => round.now + interval ≤ now) <+: before := by
  refine filter_isPrefix (h.imp fun {a b} hab hb => ?_)
  simp only [decide_eq_true_eq] at hb ⊢
  exact (Nat.add_le_add_right hab interval).trans hb

theorem overdue_le_buf (hbuf : coalescer.buf = []) (h : Chronological before) (now : Instant) :
    overdue coalescer before now ≤ (afterRounds coalescer before).buf.length := by
  have hall := congrArg List.length (forwarding.conserve coalescer before)
  have hempty : forwarding.held coalescer = [] := hbuf
  obtain ⟨rest, hrest⟩ := due_isPrefix coalescer.flushInterval now h
  have hreceived : received before =
      due coalescer.flushInterval before now ++ received rest := by
    rw [due, ← inputs_append, hrest]
  rw [hempty, List.nil_append, show forwarding.inputs before = _ from hreceived,
    List.length_append, List.length_append] at hall
  exact Nat.sub_le_of_le_add (Nat.le_of_add_right_le (hall.le.trans_eq (Nat.add_comm _ _)))

/-- A step is on time when it hands out what is overdue. -/
theorem onTime_iff (hbuf : coalescer.buf = []) (h : Chronological before) :
    OnTime coalescer before step ↔
      (due coalescer.flushInterval before step.now).length ≤
        (handedOut coalescer (before ++ [step])).length := by
  have hout : handedOut coalescer (before ++ [step]) = handedOut coalescer before ++
      forwarding.output (afterRounds coalescer before) step := outputs_concat _ _ _
  rw [OnTime, ← le_output_iff (overdue_le_buf hbuf h step.now), overdue, hout,
    List.length_append]
  exact Nat.sub_le_iff_le_add'

/-- Every slice is handed out by the end of any step that comes the flush interval
    or more after it, just when every step that finds bytes overdue is the disconnect,
    or a timeout with the interval elapsed since the last flush, or a slice that fills
    a chunk with all of them in it. -/
theorem prompt_iff (maxChunk : Nat) (flushInterval : Duration) (start : Instant)
    (rounds : List Round) (hclock : Chronological rounds) :
    Prompt (.new maxChunk flushInterval start) rounds ↔
      ∀ before step after, rounds = before ++ step :: after →
        OnTime (.new maxChunk flushInterval start) before step := by
  generalize hnew : Coalescer.new maxChunk flushInterval start = coalescer
  have hbuf : coalescer.buf = [] := hnew ▸ rfl
  constructor
  · rintro h before step after rfl
    have hbefore : Chronological before := (List.pairwise_append.mp hclock).1
    obtain ⟨rest, hrest⟩ := due_isPrefix coalescer.flushInterval step.now hbefore
    rw [onTime_iff hbuf hbefore, due]
    rcases List.eq_nil_or_concat' (before.filter fun round =>
      round.now + coalescer.flushInterval ≤ step.now) with hnone | ⟨early, slice, hearly⟩
    · rw [hnone]
      exact Nat.zero_le _
    · have hslice : slice.now + coalescer.flushInterval ≤ step.now := by
        have hmem : slice ∈ before.filter fun round =>
            round.now + coalescer.flushInterval ≤ step.now := by simp [hearly]
        simpa using (List.mem_filter.mp hmem).2
      rw [hearly] at hrest ⊢
      have hsplit : before = early ++ slice :: rest := by simp [← hrest]
      have hout := h early slice rest step after (by simp [hsplit]) hslice
      rw [← hsplit] at hout
      exact hout.length_le
  · rintro h before slice between step after rfl hdue
    have hall : Chronological (before ++ slice :: between) := (List.pairwise_append.mp hclock).1
    have hontime := (onTime_iff hbuf hall).mp (h _ step after rfl)
    have hearly : ∀ round ∈ before, round.now + coalescer.flushInterval ≤ step.now := by
      intro round hround
      have hround := (List.pairwise_append.mp hall).2.2 round hround slice List.mem_cons_self
      exact (Nat.add_le_add_right hround _).trans hdue
    have hfilter : due coalescer.flushInterval (before ++ slice :: between) step.now =
        received (before ++ [slice]) ++ due coalescer.flushInterval between step.now := by
      rw [due, List.filter_append, List.filter_cons_of_pos (by simpa using hdue),
        List.filter_eq_self.mpr (by simpa using hearly), due, ← inputs_append]
      simp
    rw [hfilter, List.length_append] at hontime
    have hempty : forwarding.held coalescer = [] := hbuf
    refine (inputs_prefix_outputs_iff hempty ?_).mpr (Nat.le_of_add_right_le hontime)
    exact ⟨between ++ [step], by simp⟩

end

/-- A slice, then silence. -/
theorem prompt_quiet :
    Prompt (.new 8 8 0) [⟨.slice [1], 0, true⟩, ⟨.timeout, 8, true⟩] := by
  refine (prompt_iff 8 8 0 _ (by simp [Chronological])).mpr ?_
  rintro before step after hsplit
  rcases before with - | ⟨slice, - | ⟨_, before⟩⟩
  · obtain ⟨rfl, -⟩ := List.cons_eq_cons.mp hsplit
    exact .inl rfl
  · obtain ⟨rfl, -⟩ := List.cons_eq_cons.mp (List.tail_eq_of_cons_eq hsplit)
    obtain rfl := List.head_eq_of_cons_eq hsplit
    exact .inr (by decide : 8 ≤ 8)
  · simp at hsplit

/-- A byte every five: at ten, the byte of the beginning is still in the buffer. -/
theorem trickle_waits :
    let rounds : List Round :=
      [⟨.slice [1], 0, true⟩, ⟨.slice [2], 5, true⟩, ⟨.slice [3], 10, true⟩]
    Chronological rounds ∧ ¬ Prompt (.new 8 8 0) rounds := by
  refine ⟨by simp [Chronological], fun h => ?_⟩
  have hout := h [] ⟨.slice [1], 0, true⟩ [⟨.slice [2], 5, true⟩] ⟨.slice [3], 10, true⟩ [] rfl
    (by decide)
  exact absurd hout (by decide)

end Spectty.Commands
