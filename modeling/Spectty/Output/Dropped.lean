/-
  Spectty.Output.Dropped

  The signal tee on a full channel.

  The read thread drops the slices that the bounded channel has no room for.  The
  signal thread strips the others as if they followed each other, so a dropped
  slice that opens or closes an escape sequence changes how the later ones are
  read (`parameters_leak`).  `window_of_survivors` says in which runs only the text
  of the dropped slices is missing, and `aligned_iff` that no weaker condition on
  the machine will do.
-/

import Spectty.Lib.Machine
import Spectty.Output.Window
import Spectty.Status.Rounds

namespace Spectty.Output

open Spectty.Adapters
open Spectty.Adapters.OutputSignalProducer
open Spectty.Lib
open Spectty.Lib.Window
open Spectty.Status

-- ============================================================================
-- The tee
-- ============================================================================

/-- The capacity of a session's signal channel. -/
def signalChannelCap : Nat := 64

/-- Queue a slice if the channel has room for it, and drop it otherwise. -/
def signalTrySend (cap : Nat) (channel : List (List UInt8)) (slice : List UInt8) :
    Bool × List (List UInt8) :=
  if channel.length < cap then (true, channel ++ [slice]) else (false, channel)

/-- The channel, and the producer of the signal thread. -/
structure SignalTee where
  channel : List (List UInt8)
  producer : OutputSignalProducer
deriving DecidableEq, Repr

/-- A step of one of the two threads: the read thread tees a slice, or the signal
    thread receives one and ingests it. -/
inductive TeeStep where
  | read (slice : List UInt8)
  | receive
deriving DecidableEq, Repr

/-- A slice, and whether it was queued. -/
abbrev Teed := List UInt8 × Bool

namespace SignalTee

def start (windowBytes : Nat) : SignalTee where
  channel := []
  producer := .new windowBytes

def next (cap : Nat) (tee : SignalTee) : TeeStep → SignalTee
  | .read slice => { tee with channel := (signalTrySend cap tee.channel slice).2 }
  | .receive =>
      match tee.channel with
      | [] => tee
      | slice :: channel => { channel, producer := tee.producer.ingest slice }

/-- The slices read, in order. -/
def teed (cap : Nat) : SignalTee → List TeeStep → List Teed
  | _, [] => []
  | tee, .read slice :: steps =>
      (slice, (signalTrySend cap tee.channel slice).1) ::
        teed cap (tee.next cap (.read slice)) steps
  | tee, .receive :: steps => teed cap (tee.next cap .receive) steps

/-- The producer once the signal thread has received what is in the channel. -/
def drained (tee : SignalTee) : OutputSignalProducer := tee.channel.foldl ingest tee.producer

end SignalTee

/-- The slices that were not dropped. -/
def survivors (slices : List Teed) : List (List UInt8) :=
  (slices.filter Prod.snd).map Prod.fst

/-- The text that the slices not dropped contribute when nothing is dropped. -/
def contributed : AnsiState → List Teed → List UInt8
  | _, [] => []
  | s, (slice, queued) :: slices =>
      (if queued then kept s slice else []) ++ contributed (slice.foldl next s) slices

/-- The stripper's machine, and where it would be had nothing been dropped. -/
structure Machines where
  actual : AnsiState
  nominal : AnsiState
deriving DecidableEq, Repr

/-- A dropped slice moves only the second. -/
def Machines.next (m : Machines) (slice : Teed) : Machines where
  actual := if slice.2 then slice.1.foldl Output.next m.actual else m.actual
  nominal := slice.1.foldl Output.next m.nominal

/-- Every slice that is not dropped finds the machine where it would be had nothing
    been dropped. -/
def Aligned (m : Machines) (slices : List Teed) : Prop :=
  Machine.Along Machines.next (fun m slice => slice.2 = true → m.actual = m.nominal) m slices

section

variable {m : Machines} {s t : AnsiState} {slices : List Teed} {slice : List UInt8} {queued : Bool}

-- ============================================================================
-- What the producer ingests
-- ============================================================================

/-- The producer of the signal loop ingests the slices of its rounds. -/
theorem producer_after (J : SerdeJson) (st : SignalState) (ticks : List Tick) :
    (SignalState.after J st ticks).producer =
      (ticks.filterMap fun tick =>
        match tick.outcome with
        | .slice bytes => some bytes
        | _ => none).foldl ingest st.producer := by
  induction ticks generalizing st with
  | nil => rfl
  | cons tick ticks ih =>
      rw [SignalState.after, List.foldl_cons, ← SignalState.after, ih, List.filterMap_cons]
      unfold SignalState.next
      cases tick.outcome <;> rfl

theorem survivors_cons_queued : survivors ((slice, true) :: slices) = slice :: survivors slices :=
  rfl

theorem survivors_cons_dropped : survivors ((slice, false) :: slices) = survivors slices := rfl

/-- The slices that are not dropped are ingested, in order. -/
theorem drained_run (cap : Nat) (tee : SignalTee) (steps : List TeeStep) :
    (Machine.run (SignalTee.next cap) tee steps).drained =
      (survivors (tee.teed cap steps)).foldl ingest tee.drained := by
  induction steps generalizing tee with
  | nil => rfl
  | cons step steps ih =>
      rw [Machine.run_cons, ih]
      cases step with
      | read slice =>
          by_cases hroom : tee.channel.length < cap
          · have hsend : signalTrySend cap tee.channel slice = (true, tee.channel ++ [slice]) :=
              if_pos hroom
            rw [SignalTee.teed, hsend, survivors_cons_queued, List.foldl_cons]
            congr 1
            rw [SignalTee.next, hsend, SignalTee.drained, List.foldl_concat]
            rfl
          · have hsend : signalTrySend cap tee.channel slice = (false, tee.channel) :=
              if_neg hroom
            rw [SignalTee.teed, hsend, survivors_cons_dropped]
            congr 1
            rw [SignalTee.next, hsend]
      | receive =>
          obtain ⟨channel, producer⟩ := tee
          cases channel <;> rfl

/-- While the text fits, the window is the text. -/
theorem window_foldl_ingest {windowBytes : Nat} {chunks : List (List UInt8)}
    (h : (kept .ground chunks.flatten).length ≤ windowBytes) :
    (chunks.foldl ingest (new windowBytes)).window = kept .ground chunks.flatten := by
  rw [foldl_ingest]
  show (keptChunks .ground chunks).foldl
    (fun window chunk => keep windowBytes isContinuation (window ++ chunk)) [] = _
  rw [← flatten_keptChunks] at h ⊢
  exact foldl_keep_of_length_le h

-- ============================================================================
-- Whose text it is
-- ============================================================================

/-- Where the slices not dropped find the machine in place, they contribute what
    they contribute when nothing is dropped. -/
theorem kept_survivors (h : Aligned m slices) :
    kept m.actual (survivors slices).flatten = contributed m.nominal slices := by
  induction slices generalizing m with
  | nil => rfl
  | cons teed slices ih =>
      obtain ⟨slice, queued⟩ := teed
      obtain ⟨hplace, hrest⟩ := Machine.along_cons.mp h
      cases queued with
      | true =>
          obtain ⟨actual, nominal⟩ := m
          obtain rfl : actual = nominal := hplace rfl
          rw [survivors_cons_queued, List.flatten_cons, kept_append, contributed, if_pos rfl]
          exact congrArg _ (ih hrest)
      | false =>
          rw [survivors_cons_dropped, contributed]
          exact ih hrest

/-- Slices contribute at most what all of them contribute. -/
theorem contributed_sublist (s : AnsiState) (slices : List Teed) :
    (contributed s slices).Sublist (kept s (slices.map Prod.fst).flatten) := by
  induction slices generalizing s with
  | nil => exact List.Sublist.refl _
  | cons teed slices ih =>
      rw [contributed, List.map_cons, List.flatten_cons, kept_append]
      refine List.Sublist.append ?_ (ih _)
      split
      · exact List.Sublist.refl _
      · exact List.nil_sublist _

/-- Once the signal thread has received what is in the channel, the window is the text
    that the slices not dropped contribute when nothing is dropped, where each of
    them comes when the bytes not dropped so far leave the stripper's machine where all
    the bytes so far would. -/
theorem window_of_survivors (cap windowBytes : Nat) (steps : List TeeStep)
    (hfits : (kept .ground
      (((SignalTee.start windowBytes).teed cap steps).map Prod.fst).flatten).length ≤ windowBytes)
    (h : Aligned ⟨.ground, .ground⟩ ((SignalTee.start windowBytes).teed cap steps)) :
    (Machine.run (SignalTee.next cap) (.start windowBytes) steps).drained.window =
      contributed .ground ((SignalTee.start windowBytes).teed cap steps) := by
  have htext := kept_survivors h
  rw [drained_run]
  refine (window_foldl_ingest ?_).trans htext
  rw [htext]
  exact (contributed_sublist _ _).length_le.trans hfits

-- ============================================================================
-- No weaker condition
-- ============================================================================

/-- In two states the machine keeps the same of every slice only if they are one. -/
theorem eq_of_kept (h : ∀ bytes, kept s bytes = kept t bytes) : s = t := by
  have hletter := h [0x61]
  have htwo := h [0x61, 0x61]
  have hdigit := h [0x30, 0x61]
  have hslash := h [0x5C, 0x61]
  cases s <;> cases t <;> first
    | rfl
    | exact absurd hletter (by decide)
    | exact absurd htwo (by decide)
    | exact absurd hdigit (by decide)
    | exact absurd hslash (by decide)

theorem contributed_concat (m : Machines) (slices : List Teed) (slice : List UInt8) :
    contributed m.nominal (slices ++ [(slice, true)]) = contributed m.nominal slices ++
      kept (Machine.run Machines.next m slices).nominal slice := by
  induction slices generalizing m with
  | nil => simp [contributed]
  | cons teed slices ih =>
      rw [List.cons_append, contributed, contributed, List.append_assoc]
      exact congrArg _ (ih (m.next teed))

theorem kept_survivors_concat (m : Machines) (slices : List Teed) (slice : List UInt8) :
    kept m.actual (survivors (slices ++ [(slice, true)])).flatten =
      kept m.actual (survivors slices).flatten ++
        kept (Machine.run Machines.next m slices).actual slice := by
  induction slices generalizing m with
  | nil => simp [survivors, kept]
  | cons teed slices ih =>
      obtain ⟨other, queued⟩ := teed
      rw [List.cons_append, Machine.run_cons]
      cases queued with
      | true =>
          rw [survivors_cons_queued, survivors_cons_queued, List.flatten_cons, List.flatten_cons,
            kept_append, kept_append, List.append_assoc]
          exact congrArg _ (ih (m.next (other, true)))
      | false => exact ih (m.next (other, false))

/-- The machine is in place at every slice that is not dropped just when, whatever the
    bytes of that slice are, the text so far is what the slices not dropped contribute
    when nothing is dropped. -/
theorem aligned_iff :
    Aligned m slices ↔ ∀ before slice after, slices = before ++ (slice, true) :: after →
      ∀ other, kept m.actual (survivors (before ++ [(other, true)])).flatten =
        contributed m.nominal (before ++ [(other, true)]) := by
  constructor
  · rintro h before slice after rfl other
    refine kept_survivors (Machine.along_concat.mpr ⟨h.of_prefix (List.prefix_append _ _), ?_⟩)
    exact fun _ => h before (slice, true) after rfl rfl
  · rintro h before ⟨slice, queued⟩ after rfl hqueued
    obtain rfl : queued = true := hqueued
    have htext : ∀ other, kept m.actual (survivors before).flatten ++
        kept (Machine.run Machines.next m before).actual other =
          contributed m.nominal before ++
            kept (Machine.run Machines.next m before).nominal other := by
      intro other
      rw [← kept_survivors_concat, ← contributed_concat]
      exact h before slice after rfl other
    have hsofar : kept m.actual (survivors before).flatten = contributed m.nominal before := by
      simpa [kept] using htext []
    refine eq_of_kept fun other => ?_
    have hother := htext other
    rwa [hsofar, List.append_cancel_left_eq] at hother

end

/-- A dropped slice that is all text. -/
theorem window_of_two :
    (Machine.run (SignalTee.next 1) (.start 8)
      [.read [0x78], .read [0x79], .receive, .read [0x7A]]).drained.window = [0x78, 0x7A] :=
  window_of_survivors 1 8 [.read [0x78], .read [0x79], .receive, .read [0x7A]] (by decide)
    (Machine.along_cons.mpr ⟨fun _ => rfl, Machine.along_cons.mpr ⟨fun h => absurd h (by decide),
      Machine.along_cons.mpr ⟨fun _ => rfl, Machine.along_nil⟩⟩⟩)

/-- The channel is full of slices when `ESC [` comes, and has room again for the `1m`
    after it, which is taken for text. -/
theorem parameters_leak :
    let steps : List TeeStep := List.replicate signalChannelCap (.read [0x78]) ++
      [.read [0x1B, 0x5B], .receive, .read [0x31, 0x6D]]
    let tee := SignalTee.start signalWindowBytes
    let slices := tee.teed signalChannelCap steps
    (kept .ground (slices.map Prod.fst).flatten).length ≤ signalWindowBytes ∧
    (Machine.run (SignalTee.next signalChannelCap) tee steps).drained.window ≠
      contributed .ground slices := by
  decide +kernel

end Spectty.Output
