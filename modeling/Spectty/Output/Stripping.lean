/-
  Spectty.Output.Stripping

  What the ANSI stripper keeps of a stream.

  `kept` is the text the machine appends, apart from the window it is appended
  to (`foldl_step`).  `Item` is a grammar of printable bytes and escape
  sequences; `strips_iff` says for which of its streams the text is the printable
  bytes: an escape with an intermediate byte is over for the machine at
  that byte, so the rest of it is taken for text (`charset_leaks`).
-/

import Spectty.Adapters.OutputSignal
import Mathlib.Data.List.Basic
import Mathlib.Tactic.SplitIfs

namespace Spectty.Output

open Spectty.Adapters
open Spectty.Adapters.OutputSignalProducer

-- ============================================================================
-- The machine without its window
-- ============================================================================

/-- A byte that counts as text outside an escape. -/
def isPrintable (byte : UInt8) : Bool := byte = 0x0A ∨ byte = 0x0D ∨ byte = 0x09 ∨ 0x20 ≤ byte

/-- Where the machine is after a byte. -/
def next (s : AnsiState) (byte : UInt8) : AnsiState :=
  (step { new 0 with ansiState := s } byte).ansiState

/-- What the machine appends at a byte. -/
def append (s : AnsiState) (byte : UInt8) : List UInt8 :=
  if s = .ground ∧ isPrintable byte = true then [byte] else []

/-- What the machine appends along a stream. -/
def kept : AnsiState → List UInt8 → List UInt8
  | _, [] => []
  | s, byte :: rest => append s byte ++ kept (next s byte) rest

theorem step_eq (p : OutputSignalProducer) (byte : UInt8) :
    p.step byte =
      { p with
        ansiState := next p.ansiState byte
        window := p.window ++ append p.ansiState byte } := by
  obtain ⟨window, s, windowBytes, exitCode⟩ := p
  cases s
  case ground =>
    by_cases hesc : byte = 0x1B
    · subst hesc
      simp [step, next, append, isPrintable]
    · by_cases hprint : isPrintable byte = true
      · have h : byte = 0x0A ∨ byte = 0x0D ∨ byte = 0x09 ∨ 0x20 ≤ byte := by
          simpa [isPrintable] using hprint
        simp [step, next, append, hesc, hprint, pushPrintable, h]
      · have h : ¬ (byte = 0x0A ∨ byte = 0x0D ∨ byte = 0x09 ∨ 0x20 ≤ byte) := by
          simpa [isPrintable] using hprint
        simp [step, next, append, hesc, hprint, pushPrintable, h]
  all_goals
    simp only [step, next, append, reduceCtorEq, false_and, if_false, List.append_nil]
    split_ifs <;> rfl

/-- The machine along a stream. -/
theorem foldl_step (bytes : List UInt8) (p : OutputSignalProducer) :
    bytes.foldl step p =
      { p with
        ansiState := bytes.foldl next p.ansiState
        window := p.window ++ kept p.ansiState bytes } := by
  induction bytes generalizing p with
  | nil => simp [kept]
  | cons byte bytes ih =>
      rw [List.foldl_cons, ih, step_eq]
      simp [kept, List.append_assoc]

theorem kept_append (s : AnsiState) (bytes rest : List UInt8) :
    kept s (bytes ++ rest) = kept s bytes ++ kept (bytes.foldl next s) rest := by
  induction bytes generalizing s with
  | nil => rfl
  | cons byte bytes ih => rw [List.cons_append, kept, ih, kept, List.append_assoc, List.foldl_cons]

-- ============================================================================
-- Printable bytes and escape sequences
-- ============================================================================

/-- How an OSC sequence ends. -/
inductive OscEnd where
  /-- `BEL` -/
  | bel
  /-- `ESC \` -/
  | st

def OscEnd.bytes : OscEnd → List UInt8
  | .bel => [0x07]
  | .st => [0x1B, 0x5C]

/-- A final byte of a plain escape: not the introducer of a CSI, OSC, DCS, SOS,
    PM or APC sequence. -/
def isEscapeFinal (byte : UInt8) : Bool :=
  0x30 ≤ byte ∧ byte ≤ 0x7E ∧ byte ∉ [0x5B, 0x5D, 0x50, 0x58, 0x5E, 0x5F]

/-- A printable byte or a complete escape sequence. -/
inductive Item where
  | printable (byte : UInt8) (ok : isPrintable byte = true)
  | csi (params : List UInt8) (final : UInt8) (inside : ∀ b ∈ params, 0x20 ≤ b ∧ b ≤ 0x3F)
      (ends : 0x40 ≤ final ∧ final ≤ 0x7E)
  | osc (text : List UInt8) (terminator : OscEnd) (inside : ∀ b ∈ text, b ≠ 0x07 ∧ b ≠ 0x1B)
  | escape (intermediates : List UInt8) (final : UInt8)
      (inside : ∀ b ∈ intermediates, 0x20 ≤ b ∧ b ≤ 0x2F) (ends : isEscapeFinal final = true)

namespace Item

def bytes : Item → List UInt8
  | printable byte _ => [byte]
  | csi params final _ _ => 0x1B :: 0x5B :: (params ++ [final])
  | osc text terminator _ => 0x1B :: 0x5D :: (text ++ terminator.bytes)
  | escape intermediates final _ _ => 0x1B :: (intermediates ++ [final])

/-- The bytes of an item that are text. -/
def text : Item → List UInt8
  | printable byte _ => [byte]
  | _ => []

/-- The bytes of an escape that come after its first intermediate byte. -/
def leaked : Item → List UInt8
  | escape (_ :: rest) final _ _ => rest ++ [final]
  | _ => []

/-- An escape with an intermediate byte. -/
def hasIntermediate : Item → Bool
  | escape (_ :: _) _ _ _ => true
  | _ => false

end Item

/-- From `s`, the machine keeps `out` of the bytes and ends in `s'`. -/
def Strips (s : AnsiState) (bytes out : List UInt8) (s' : AnsiState) : Prop :=
  kept s bytes = out ∧ bytes.foldl next s = s'

section

variable {s t u : AnsiState} {bytes rest out out' : List UInt8} {b : UInt8}

theorem strips_nil (s : AnsiState) : Strips s [] [] s := ⟨rfl, rfl⟩

theorem Strips.cons (h : Strips (next s b) bytes out t) :
    Strips s (b :: bytes) (append s b ++ out) t :=
  ⟨congrArg _ h.1, h.2⟩

theorem Strips.append (h : Strips s bytes out t) (h' : Strips t rest out' u) :
    Strips s (bytes ++ rest) (out ++ out') u := by
  obtain ⟨rfl, rfl⟩ := h
  obtain ⟨rfl, rfl⟩ := h'
  exact ⟨kept_append s bytes rest, List.foldl_append⟩

/-- Bytes that the machine stays at. -/
theorem strips_stay {f : UInt8 → List UInt8} (h : ∀ b ∈ bytes, next s b = s ∧ append s b = f b) :
    Strips s bytes (bytes.flatMap f) s := by
  induction bytes with
  | nil => exact strips_nil s
  | cons b bytes ih =>
      obtain ⟨hnext, happend⟩ := h b List.mem_cons_self
      rw [List.flatMap_cons, ← happend]
      refine Strips.cons ?_
      rw [hnext]
      exact ih fun c hc => h c (List.mem_cons_of_mem b hc)

end

theorem next_ground {b : UInt8} (h : isPrintable b = true) : next .ground b = .ground := by
  have hesc : b ≠ 0x1B := by
    rintro rfl
    exact absurd h (by decide)
  simp only [next, step, if_neg hesc, pushPrintable]
  split_ifs <;> rfl

/-- Printable bytes are text. -/
theorem strips_printable {bytes : List UInt8} (h : ∀ b ∈ bytes, isPrintable b = true) :
    Strips .ground bytes bytes .ground := by
  have hstay : Strips .ground bytes (bytes.flatMap fun b => [b]) .ground :=
    strips_stay fun b hb => ⟨next_ground (h b hb), by simp [append, h b hb]⟩
  rwa [List.flatMap_singleton'] at hstay

/-- The inside of a sequence is no text. -/
theorem strips_inside {s : AnsiState} {bytes : List UInt8} (hs : s ≠ .ground)
    (h : ∀ b ∈ bytes, next s b = s) : Strips s bytes [] s := by
  have hstay : Strips s bytes (bytes.flatMap fun _ => []) s :=
    strips_stay fun b hb => ⟨h b hb, by simp [append, hs]⟩
  rwa [List.flatMap_eq_nil_iff.mpr fun _ _ => rfl] at hstay

theorem next_csi_inside {b : UInt8} (h : 0x20 ≤ b ∧ b ≤ 0x3F) : next .csi b = .csi := by
  have hout : ¬ (0x40 ≤ b ∧ b ≤ 0x7E) := by
    rw [UInt8.le_iff_toNat_le, UInt8.le_iff_toNat_le] at h ⊢
    rintro ⟨h1, -⟩
    have := h.2
    simp at h1 this
    omega
  simp only [next, step, if_neg hout]

theorem next_csi_final {b : UInt8} (h : 0x40 ≤ b ∧ b ≤ 0x7E) : next .csi b = .ground := by
  simp only [next, step, if_pos h]

theorem next_osc_inside {b : UInt8} (h : b ≠ 0x07 ∧ b ≠ 0x1B) : next .osc b = .osc := by
  simp only [next, step, if_neg h.1, if_neg h.2]

theorem next_esc_other {b : UInt8} (hcsi : b ≠ 0x5B) (hosc : b ≠ 0x5D) :
    next .esc b = .ground := by
  simp only [next, step, if_neg hcsi, if_neg hosc]

theorem isPrintable_of_le {b : UInt8} (h : 0x20 ≤ b) : isPrintable b = true := by
  simp [isPrintable, h]

/-- An escape that begins with an intermediate byte ends at it: what follows is
    taken for text. -/
theorem strips_intermediate {b final : UInt8} {rest : List UInt8}
    (inside : ∀ c ∈ b :: rest, 0x20 ≤ c ∧ c ≤ 0x2F) (hfinal : 0x30 ≤ final) :
    Strips .esc (b :: (rest ++ [final])) (rest ++ [final]) .ground := by
  have hnext : next .esc b = .ground := by
    have hb := (inside b List.mem_cons_self).2
    refine next_esc_other ?_ ?_
    · rintro rfl
      exact absurd hb (by decide)
    · rintro rfl
      exact absurd hb (by decide)
  have hle : ∀ c ∈ rest ++ [final], isPrintable c = true := by
    intro c hc
    refine isPrintable_of_le ?_
    rcases List.mem_append.mp hc with hc | hc
    · exact (inside c (List.mem_cons_of_mem b hc)).1
    · rw [List.mem_singleton.mp hc]
      exact UInt8.le_trans (by decide) hfinal
  exact Strips.cons (hnext ▸ strips_printable hle)

/-- The machine over one item, from the ground state. -/
theorem strips_item (item : Item) :
    Strips .ground item.bytes (item.text ++ item.leaked) .ground := by
  cases item with
  | printable byte ok => exact strips_printable fun b hb => by rwa [List.mem_singleton.mp hb]
  | csi params final inside ends =>
      have hparams := strips_inside (s := .csi) (by simp) fun b hb => next_csi_inside (inside b hb)
      have hfinal : Strips .csi [final] [] .ground := ⟨rfl, next_csi_final ends⟩
      have hcsi : Strips .esc _ _ .ground := .cons (b := 0x5B) (hparams.append hfinal)
      exact hcsi.cons
  | osc text terminator inside =>
      have htext := strips_inside (s := .osc) (by simp) fun b hb => next_osc_inside (inside b hb)
      have hend : Strips .osc terminator.bytes [] .ground := by
        cases terminator <;> exact ⟨rfl, rfl⟩
      have hosc : Strips .esc _ _ .ground := .cons (b := 0x5D) (htext.append hend)
      exact hosc.cons
  | escape intermediates final inside ends =>
      have hfinal : 0x30 ≤ final ∧ final ≠ 0x5B ∧ final ≠ 0x5D := by
        simp only [isEscapeFinal, decide_eq_true_eq, List.mem_cons, not_or] at ends
        exact ⟨ends.1, ends.2.2.1, ends.2.2.2.1⟩
      cases intermediates with
      | nil =>
          have hend : Strips .esc [final] [] .ground :=
            ⟨rfl, next_esc_other hfinal.2.1 hfinal.2.2⟩
          exact hend.cons
      | cons b rest => exact (strips_intermediate inside hfinal.1).cons

/-- The bytes of a stream. -/
def bytesOf (items : List Item) : List UInt8 := items.flatMap Item.bytes

/-- The printable bytes of a stream, in order. -/
def textOf (items : List Item) : List UInt8 := items.flatMap Item.text

/-- The machine over a stream, from the ground state. -/
theorem strips_bytesOf (items : List Item) :
    Strips .ground (bytesOf items) (items.flatMap fun item => item.text ++ item.leaked)
      .ground := by
  induction items with
  | nil => exact strips_nil .ground
  | cons item items ih => exact (strips_item item).append ih

theorem leaked_eq_nil {item : Item} : item.leaked = [] ↔ item.hasIntermediate = false := by
  cases item with
  | escape intermediates final inside ends =>
      cases intermediates <;> simp [Item.leaked, Item.hasIntermediate]
  | _ => simp [Item.leaked, Item.hasIntermediate]

theorem length_text_leaked (items : List Item) :
    (items.flatMap fun item => item.text ++ item.leaked).length =
      (textOf items).length + (items.flatMap Item.leaked).length := by
  induction items with
  | nil => rfl
  | cons item items ih =>
      rw [textOf] at ih ⊢
      simp only [List.flatMap_cons, List.length_append, ih]
      omega

/-- Nothing leaks just when no escape has an intermediate byte. -/
theorem flatMap_text_leaked {items : List Item} :
    items.flatMap (fun item => item.text ++ item.leaked) = textOf items ↔
      ∀ item ∈ items, item.hasIntermediate = false := by
  constructor
  · intro h item hitem
    have hlen := length_text_leaked items
    rw [h] at hlen
    have hnil : items.flatMap Item.leaked = [] := List.eq_nil_of_length_eq_zero (by omega)
    exact leaked_eq_nil.mp (List.flatMap_eq_nil_iff.mp hnil item hitem)
  · intro h
    rw [textOf]
    refine List.flatMap_congr fun item hitem => ?_
    rw [leaked_eq_nil.mpr (h item hitem), List.append_nil]

-- ============================================================================
-- The stripper
-- ============================================================================

/-- Stripped, a stream is its printable bytes just when no plain escape in it has
    an intermediate byte. -/
theorem strips_iff (windowBytes : ℕ) (items : List Item) :
    (((bytesOf items).foldl step (new windowBytes)).window = textOf items ∧
      ((bytesOf items).foldl step (new windowBytes)).ansiState = .ground) ↔
        ∀ item ∈ items, item.hasIntermediate = false := by
  obtain ⟨hkept, hstate⟩ := strips_bytesOf items
  rw [foldl_step]
  show ([] ++ kept .ground (bytesOf items) = textOf items ∧
    (bytesOf items).foldl next .ground = .ground) ↔ _
  rw [List.nil_append, hkept, flatMap_text_leaked]
  exact and_iff_left hstate

/-- `ESC ( B`, the choice of the ASCII character set, leaves a `B`. -/
theorem charset_leaks :
    ∃ items : List Item, bytesOf items = [0x1B, 0x28, 0x42] ∧ textOf items = [] ∧
      ((bytesOf items).foldl step (new 8192)).window = [0x42] :=
  ⟨[.escape [0x28] 0x42 (by simp) (by decide)], rfl, rfl, rfl⟩

end Spectty.Output
