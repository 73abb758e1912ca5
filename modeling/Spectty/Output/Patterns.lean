/-
  Spectty.Output.Patterns

  The patterns of the runner's table, in a window and in its beginning.

  A pattern that the beginning of a window shows, the window shows: more bytes
  after it change at most the replacement characters at the end of what was
  decoded (`decodes_append`), and no pattern has one.
-/

import Spectty.Adapters.AgentRunner
import Spectty.Output.Window
import Mathlib.Data.List.Induction

namespace Spectty.Output

open Spectty.Adapters
open Spectty.Lib.Window

-- ============================================================================
-- Decoding the beginning
-- ============================================================================

/-- The characters of the beginning of a text are those of the whole, but for
    replacement characters at their end. -/
def BeginsLike (decoded whole : List Char) : Prop :=
  ∃ chars cut, decoded = chars ++ cut ∧ (∀ c ∈ cut, c = replacement) ∧ chars <+: whole

theorem beginsLike_cut (whole : List Char) : BeginsLike [replacement] whole :=
  ⟨[], [replacement], rfl, by simp, List.nil_prefix⟩

/-- A character of both, and what comes after it. -/
theorem BeginsLike.cons {c : Char} {decoded whole rest : List Char} (h : BeginsLike decoded rest)
    (hwhole : whole = c :: rest) : BeginsLike (c :: decoded) whole := by
  obtain ⟨chars, cut, rfl, hcut, hprefix⟩ := h
  exact ⟨c :: chars, cut, rfl, hcut, by rwa [hwhole, List.prefix_cons_inj]⟩

theorem decodes_append (bytes rest : List UInt8) :
    BeginsLike (fromUtf8Lossy bytes) (fromUtf8Lossy (bytes ++ rest)) := by
  fun_induction fromUtf8Lossy bytes
  case case1 => exact ⟨[], [], rfl, by simp, List.nil_prefix⟩
  -- a character that the end of the bytes cuts short
  case case3 | case6 | case7 | case11 | case12 | case13 => exact beginsLike_cut _
  -- a character, and the bytes after it
  all_goals
    rename_i ih
    refine ih.cons ?_
    rw [fromUtf8Lossy.eq_def]
    simp [*]

theorem isContinuation_of_secondOk {b c : UInt8} (h : secondOk b c = true) :
    isContinuation c = true := by
  have hrange : ∀ lo hi : UInt8, 0x80 ≤ lo → hi ≤ 0xBF → lo ≤ c ∧ c ≤ hi →
      isContinuation c = true := by
    rintro lo hi hlo hhi ⟨hloc, hchi⟩
    rw [← UInt8.ofNat_toNat (x := c), isContinuation_ofNat _ c.toNat_lt]
    have h1 := UInt8.le_iff_toNat_le.mp (UInt8.le_trans hlo hloc)
    have h2 := UInt8.le_iff_toNat_le.mp (UInt8.le_trans hchi hhi)
    simp only [UInt8.toNat_ofNat] at h1 h2
    exact decide_eq_true (by omega)
  unfold secondOk at h
  split_ifs at h
  · exact hrange 0xA0 0xBF (by decide) (by decide) (by simpa using h)
  · exact hrange 0x80 0x9F (by decide) (by decide) (by simpa using h)
  · exact hrange 0x90 0xBF (by decide) (by decide) (by simpa using h)
  · exact hrange 0x80 0x8F (by decide) (by decide) (by simpa using h)
  · exact h

/-- Bytes that go on with a new character are decoded apart. -/
theorem decodes_append_boundary (bytes : List UInt8) {b : UInt8} {rest : List UInt8}
    (hb : isContinuation b = false) :
    fromUtf8Lossy (bytes ++ b :: rest) = fromUtf8Lossy bytes ++ fromUtf8Lossy (b :: rest) := by
  have hsecond : ∀ a, secondOk a b = false := fun a => by
    by_contra hne
    rw [isContinuation_of_secondOk (by simpa using hne)] at hb
    cases hb
  fun_induction fromUtf8Lossy bytes
  case case1 => rfl
  -- a character that was cut short, and the byte that is read again
  case case5 ih | case9 ih | case10 ih | case15 ih | case16 ih | case17 ih =>
    rw [List.cons_append] at ih
    rw [fromUtf8Lossy.eq_def]
    simp [*]
  all_goals
    rw [fromUtf8Lossy.eq_def]
    simp [*]

-- ============================================================================
-- Patterns
-- ============================================================================

theorem containsPattern_iff {text : List Char} {pattern : String} :
    containsPattern text pattern = true ↔ pattern.toList <:+: text := by
  rw [containsPattern, List.any_eq_true, List.infix_iff_prefix_suffix]
  simp only [List.mem_tails, List.isPrefixOf_iff_prefix]
  constructor
  · rintro ⟨t, hsuffix, hprefix⟩
    exact ⟨t, hprefix, hsuffix⟩
  · rintro ⟨t, hprefix, hsuffix⟩
    exact ⟨t, hsuffix, hprefix⟩

/-- A prefix that ends in a pattern does not reach into characters the pattern does
    not have. -/
theorem prefix_of_append {front pattern text cut : List Char} (hne : pattern ≠ [])
    (hcut : ∀ c ∈ cut, c ∉ pattern) (h : front ++ pattern <+: text ++ cut) :
    front ++ pattern <+: text := by
  induction cut using List.reverseRecOn with
  | nil => rwa [List.append_nil] at h
  | append_singleton cut c ih =>
      rw [← List.append_assoc, List.prefix_concat_iff] at h
      rcases h with hwhole | h
      · obtain ⟨start, last, rfl⟩ := List.eq_nil_or_concat' pattern |>.resolve_left hne
        rw [← List.append_assoc] at hwhole
        obtain ⟨-, rfl⟩ := List.append_inj' hwhole rfl |>.imp_right List.singleton_inj.mp
        exact absurd (by simp) (hcut last (by simp))
      · exact ih (fun c' hc' => hcut c' (by simp [hc'])) h

/-- The patterns of the table. -/
def patterns : List String := claudePatterns.awaitingInput ++ claudePatterns.ready

theorem patterns_ne_nil : ∀ pattern ∈ patterns, pattern.toList ≠ [] := by
  decide

theorem replacement_not_mem_patterns : ∀ pattern ∈ patterns, replacement ∉ pattern.toList := by
  decide

/-- The characters of a window that patterns are matched against. -/
def compacted (window : List UInt8) : List Char := compact (String.ofList (fromUtf8Lossy window))

theorem compacted_eq (window : List UInt8) :
    compacted window = (fromUtf8Lossy window).filter fun c => !isWhitespace c := by
  rw [compacted, compact, String.toList_ofList]

/-- ASCII bytes are matched without those that are whitespace. -/
theorem compacted_ascii {window : List UInt8} (h : ∀ b ∈ window, b < 0x80) :
    compacted window =
      (window.map fun b => Char.ofNat b.toNat).filter fun c => !isWhitespace c := by
  rw [compacted_eq, fromUtf8Lossy_ascii h]

/-- A dialog or the ready prompt is in a window. -/
def showsPattern (window : List UInt8) : Bool := patterns.any (containsPattern (compacted window))

theorem showsPattern_iff {window : List UInt8} :
    showsPattern window = true ↔
      ∃ pattern ∈ patterns, ∃ front, front ++ pattern.toList <+: compacted window := by
  simp only [showsPattern, List.any_eq_true, containsPattern_iff]
  rfl

theorem compacted_beginsLike (window rest : List UInt8) :
    BeginsLike (compacted window) (compacted (window ++ rest)) := by
  obtain ⟨chars, cut, hdecoded, hcut, hprefix⟩ := decodes_append window rest
  rw [compacted_eq, compacted_eq, hdecoded, List.filter_append]
  exact ⟨_, _, rfl, fun c hc => hcut c (List.mem_filter.mp hc).1, hprefix.filter _⟩

theorem compacted_append {window rest : List UInt8}
    (h : window = [] ∨ ∀ b ∈ rest.head?, isContinuation b = false) :
    compacted (window ++ rest) = compacted window ++ compacted rest := by
  simp only [compacted_eq]
  cases rest with
  | nil => simp [fromUtf8Lossy]
  | cons b rest =>
      rcases h with rfl | hb
      · simp [fromUtf8Lossy]
      · rw [decodes_append_boundary window (hb b rfl), List.filter_append]

/-- What the beginning of a window shows, the window shows. -/
theorem showsPattern_append {window rest : List UInt8} (h : showsPattern window = true) :
    showsPattern (window ++ rest) = true := by
  obtain ⟨pattern, hmem, front, hfound⟩ := showsPattern_iff.mp h
  obtain ⟨chars, cut, hwindow, hcut, hprefix⟩ := compacted_beginsLike window rest
  rw [hwindow] at hfound
  have hchars := prefix_of_append (patterns_ne_nil pattern hmem)
    (fun c hc => hcut c hc ▸ replacement_not_mem_patterns pattern hmem) hfound
  exact showsPattern_iff.mpr ⟨pattern, hmem, front, hchars.trans hprefix⟩

-- ============================================================================
-- What a text brings
-- ============================================================================

/-- After `text`, there is a pattern where the window before had none. -/
def Contributes (window text : List UInt8) : Prop :=
  ∃ pattern ∈ patterns, ∃ front, front ++ pattern.toList <+: compacted (window ++ text) ∧
    ¬ front ++ pattern.toList <+: compacted window

variable {windowBytes : ℕ} {window text : List UInt8}

theorem contributes_iff :
    Contributes window text ↔ ∃ pattern ∈ patterns, ∃ shown ∈ (compacted (window ++ text)).inits,
      pattern.toList <:+ shown ∧ ¬ shown <+: compacted window := by
  simp only [List.mem_inits]
  constructor
  · rintro ⟨pattern, hmem, front, hnew, hold⟩
    exact ⟨pattern, hmem, _, hnew, List.suffix_append .., hold⟩
  · rintro ⟨pattern, hmem, _, hnew, ⟨front, rfl⟩, hold⟩
    exact ⟨pattern, hmem, front, hnew, hold⟩

/-- A window shows the patterns that what is left of the text before shows. -/
theorem showsPattern_keep
    (h : showsPattern (retained windowBytes isContinuation window text) = true) :
    showsPattern (keep windowBytes isContinuation (window ++ text)) = true := by
  rw [← List.take_append_drop
    ((keep windowBytes isContinuation (window ++ text)).length - text.length)
    (keep windowBytes isContinuation (window ++ text))]
  exact showsPattern_append h

/-- If the text brings no pattern, the window shows no other patterns. -/
theorem showsPattern_retained (hbrings : ¬ Contributes window text)
    (h : showsPattern (keep windowBytes isContinuation (window ++ text)) = true) :
    showsPattern (retained windowBytes isContinuation window text) = true := by
  obtain ⟨pattern, hmem, front, hfound⟩ := showsPattern_iff.mp h
  have hold : ∀ front, front ++ pattern.toList <+: compacted (window ++ text) →
      front ++ pattern.toList <+: compacted window := fun front hnew => by
    by_contra hne
    exact hbrings ⟨pattern, hmem, front, hnew, hne⟩
  rcases keep_append_cases windowBytes isContinuation window text with
    ⟨cutOff, hwindow, hkeep, hcut⟩ | ⟨cutOff, htext, -, hcut⟩
  · generalize retained windowBytes isContinuation window text = left at *
    generalize keep windowBytes isContinuation (window ++ text) = s at *
    subst hkeep hwindow
    have hleft : cutOff = [] ∨ ∀ b ∈ left.head?, isContinuation b = false := by
      refine hcut.imp_right fun hhead b hb => hhead b ?_
      rw [List.head?_append, Option.mem_def.mp hb]
      rfl
    -- the same place, counted from where the text before begins
    have hplace := hold (compacted cutOff ++ front) (by
      rw [List.append_assoc, List.append_assoc, compacted_append hcut]
      exact (List.prefix_append_right_inj _).mpr hfound)
    rw [List.append_assoc, compacted_append hleft] at hplace
    exact showsPattern_iff.mpr
      ⟨pattern, hmem, front, (List.prefix_append_right_inj _).mp hplace⟩
  · -- nothing of the text before is left, so no place of it is in the window
    generalize keep windowBytes isContinuation (window ++ text) = s at *
    subst htext
    have hplace := hold (compacted (window ++ cutOff) ++ front) (by
      rw [List.append_assoc, ← List.append_assoc window, compacted_append hcut]
      exact (List.prefix_append_right_inj _).mpr hfound)
    obtain ⟨chars, cut, hold, hreplaced, hprefix⟩ := compacted_beginsLike window cutOff
    rw [hold] at hplace
    have hchars := prefix_of_append (patterns_ne_nil pattern hmem)
      (fun c hc => hreplaced c hc ▸ replacement_not_mem_patterns pattern hmem) hplace
    have hlen := hchars.length_le.trans hprefix.length_le
    have hpattern := List.length_pos_iff.mpr (patterns_ne_nil pattern hmem)
    simp only [List.length_append] at hlen
    omega

end Spectty.Output
