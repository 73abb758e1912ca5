/-
  Spectty.Output.Window

  The producer's window against the whole stripped text.

  `Lib.Window` cuts a growing list; here the list is the stripped text and the
  elements that stay with the one before them are the UTF-8 continuation bytes.
  `ingest_chunks` is the law: neither the window nor the state of the machine
  depends on how the stream was cut into chunks.
-/

import Spectty.Lib.Window
import Spectty.Output.Stripping

namespace Spectty.Output

open Spectty.Adapters
open Spectty.Adapters.OutputSignalProducer
open Spectty.Lib.Window

theorem truncateWindow_eq (p : OutputSignalProducer) :
    p.truncateWindow = { p with window := keep p.windowBytes isContinuation p.window } := by
  unfold truncateWindow keep
  split <;> rfl

theorem ingest_eq (p : OutputSignalProducer) (raw : List UInt8) :
    p.ingest raw =
      { p with
        ansiState := raw.foldl next p.ansiState
        window := keep p.windowBytes isContinuation (p.window ++ kept p.ansiState raw) } := by
  rw [ingest, foldl_step, truncateWindow_eq]

/-- What each chunk adds to the text. -/
def keptChunks : AnsiState → List (List UInt8) → List (List UInt8)
  | _, [] => []
  | s, raw :: chunks => kept s raw :: keptChunks (raw.foldl next s) chunks

theorem flatten_keptChunks (s : AnsiState) (chunks : List (List UInt8)) :
    (keptChunks s chunks).flatten = kept s chunks.flatten := by
  induction chunks generalizing s with
  | nil => rfl
  | cons raw chunks ih =>
      rw [keptChunks, List.flatten_cons, ih, List.flatten_cons, kept_append]

/-- The producer along chunks: each of them cuts the window once more. -/
theorem foldl_ingest (chunks : List (List UInt8)) (p : OutputSignalProducer) :
    chunks.foldl ingest p =
      { p with
        ansiState := chunks.flatten.foldl next p.ansiState
        window := (keptChunks p.ansiState chunks).foldl
          (fun window chunk => keep p.windowBytes isContinuation (window ++ chunk)) p.window } := by
  induction chunks generalizing p with
  | nil => rfl
  | cons raw chunks ih =>
      rw [List.foldl_cons, ih, ingest_eq, List.flatten_cons, List.foldl_append]
      rfl

/-- A fresh producer along chunks. -/
theorem foldl_ingest_new {windowBytes : ℕ} {chunks : List (List UInt8)}
    (hshort : ShortRuns windowBytes isContinuation (kept .ground chunks.flatten)) :
    chunks.foldl ingest (new windowBytes) =
      { new windowBytes with
        ansiState := chunks.flatten.foldl next .ground
        window := keep windowBytes isContinuation (kept .ground chunks.flatten) } := by
  have hwindow : keep windowBytes isContinuation [] = [] := keep_of_length_le (Nat.zero_le _)
  have htext :
      ShortRuns windowBytes isContinuation ([] ++ (keptChunks .ground chunks).flatten) := by
    rwa [List.nil_append, flatten_keptChunks]
  have hcut := foldl_keep htext
  rw [hwindow, List.nil_append, flatten_keptChunks] at hcut
  rw [foldl_ingest]
  show { new windowBytes with
    ansiState := chunks.flatten.foldl next .ground
    window := (keptChunks .ground chunks).foldl
      (fun window chunk => keep windowBytes isContinuation (window ++ chunk)) [] } = _
  rw [hcut]

-- ============================================================================
-- Characters
-- ============================================================================

theorem isContinuation_ofNat :
    ∀ n < 256, isContinuation (UInt8.ofNat n) = decide (0x80 ≤ n ∧ n < 0xC0) := by
  decide +kernel

/-- A character is written as a byte that is not a continuation byte and
    continuation bytes after it. -/
theorem utf8EncodeChar_eq (c : Char) :
    ∃ first rest, String.utf8EncodeChar c = first :: rest ∧ isContinuation first = false ∧
      ∀ b ∈ rest, isContinuation b = true := by
  have hlead : ∀ n, n < 0x80 ∨ 0xC0 ≤ n ∧ n < 256 → isContinuation (UInt8.ofNat n) = false := by
    intro n hn
    rw [isContinuation_ofNat n (by omega)]
    exact decide_eq_false (by omega)
  have htail : ∀ n, isContinuation (UInt8.ofNat (n % 0x40 + 0x80)) = true := by
    intro n
    rw [isContinuation_ofNat _ (by omega)]
    exact decide_eq_true (by omega)
  have hnil : ∀ b ∈ ([] : List UInt8), isContinuation b = true := by simp
  fun_cases String.utf8EncodeChar c with
  | case1 v h => exact ⟨_, _, rfl, hlead _ (by omega), hnil⟩
  | case2 v h1 h2 =>
      exact ⟨_, _, rfl, hlead _ (by omega), List.forall_mem_cons.mpr ⟨htail _, hnil⟩⟩
  | case3 v h1 h2 h3 =>
      exact ⟨_, _, rfl, hlead _ (by omega), List.forall_mem_cons.mpr ⟨htail _,
        List.forall_mem_cons.mpr ⟨htail _, hnil⟩⟩⟩
  | case4 v h1 h2 h3 =>
      exact ⟨_, _, rfl, hlead _ (by omega), List.forall_mem_cons.mpr ⟨htail _,
        List.forall_mem_cons.mpr ⟨htail _, List.forall_mem_cons.mpr ⟨htail _, hnil⟩⟩⟩⟩

-- ============================================================================
-- The law
-- ============================================================================

/-- The window shows a text: all of it, or the part from the first byte of a
    character among its last `windowBytes` bytes on. -/
structure Shows (windowBytes : ℕ) (text window : List UInt8) : Prop where
  whole : text.length ≤ windowBytes → window = text
  cut : windowBytes < text.length →
    ∃ cut, FirstFrom isContinuation text (text.length - windowBytes) cut ∧ window = text.drop cut
  bounded : window.length ≤ windowBytes
  letters : ∀ letters : List Char, text = letters.flatMap String.utf8EncodeChar →
    ∃ kept, kept <:+ letters ∧ window = kept.flatMap String.utf8EncodeChar

theorem shows_keep {windowBytes : ℕ} {text : List UInt8}
    (hshort : ShortRuns windowBytes isContinuation text) :
    Shows windowBytes text (keep windowBytes isContinuation text) where
  whole := keep_of_length_le
  cut hlen := exists_firstFrom hshort hlen
  bounded := length_keep_le
  letters letters h := by
    rw [h]
    exact exists_keep_flatMap utf8EncodeChar_eq letters

/-- Neither the window nor the state of the machine depends on how the stream is
    cut into chunks, and the window shows the stripped text. -/
theorem ingest_chunks (windowBytes : ℕ) (chunks : List (List UInt8))
    (hshort : ShortRuns windowBytes isContinuation (kept .ground chunks.flatten)) :
    chunks.foldl ingest (new windowBytes) = (new windowBytes).ingest chunks.flatten ∧
      Shows windowBytes (kept .ground chunks.flatten)
        (chunks.foldl ingest (new windowBytes)).window := by
  have hone : ShortRuns windowBytes isContinuation (kept .ground [chunks.flatten].flatten) := by
    rwa [List.flatten_singleton]
  have hwhole := foldl_ingest_new hone
  rw [List.foldl_cons, List.foldl_nil, List.flatten_singleton] at hwhole
  rw [foldl_ingest_new hshort, hwhole]
  exact ⟨rfl, shows_keep hshort⟩

/-- `aéb` in two chunks, cut inside the `é`, through a window of two bytes. -/
theorem ingest_chunks_split :
    [[0x61, 0xC3], [0xA9, 0x62]].foldl ingest (new 2) =
        (new 2).ingest [0x61, 0xC3, 0xA9, 0x62] ∧
      Shows 2 [0x61, 0xC3, 0xA9, 0x62]
        ([[0x61, 0xC3], [0xA9, 0x62]].foldl ingest (new 2)).window :=
  ingest_chunks 2 [[0x61, 0xC3], [0xA9, 0x62]] (ShortRuns.of_countP (by decide))

end Spectty.Output
