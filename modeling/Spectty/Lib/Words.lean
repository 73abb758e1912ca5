/-
  Spectty.Lib.Words

  The words of a list: its elements between the runs of separators.

  `words` trims and splits, as scripts do it.  `Spaced` is the relation that a reader
  has in mind, words with gaps before, between and behind them, and `words_eq_iff`
  says that the one computes the other.
-/

import Spectty.Lib.Text

namespace Spectty.Lib.Text

variable {α : Type} (p : α → Bool)

-- ============================================================================
-- Splitting
-- ============================================================================

/-- Put an element in front of the first piece. -/
def push (a : α) : List (List α) → List (List α)
  | piece :: pieces => (a :: piece) :: pieces
  | [] => [[a]]

/-- The list does not go on with a separator. -/
def endsRun : List α → Bool
  | a :: _ => !p a
  | [] => true

/-- The pieces between the runs of separators; the outermost ones may be empty. -/
def splitRuns : List α → List (List α)
  | [] => [[]]
  | a :: l =>
      if p a then if endsRun p l then [] :: splitRuns l else splitRuns l
      else push a (splitRuns l)

/-- The words of a list, none if it is blank. -/
def words (l : List α) : List (List α) :=
  if trim p l = [] then [] else splitRuns p (trim p l)

/-- `ws` with separators around and between. -/
inductive Spaced : List (List α) → List α → Prop
  | nil (gap : List α) (hgap : ∀ a ∈ gap, p a = true) : Spaced [] gap
  | cons (gap word : List α) (ws : List (List α)) (rest : List α)
      (hgap : ∀ a ∈ gap, p a = true) (hne : word ≠ []) (hword : ∀ a ∈ word, p a = false)
      (hsep : ∀ a ∈ rest.head?, p a = true) (hrest : Spaced ws rest) :
      Spaced (word :: ws) (gap ++ word ++ rest)

variable {p} {l rest word : List α} {ws : List (List α)} {a : α}

theorem splitRuns_cons_neg (h : p a = false) :
    splitRuns p (a :: l) = push a (splitRuns p l) := by
  simp [splitRuns, h]

theorem splitRuns_ne_nil (l : List α) : splitRuns p l ≠ [] := by
  cases l with
  | nil => simp [splitRuns]
  | cons a l =>
      by_cases h : p a = true
      · cases l with
        | nil => simp [splitRuns, endsRun, h]
        | cons b l =>
            by_cases hb : p b = true
            · rw [splitRuns, if_pos h, endsRun, hb]
              exact splitRuns_ne_nil (b :: l)
            · simp [splitRuns, endsRun, h, hb]
      · rw [splitRuns_cons_neg (by simpa using h)]
        cases splitRuns p l with
        | nil => simp [push]
        | cons piece pieces => simp [push]

/-- The first piece is empty where a separator comes first, or nothing. -/
theorem head_splitRuns :
    (∃ pieces, splitRuns p l = [] :: pieces) ↔ ∀ a ∈ l.head?, p a = true := by
  induction l with
  | nil => simp [splitRuns]
  | cons a l ih =>
      by_cases h : p a = true
      · have hex : ∃ pieces, splitRuns p (a :: l) = [] :: pieces := by
          by_cases hends : endsRun p l = true
          · exact ⟨splitRuns p l, by simp [splitRuns, h, hends]⟩
          · obtain ⟨pieces, hpieces⟩ := ih.mpr (by cases l <;> simp_all [endsRun])
            exact ⟨pieces, by simp [splitRuns, h, hends, hpieces]⟩
        simpa [h] using hex
      · have hnot : ¬ ∃ pieces, splitRuns p (a :: l) = [] :: pieces := by
          rintro ⟨pieces, hpieces⟩
          rw [splitRuns_cons_neg (by simpa using h)] at hpieces
          cases hl : splitRuns p l with
          | nil => simp [hl, push] at hpieces
          | cons piece pieces' => simp [hl, push] at hpieces
        simpa [h] using hnot

/-- A piece behind the first is empty only behind a separator at the end. -/
theorem getLast_of_nil_mem_tail (h : [] ∈ (splitRuns p l).tail) :
    ∃ a ∈ l.getLast?, p a = true := by
  induction l with
  | nil => simp [splitRuns] at h
  | cons b l ih =>
      have hlast : (∃ a ∈ l.getLast?, p a = true) → ∃ a ∈ (b :: l).getLast?, p a = true := by
        rintro ⟨a, ha, hpa⟩
        refine ⟨a, ?_, hpa⟩
        cases l with
        | nil => simp at ha
        | cons c l => simpa using ha
      by_cases hb : p b = true
      · by_cases hends : endsRun p l = true
        · simp only [splitRuns, hb, hends, if_true, List.tail_cons] at h
          cases hl : splitRuns p l with
          | nil => exact absurd hl (splitRuns_ne_nil l)
          | cons piece pieces =>
              rw [hl, List.mem_cons] at h
              rcases h with h | h
              · -- the run that ends here is followed by nothing
                have hhead := head_splitRuns.mp ⟨pieces, by rw [hl, ← h]⟩
                cases l with
                | nil => exact ⟨b, by simp, hb⟩
                | cons c l => simp_all [endsRun]
              · exact hlast (ih (by rw [hl]; exact h))
        · simp only [splitRuns, hb, hends, if_true] at h
          exact hlast (ih (by simpa using h))
      · rw [splitRuns_cons_neg (by simpa using hb)] at h
        apply hlast
        apply ih
        cases hl : splitRuns p l with
        | nil => simp [hl, push] at h
        | cons piece pieces => simpa [hl, push] using h

-- ============================================================================
-- What is spaced
-- ============================================================================

theorem Spaced.cons_sep (h : Spaced p ws l) (ha : p a = true) : Spaced p ws (a :: l) := by
  cases h with
  | nil gap hgap => exact .nil (a :: l) (by simpa [ha] using hgap)
  | cons gap word ws rest hgap hne hword hsep hrest =>
      exact .cons (a :: gap) word ws rest (by simpa [ha] using hgap) hne hword hsep hrest

theorem Spaced.concat_sep (h : Spaced p ws l) (ha : p a = true) : Spaced p ws (l ++ [a]) := by
  induction h with
  | nil gap hgap =>
      refine .nil (gap ++ [a]) fun b hb => ?_
      rcases List.mem_append.mp hb with hb | hb
      · exact hgap b hb
      · rw [List.mem_singleton.mp hb, ha]
  | cons gap word ws rest hgap hne hword hsep _ ih =>
      rw [List.append_assoc]
      refine .cons gap word ws (rest ++ [a]) hgap hne hword (fun b hb => ?_) ih
      cases rest with
      | nil =>
          obtain rfl : a = b := by simpa using hb
          exact ha
      | cons c rest => exact hsep b (by simpa using hb)

/-- Every list is spaced in some way. -/
theorem exists_spaced (l : List α) : ∃ ws, Spaced p ws l := by
  induction l with
  | nil => exact ⟨[], .nil [] (by simp)⟩
  | cons a l ih =>
      obtain ⟨ws, hws⟩ := ih
      by_cases ha : p a = true
      · exact ⟨ws, hws.cons_sep ha⟩
      · have hfalse : p a = false := by simpa using ha
        cases hws with
        | nil gap hgap =>
            refine ⟨[[a]], .cons [] [a] [] l (by simp) (by simp) (by simpa using hfalse) ?_
              (.nil l hgap)⟩
            intro b hb
            exact hgap b (List.mem_of_mem_head? hb)
        | cons gap word ws rest hgap hne hword hsep hrest =>
            cases gap with
            | nil => exact ⟨(a :: word) :: ws, .cons [] (a :: word) ws rest (by simp) (by simp)
                (by simpa [hfalse] using hword) hsep hrest⟩
            | cons b gap =>
                have hb : p b = true := hgap b (by simp)
                exact ⟨[a] :: word :: ws, .cons [] [a] (word :: ws) (b :: gap ++ word ++ rest)
                  (by simp) (by simp) (by simpa using hfalse) (by simpa using hb)
                  (.cons (b :: gap) word ws rest hgap hne hword hsep hrest)⟩

/-- The pieces that are not empty are the words. -/
theorem Spaced.filter_splitRuns (h : Spaced p ws l) :
    (splitRuns p l).filter (fun piece => !piece.isEmpty) = ws := by
  -- a separator in front adds at most an empty piece
  have hgapped : ∀ gap l : List α, (∀ a ∈ gap, p a = true) →
      (splitRuns p (gap ++ l)).filter (fun piece => !piece.isEmpty) =
        (splitRuns p l).filter fun piece => !piece.isEmpty := by
    intro gap l hgap
    induction gap with
    | nil => rfl
    | cons a gap ih =>
        rw [← ih fun b hb => hgap b (by simp [hb])]
        have ha : p a = true := hgap a (by simp)
        by_cases hends : endsRun p (gap ++ l) = true <;>
          simp [splitRuns, ha, hends]
  induction h with
  | nil gap hgap =>
      have hnil := hgapped gap [] hgap
      rw [List.append_nil] at hnil
      simpa [splitRuns] using hnil
  | cons gap word ws rest hgap hne hword hsep _ ih =>
      rw [List.append_assoc, hgapped gap (word ++ rest) hgap]
      obtain ⟨pieces, hpieces⟩ := head_splitRuns.mpr hsep
      have hword' : splitRuns p (word ++ rest) = word :: pieces := by
        clear hne
        induction word with
        | nil => exact hpieces
        | cons a word ihw =>
            rw [List.cons_append, splitRuns_cons_neg (hword a (by simp)),
              ihw fun b hb => hword b (by simp [hb])]
            rfl
      rw [hword', ← ih, hpieces]
      simp [hne]

-- ============================================================================
-- Words
-- ============================================================================

theorem spaced_of_trim : Spaced p ws (trim p l) → Spaced p ws l := by
  have hfront : ∀ l : List α, Spaced p ws (l.dropWhile p) → Spaced p ws l := by
    intro l
    induction l with
    | nil => exact id
    | cons a l ih =>
        intro h
        by_cases ha : p a = true
        · rw [List.dropWhile_cons_of_pos ha] at h
          exact (ih h).cons_sep ha
        · rwa [List.dropWhile_cons_of_neg ha] at h
  have hback : ∀ l : List α, Spaced p ws (l.rdropWhile p) → Spaced p ws l := by
    intro l
    induction l using List.reverseRecOn with
    | nil => exact id
    | append_singleton l a ih =>
        intro h
        by_cases ha : p a = true
        · rw [List.rdropWhile_concat_pos p l a ha] at h
          exact (ih h).concat_sep ha
        · rwa [List.rdropWhile_concat_neg p l a ha] at h
  intro h
  exact hfront l (hback (l.dropWhile p) h)

/-- What was trimmed has no separator at its ends. -/
theorem not_sep_ends_trim :
    (∀ a ∈ (trim p l).head?, p a = false) ∧ ∀ a ∈ (trim p l).getLast?, p a = false := by
  constructor
  · intro a ha
    obtain ⟨rest, hrest⟩ := List.rdropWhile_prefix p (l.dropWhile p)
    have hhead : (l.dropWhile p).head? = some a := by
      rw [← hrest, List.head?_append]
      simp [show ((l.dropWhile p).rdropWhile p).head? = some a from ha]
    have hnot := List.head?_dropWhile_not p l
    rw [hhead] at hnot
    simpa using hnot
  · intro a ha
    have hne : (l.dropWhile p).rdropWhile p ≠ [] := by
      intro hnil
      simp [trim, hnil] at ha
    have hnot := List.rdropWhile_last_not p (l.dropWhile p) hne
    have hlast : ((l.dropWhile p).rdropWhile p).getLast hne = a := by
      have := List.getLast?_eq_some_getLast hne
      rw [show ((l.dropWhile p).rdropWhile p).getLast? = some a from ha] at this
      exact (Option.some.inj this).symm
    rw [hlast] at hnot
    simpa using hnot

theorem nil_notMem_splitRuns_trim (h : trim p l ≠ []) : [] ∉ splitRuns p (trim p l) := by
  obtain ⟨hfirst, hlast⟩ := not_sep_ends_trim (p := p) (l := l)
  intro hmem
  cases hpieces : splitRuns p (trim p l) with
  | nil => exact splitRuns_ne_nil _ hpieces
  | cons piece pieces =>
      rw [hpieces, List.mem_cons] at hmem
      rcases hmem with hmem | hmem
      · have hhead := head_splitRuns.mp ⟨pieces, by rw [hpieces, ← hmem]⟩
        obtain ⟨a, m, htrim⟩ := List.exists_cons_of_ne_nil h
        have hp : p a = true := hhead a (by simp [htrim])
        have hnp : p a = false := hfirst a (by simp [htrim])
        simp [hp] at hnp
      · obtain ⟨a, ha, hpa⟩ := getLast_of_nil_mem_tail (by rw [hpieces]; exact hmem)
        simp [hlast a ha] at hpa

theorem words_spaced (l : List α) : Spaced p (words p l) l := by
  apply spaced_of_trim
  by_cases h : trim p l = []
  · rw [words, if_pos h, h]
    exact .nil [] (by simp)
  · obtain ⟨ws, hws⟩ := exists_spaced (p := p) (trim p l)
    have hall : (splitRuns p (trim p l)).filter (fun piece => !piece.isEmpty) =
        splitRuns p (trim p l) := by
      rw [List.filter_eq_self]
      intro piece hmem
      have hne : piece ≠ [] := fun hnil => nil_notMem_splitRuns_trim h (hnil ▸ hmem)
      simpa using hne
    rw [words, if_neg h, ← hall, hws.filter_splitRuns]
    exact hws

/-- The words of a list are what it is spaced from. -/
theorem words_eq_iff : words p l = ws ↔ Spaced p ws l := by
  constructor
  · rintro rfl
    exact words_spaced l
  · intro h
    rw [← (words_spaced l).filter_splitRuns, h.filter_splitRuns]

/-- A word is not empty, and has no separator. -/
theorem Spaced.isWord (h : Spaced p ws l) (hmem : word ∈ ws) :
    word ≠ [] ∧ ∀ a ∈ word, p a = false := by
  induction h with
  | nil _ _ => simp at hmem
  | cons gap first ws rest _ hne hword _ _ ih =>
      rcases List.mem_cons.mp hmem with rfl | hmem
      · exact ⟨hne, hword⟩
      · exact ih hmem

end Spectty.Lib.Text
