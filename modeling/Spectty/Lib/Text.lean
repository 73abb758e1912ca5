/-
  Spectty.Lib.Text

  Lists as texts: trimming, cutting at a pattern, lines, and a list without its
  repetitions.

  `cut_append` and `cut_of_not_isInfix` say where a text that is put together is cut:
  a pattern whose first element does not come back in it cannot begin before the
  seam and end behind it.
-/

import Mathlib.Data.List.Basic
import Mathlib.Data.List.DropRight
import Mathlib.Data.List.Infix
import Mathlib.Data.List.Nodup

namespace Spectty.Lib.Text

variable {α : Type}

-- ============================================================================
-- Trimming
-- ============================================================================

section

variable {p : α → Bool} {l : List α} {a : α}

/-- Drop the elements that pass at both ends. -/
def trim (p : α → Bool) (l : List α) : List α := (l.dropWhile p).rdropWhile p

theorem trim_infix : trim p l <:+: l :=
  (List.rdropWhile_prefix p _).isInfix.trans (List.dropWhile_suffix p).isInfix

/-- An element that passes, at the end, is dropped. -/
theorem trim_concat (h : p a = true) : trim p (l ++ [a]) = trim p l := by
  unfold trim
  rw [List.dropWhile_append]
  split_ifs with hall
  · have hnone : List.dropWhile p l = [] := by simpa using hall
    rw [hnone, List.dropWhile_cons_of_pos h]
    rfl
  · exact List.rdropWhile_concat_pos p _ _ h

theorem trim_trim : trim p (trim p l) = trim p l := by
  obtain ⟨rest, hrest⟩ := List.rdropWhile_prefix p (l.dropWhile p)
  have hdrop : (trim p l).dropWhile p = trim p l := by
    cases htrim : trim p l with
    | nil => rfl
    | cons a m =>
        have hhead : (l.dropWhile p).head? = some a := by
          rw [← hrest, show (l.dropWhile p).rdropWhile p = a :: m from htrim]
          rfl
        have hfirst := List.head?_dropWhile_not p l
        rw [hhead] at hfirst
        exact List.dropWhile_cons_of_neg (by simpa using hfirst)
  rw [trim, hdrop]
  exact List.rdropWhile_idempotent p _

end

-- ============================================================================
-- Cutting
-- ============================================================================

section

variable [DecidableEq α] {pat l before after : List α} {a : α}

/-- The parts before and behind the first occurrence of a pattern. -/
def cut (pat : List α) : List α → Option (List α × List α)
  | [] => if pat = [] then some ([], []) else none
  | a :: l =>
      if pat <+: a :: l then some ([], (a :: l).drop pat.length)
      else (cut pat l).map fun parts => (a :: parts.1, parts.2)

/-- The second piece of a list that is split at every occurrence of a pattern. -/
def secondPiece (pat l : List α) : Option (List α) :=
  (cut pat l).map fun parts => ((cut pat parts.2).map Prod.fst).getD parts.2

theorem cut_of_isPrefix (h : pat <+: l) : cut pat l = some ([], l.drop pat.length) := by
  cases l with
  | nil => simp [cut, List.prefix_nil.mp h]
  | cons a l => exact if_pos h

theorem cut_cons_of_not_isPrefix (h : ¬ pat <+: a :: l) :
    cut pat (a :: l) = (cut pat l).map fun parts => (a :: parts.1, parts.2) := if_neg h

theorem cut_eq_none_iff : cut pat l = none ↔ ¬ pat <:+: l := by
  induction l with
  | nil => by_cases h : pat = [] <;> simp [cut, h]
  | cons a l ih =>
      rw [List.infix_cons_iff, not_or, ← ih]
      by_cases h : pat <+: a :: l
      · simp [cut_of_isPrefix h, h]
      · simp [cut_cons_of_not_isPrefix h, h]

theorem eq_of_cut (h : cut pat l = some (before, after)) : l = before ++ pat ++ after := by
  induction l generalizing before with
  | nil =>
      by_cases hpat : pat = []
      · simp only [cut, hpat, if_true, Option.some.injEq, Prod.mk.injEq] at h
        rw [← h.1, ← h.2, hpat]
        rfl
      · simp [cut, hpat] at h
  | cons a l ih =>
      by_cases hpre : pat <+: a :: l
      · rw [cut_of_isPrefix hpre, Option.some.injEq, Prod.mk.injEq] at h
        obtain ⟨rfl, rfl⟩ := h
        exact (List.prefix_iff_eq_append.mp hpre).symm
      · rw [cut_cons_of_not_isPrefix hpre] at h
        obtain ⟨⟨front, behind⟩, hparts, heq⟩ := Option.map_eq_some_iff.mp h
        obtain ⟨rfl, rfl⟩ := Prod.mk.inj heq
        rw [ih hparts]
        rfl

/-- The part before the first occurrence has none. -/
theorem not_infix_of_cut (hpat : pat ≠ []) (h : cut pat l = some (before, after)) :
    ¬ pat <:+: before := by
  induction l generalizing before with
  | nil => simp [cut, hpat] at h
  | cons a l ih =>
      by_cases hpre : pat <+: a :: l
      · rw [cut_of_isPrefix hpre, Option.some.injEq, Prod.mk.injEq] at h
        obtain ⟨rfl, -⟩ := h
        rwa [List.infix_nil]
      · rw [cut_cons_of_not_isPrefix hpre] at h
        obtain ⟨⟨front, behind⟩, hparts, heq⟩ := Option.map_eq_some_iff.mp h
        obtain ⟨rfl, rfl⟩ := Prod.mk.inj heq
        rw [List.infix_cons_iff, not_or]
        refine ⟨fun hfront => hpre (hfront.trans ?_), ih hparts⟩
        rw [List.prefix_cons_inj, eq_of_cut hparts, List.append_assoc]
        exact List.prefix_append _ _

/-- What is behind the cut does not move it. -/
theorem cut_append (h : cut pat l = some (before, after)) (rest : List α) :
    cut pat (l ++ rest) = some (before, after ++ rest) := by
  induction l generalizing before with
  | nil =>
      by_cases hpat : pat = []
      · subst hpat
        simp only [cut, if_true, Option.some.injEq, Prod.mk.injEq] at h
        obtain ⟨rfl, rfl⟩ := h
        exact cut_of_isPrefix List.nil_prefix
      · simp [cut, hpat] at h
  | cons a l ih =>
      by_cases hpre : pat <+: a :: l
      · rw [cut_of_isPrefix hpre, Option.some.injEq, Prod.mk.injEq] at h
        obtain ⟨rfl, rfl⟩ := h
        rw [cut_of_isPrefix (hpre.trans (List.prefix_append _ _)),
          List.drop_append_of_le_length hpre.length_le]
      · rw [cut_cons_of_not_isPrefix hpre] at h
        obtain ⟨⟨front, behind⟩, hparts, heq⟩ := Option.map_eq_some_iff.mp h
        obtain ⟨rfl, rfl⟩ := Prod.mk.inj heq
        have hlen : pat.length ≤ (a :: l).length := by
          rw [eq_of_cut hparts]
          simp only [List.length_cons, List.length_append]
          omega
        have hnot : ¬ pat <+: a :: (l ++ rest) := fun hlong =>
          hpre (List.prefix_of_prefix_length_le hlong (List.prefix_append (a :: l) rest) hlen)
        rw [List.cons_append, cut_cons_of_not_isPrefix hnot, ih hparts]
        rfl

/-- An element that does not begin the pattern moves the cut along. -/
theorem cut_cons_of_ne {b : α} {rest : List α} (hpat : pat = b :: rest) (h : a ≠ b) :
    cut pat (a :: l) = (cut pat l).map fun parts => (a :: parts.1, parts.2) := by
  refine cut_cons_of_not_isPrefix fun hpre => h ?_
  rw [hpat, List.cons_prefix_cons] at hpre
  exact hpre.1.symm

/-- A text without the pattern, the pattern and another text are cut at the seam, where
    the first element of the pattern does not come back in it. -/
theorem cut_of_not_isInfix {rest tail : List α} (hpat : pat = a :: rest) (hfirst : a ∉ rest)
    (h : ¬ pat <:+: l) : cut pat (l ++ pat ++ tail) = some (l, tail) := by
  induction l with
  | nil =>
      rw [List.nil_append, cut_of_isPrefix (List.prefix_append _ _), List.drop_left]
  | cons b l ih =>
      rw [List.infix_cons_iff, not_or] at h
      have hnot : ¬ pat <+: b :: (l ++ pat ++ tail) := by
        intro hlong
        rcases Nat.lt_or_ge (b :: l).length pat.length with hshort | hle
        · -- the pattern would begin before the seam and go over it
          have hseam : b :: (l ++ pat ++ tail) = (b :: l) ++ (pat ++ tail) := by simp
          rw [hseam] at hlong
          obtain ⟨excess, hover⟩ :=
            List.prefix_of_prefix_length_le (List.prefix_append _ _) hlong hshort.le
          have hstart : excess <+: pat ++ tail := by
            rw [← hover] at hlong
            rw [← hover]
            exact (List.prefix_append_right_inj _).mp hlong
          cases excess with
          | nil => exact absurd hover (fun heq => by simp [← heq] at hshort)
          | cons c excess =>
              rw [hpat, List.cons_append, List.cons_prefix_cons] at hstart
              rw [hpat, List.cons_append, List.cons.injEq] at hover
              exact hfirst (hover.2 ▸ List.mem_append_right l (hstart.1 ▸ List.mem_cons_self))
        · exact h.1 (List.prefix_of_prefix_length_le hlong (by simp) hle)
      rw [List.cons_append, List.cons_append, cut_cons_of_not_isPrefix hnot, ih h.2]
      rfl

/-- The pieces of such a text. -/
theorem secondPiece_of_not_isInfix {rest tail : List α} (hpat : pat = a :: rest)
    (hfirst : a ∉ rest) (h : ¬ pat <:+: l) (htail : ¬ pat <:+: tail) :
    secondPiece pat (l ++ pat ++ tail) = some tail := by
  rw [secondPiece, cut_of_not_isInfix hpat hfirst h, Option.map_some, cut_eq_none_iff.mpr htail]
  rfl

/-- A text that has a second piece keeps it when the pattern follows. -/
theorem secondPiece_append {rest piece : List α} (hpat : pat = a :: rest) (hfirst : a ∉ rest)
    (h : secondPiece pat l = some piece) (tail : List α) :
    secondPiece pat (l ++ pat ++ tail) = some piece := by
  obtain ⟨⟨front, behind⟩, hcut, rfl⟩ := Option.map_eq_some_iff.mp h
  rw [secondPiece, List.append_assoc, cut_append hcut, Option.map_some, ← List.append_assoc]
  cases hbehind : cut pat behind with
  | none => rw [cut_of_not_isInfix hpat hfirst (cut_eq_none_iff.mp hbehind)]; rfl
  | some parts =>
      obtain ⟨piece, others⟩ := parts
      rw [List.append_assoc, cut_append hbehind]
      rfl

theorem secondPiece_cons_of_ne {b : α} {rest : List α} (hpat : pat = b :: rest) (h : a ≠ b) :
    secondPiece pat (a :: l) = secondPiece pat l := by
  rw [secondPiece, cut_cons_of_ne hpat h, Option.map_map]
  rfl

theorem secondPiece_eq_none_iff : secondPiece pat l = none ↔ ¬ pat <:+: l := by
  rw [secondPiece, Option.map_eq_none_iff, cut_eq_none_iff]

theorem not_infix_of_secondPiece {piece : List α} (hpat : pat ≠ [])
    (h : secondPiece pat l = some piece) : ¬ pat <:+: piece := by
  obtain ⟨⟨front, behind⟩, -, rfl⟩ := Option.map_eq_some_iff.mp h
  cases hbehind : cut pat behind with
  | none => exact cut_eq_none_iff.mp hbehind
  | some parts =>
      obtain ⟨before, after⟩ := parts
      exact not_infix_of_cut hpat hbehind

end

-- ============================================================================
-- Splitting
-- ============================================================================

section

variable [BEq α] [LawfulBEq α] {l piece : List α} {rest : List (List α)} {a : α}

/-- The first piece of a split reaches to the first separator, and the others are the
    pieces of what is behind it. -/
theorem splitOn_eq_cons_iff : l.splitOn a = piece :: rest ↔
    a ∉ piece ∧
      (rest = [] ∧ l = piece ∨ ∃ tail, l = piece ++ a :: tail ∧ tail.splitOn a = rest) := by
  constructor
  · intro h
    by_cases ha : a ∈ l
    · obtain ⟨front, tail, rfl, hfront⟩ := List.eq_append_cons_of_mem ha
      rw [List.splitOn_append_cons_self_of_not_mem hfront] at h
      obtain ⟨rfl, rfl⟩ := List.cons_eq_cons.mp h
      exact ⟨hfront, .inr ⟨tail, rfl, rfl⟩⟩
    · rw [List.splitOn_eq_singleton ha] at h
      obtain ⟨rfl, rfl⟩ := List.cons_eq_cons.mp h
      exact ⟨ha, .inl ⟨rfl, rfl⟩⟩
  · rintro ⟨hpiece, ⟨rfl, rfl⟩ | ⟨tail, rfl, rfl⟩⟩
    · exact List.splitOn_eq_singleton hpiece
    · exact List.splitOn_append_cons_self_of_not_mem hpiece tail

theorem splitOn_eq_singleton_iff : l.splitOn a = [piece] ↔ a ∉ piece ∧ l = piece := by
  rw [splitOn_eq_cons_iff]
  refine and_congr_right fun _ => ⟨fun h => ?_, fun h => .inl ⟨rfl, h⟩⟩
  rcases h with ⟨-, h⟩ | ⟨tail, -, htail⟩
  · exact h
  · exact absurd htail (List.splitOn_ne_nil a tail)

/-- Where a split has another piece, the first one ends at a separator. -/
theorem splitOn_eq_cons_cons_iff {next : List α} : l.splitOn a = piece :: next :: rest ↔
    a ∉ piece ∧ ∃ tail, l = piece ++ a :: tail ∧ tail.splitOn a = next :: rest := by
  simp [splitOn_eq_cons_iff]

end

-- ============================================================================
-- Lines
-- ============================================================================

/-- Drop a carriage return at the end. -/
def stripReturn (line : List Char) : List Char :=
  if line.getLast? = some '\r' then line.dropLast else line

/-- The lines of a text, the first of which has begun. -/
def linesFrom (line : List Char) : List Char → List (List Char)
  | [] => if line = [] then [] else [line]
  | c :: rest =>
      if c = '\n' then stripReturn line :: linesFrom [] rest else linesFrom (line ++ [c]) rest

/-- The lines of a text.  Each ends with a line feed, or a carriage return and a line
    feed; at the end of the text it may be missing. -/
def lines (text : List Char) : List (List Char) := linesFrom [] text

/-- The text of some lines. -/
def unlines (ls : List (List Char)) : List Char := ls.flatMap (· ++ ['\n'])

theorem linesFrom_append {xs : List Char} (h : '\n' ∉ xs) (line rest : List Char) :
    linesFrom line (xs ++ '\n' :: rest) = stripReturn (line ++ xs) :: linesFrom [] rest := by
  induction xs generalizing line with
  | nil => simp [linesFrom]
  | cons c xs ih =>
      rw [List.mem_cons, not_or] at h
      rw [List.cons_append, linesFrom, if_neg (Ne.symm h.1), ih h.2, List.append_assoc]
      rfl

theorem lines_unlines {ls : List (List Char)} (h : ∀ l ∈ ls, '\n' ∉ l) :
    lines (unlines ls) = ls.map stripReturn := by
  induction ls with
  | nil => rfl
  | cons l ls ih =>
      have hsplit : unlines (l :: ls) = l ++ '\n' :: unlines ls := by simp [unlines]
      rw [lines, hsplit, linesFrom_append (h l List.mem_cons_self), List.map_cons]
      exact congrArg _ (ih fun m hm => h m (List.mem_cons_of_mem _ hm))

/-- A carriage return at the end does not matter to how a line begins. -/
theorem prefix_stripReturn {pat line : List Char} (h : '\r' ∉ pat) :
    pat <+: stripReturn line ↔ pat <+: line := by
  unfold stripReturn
  split_ifs with hlast
  · obtain ⟨front, rfl⟩ := List.getLast?_eq_some_iff.mp hlast
    rw [List.dropLast_concat, List.prefix_concat_iff]
    refine ⟨.inr, fun hpre => hpre.resolve_left ?_⟩
    rintro rfl
    exact h (by simp)
  · rfl

theorem stripReturn_of_notMem {line : List Char} (h : '\r' ∉ line) : stripReturn line = line :=
  if_neg fun hlast => h (List.mem_of_getLast? hlast)

-- ============================================================================
-- Counting
-- ============================================================================

/-- A stronger test counts as many just when the weaker one accepts nothing more. -/
theorem countP_eq_countP_iff {p q : α → Bool} (h : ∀ a, p a = true → q a = true)
    (l : List α) : l.countP p = l.countP q ↔ ∀ a ∈ l, q a = true → p a = true := by
  induction l with
  | nil => simp
  | cons a l ih =>
      have hle : l.countP p ≤ l.countP q := List.countP_mono_left fun b _ => h b
      rw [List.forall_mem_cons, ← ih, List.countP_cons, List.countP_cons]
      by_cases hp : p a = true
      · simp [hp, h a hp]
      · by_cases hq : q a = true
        · simp only [hp, hq, Bool.false_eq_true, if_false, if_true, forall_true_left, false_and,
            iff_false]
          omega
        · simp [hp, hq]

-- ============================================================================
-- Without repetitions
-- ============================================================================

/-- Of two beginnings of a list the one that an element is missing from ends before the
    element. -/
theorem prefix_of_notMem {l m n : List α} {a : α} (hl : l <+: n) (hm : m ++ [a] <+: n) (h : a ∉ l) :
    l <+: m := by
  rcases List.prefix_or_prefix_of_prefix hl hm with hle | hge
  · rw [List.prefix_concat_iff] at hle
    refine hle.resolve_left ?_
    rintro rfl
    exact h (by simp)
  · exact absurd (hge.subset (by simp)) h

section

variable [DecidableEq α] {l m acc : List α} {a : α}

/-- The elements of a list, each where it stands first. -/
def distinct : List α → List α
  | [] => []
  | a :: l => a :: (distinct l).filter (· ≠ a)

/-- Append an element that is not there yet. -/
def addNew (acc : List α) (a : α) : List α := if a ∈ acc then acc else acc ++ [a]

@[simp] theorem mem_distinct : a ∈ distinct l ↔ a ∈ l := by
  induction l with
  | nil => rfl
  | cons b l ih =>
      by_cases h : a = b <;> simp [distinct, ih, h]

theorem nodup_distinct (l : List α) : (distinct l).Nodup := by
  induction l with
  | nil => exact List.nodup_nil
  | cons a l ih =>
      rw [distinct, List.nodup_cons]
      exact ⟨by simp, ih.filter _⟩

theorem foldl_addNew (acc l : List α) :
    l.foldl addNew acc = acc ++ (distinct l).filter (· ∉ acc) := by
  induction l generalizing acc with
  | nil => simp [distinct]
  | cons a l ih =>
      rw [List.foldl_cons, ih, distinct, addNew]
      split_ifs with h
      · rw [List.filter_cons_of_neg (by simpa using h), List.filter_filter]
        congr 1
        refine List.filter_congr fun b _ => ?_
        by_cases hb : b ∈ acc
        · simp [hb]
        · have hne : b ≠ a := fun heq => hb (heq ▸ h)
          simp [hb, hne]
      · rw [List.filter_cons_of_pos (by simpa using h), List.append_assoc, List.filter_filter]
        rw [List.singleton_append]
        congr 2
        refine List.filter_congr fun b _ => ?_
        simp [not_or]

theorem distinct_append (l m : List α) :
    distinct (l ++ m) = distinct l ++ (distinct m).filter (· ∉ l) := by
  have hfold := foldl_addNew [] (l ++ m)
  rw [List.foldl_append, foldl_addNew, foldl_addNew] at hfold
  simpa using hfold.symm

theorem distinct_isPrefix (h : l <+: m) : distinct l <+: distinct m := by
  obtain ⟨rest, rfl⟩ := h
  rw [distinct_append]
  exact List.prefix_append _ _

theorem distinct_concat (h : a ∉ l) : distinct (l ++ [a]) = distinct l ++ [a] := by
  rw [distinct_append]
  simp [distinct, h]

/-- Elements that are there already change nothing. -/
theorem distinct_append_of_subset (h : m ⊆ l) : distinct (l ++ m) = distinct l := by
  rw [distinct_append, List.filter_eq_nil_iff.mpr, List.append_nil]
  intro a ha
  simpa using h (mem_distinct.mp ha)

theorem distinct_append_congr {l' m' : List α} (hl : distinct l = distinct l')
    (hm : distinct m = distinct m') : distinct (l ++ m) = distinct (l' ++ m') := by
  have hmem : ∀ a, a ∈ l ↔ a ∈ l' := fun a => by rw [← mem_distinct, hl, mem_distinct]
  rw [distinct_append, distinct_append, hl, hm]
  simp only [hmem]

theorem distinct_flatMap_congr {β : Type} {bs : List β} {f g : β → List α}
    (h : ∀ b ∈ bs, distinct (f b) = distinct (g b)) :
    distinct (bs.flatMap f) = distinct (bs.flatMap g) := by
  induction bs with
  | nil => rfl
  | cons b bs ih =>
      rw [List.flatMap_cons, List.flatMap_cons]
      exact distinct_append_congr (h b List.mem_cons_self)
        (ih fun c hc => h c (List.mem_cons_of_mem _ hc))

end

end Spectty.Lib.Text
