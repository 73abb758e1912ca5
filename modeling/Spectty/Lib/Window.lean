/-
  Spectty.Lib.Window

  A rolling window over a growing list: its last `cap` elements, without those
  at their front that go on with an element before them (`inner`).

  A window that is cut after each chunk is the window of the whole list
  (`foldl_keep`), unless `cap` inner elements follow each other: then nothing
  is left of the list to cut at.
-/

import Mathlib.Data.List.TakeWhile
import Mathlib.Data.List.Infix

namespace Spectty.Lib.Window

variable {α γ : Type} {cap : Nat} {inner : α → Bool} {t x : List α}

/-- The part of a list that a window keeps. -/
def keep (cap : Nat) (inner : α → Bool) (t : List α) : List α :=
  if t.length ≤ cap then t else (t.drop (t.length - cap)).dropWhile inner

/-- Fewer than `cap` inner elements follow each other. -/
def ShortRuns (cap : Nat) (inner : α → Bool) (t : List α) : Prop :=
  ∀ run, run <:+: t → (∀ a ∈ run, inner a = true) → run.length < cap

theorem ShortRuns.of_append (h : ShortRuns cap inner (t ++ x)) : ShortRuns cap inner t :=
  fun run hrun hinner => h run (hrun.trans (List.infix_append' [] t x)) hinner

/-- A list with fewer than `cap` inner elements has no longer runs of them. -/
theorem ShortRuns.of_countP (h : t.countP inner < cap) : ShortRuns cap inner t := by
  intro run hrun hinner
  calc run.length = run.countP inner := (List.countP_eq_length.mpr hinner).symm
    _ ≤ t.countP inner := hrun.sublist.countP_le
    _ < cap := h

theorem keep_of_length_le (h : t.length ≤ cap) : keep cap inner t = t := if_pos h

theorem length_keep_le : (keep cap inner t).length ≤ cap := by
  unfold keep
  split
  case isTrue h => exact h
  case isFalse h =>
    have hsuffix := (List.dropWhile_suffix inner (l := t.drop (t.length - cap))).length_le
    rw [List.length_drop] at hsuffix
    omega

theorem keep_suffix : keep cap inner t <:+ t := by
  unfold keep
  split
  · exact List.suffix_rfl
  · exact (List.dropWhile_suffix inner).trans (List.drop_suffix _ _)

/-- A list that is cut: what goes before the cut, the inner elements after it, and
    the window, which starts with an element that is not inner. -/
theorem exists_cut (h : ShortRuns cap inner t) (hlen : cap < t.length) :
    ∃ front run a rest, t = front ++ run ++ a :: rest ∧ front.length = t.length - cap ∧
      (∀ b ∈ run, inner b = true) ∧ inner a = false ∧ keep cap inner t = a :: rest := by
  have hsplit := List.takeWhile_append_dropWhile (p := inner) (l := t.drop (t.length - cap))
  have hrun : ∀ b ∈ (t.drop (t.length - cap)).takeWhile inner, inner b = true :=
    fun b hb => List.mem_takeWhile_imp hb
  have hkeep : keep cap inner t = (t.drop (t.length - cap)).dropWhile inner :=
    if_neg (by omega)
  cases hrest : (t.drop (t.length - cap)).dropWhile inner with
  | nil =>
      -- the last `cap` elements would all be inner
      rw [hrest, List.append_nil] at hsplit
      have hshort := h (t.drop (t.length - cap)) (List.drop_suffix _ _).isInfix
        (by rw [← hsplit]; exact hrun)
      rw [List.length_drop] at hshort
      omega
  | cons a rest =>
      refine ⟨t.take (t.length - cap), _, a, rest, ?_, ?_, hrun, ?_, by rw [hkeep, hrest]⟩
      · rw [List.append_assoc, ← hrest, hsplit, List.take_append_drop]
      · rw [List.length_take]
        omega
      · have hhead := List.head?_dropWhile_not inner (t.drop (t.length - cap))
        rw [hrest] at hhead
        simpa using hhead

/-- A window that starts with an element that is not inner is cut there at
    the latest. -/
theorem keep_append_of_cut {front run rest : List α} {a : α} (hfront : 0 < front.length)
    (hrun : ∀ b ∈ run, inner b = true) (ha : inner a = false)
    (hlen : run.length + (a :: rest).length = cap) :
    keep cap inner (front ++ run ++ a :: rest ++ x) = keep cap inner (a :: rest ++ x) := by
  generalize hs : a :: rest = s at hlen
  have htotal : (front ++ run ++ s ++ x).length = front.length + cap + x.length := by
    simp only [List.length_append]
    omega
  have hshort : (s ++ x).length = cap - run.length + x.length := by
    rw [List.length_append]
    omega
  by_cases hx : x.length ≤ run.length
  · -- the cut stays within the run
    have hdrop : (front ++ run ++ s ++ x).drop (front.length + x.length) =
        run.drop x.length ++ (s ++ x) := by
      rw [List.append_assoc, List.append_assoc, List.drop_append,
        List.drop_eq_nil_of_le (by omega), Nat.add_sub_cancel_left, List.nil_append,
        List.drop_append_of_le_length hx]
    have hinner : ∀ b ∈ run.drop x.length, inner b = true :=
      fun b hb => hrun b (List.mem_of_mem_drop hb)
    rw [keep_of_length_le (t := s ++ x) (by omega)]
    unfold keep
    rw [if_neg (by omega), htotal, show front.length + cap + x.length - cap =
      front.length + x.length by omega, hdrop, List.dropWhile_append_of_pos hinner, ← hs,
      List.cons_append, List.dropWhile_cons_of_neg (by simp [ha])]
  · have hdrop : (front ++ run ++ s ++ x).drop (front.length + x.length) =
        (s ++ x).drop (x.length - run.length) := by
      rw [List.append_assoc (front ++ run), List.drop_append, List.drop_eq_nil_of_le
        (by rw [List.length_append]; omega), List.nil_append, List.length_append]
      congr 1
      omega
    unfold keep
    rw [if_neg (by omega), if_neg (by omega), htotal, hshort,
      show front.length + cap + x.length - cap = front.length + x.length by omega,
      show cap - run.length + x.length - cap = x.length - run.length by omega, hdrop]

/-- Cutting a window again after more elements came is cutting once. -/
theorem keep_keep_append (h : ShortRuns cap inner t) :
    keep cap inner (keep cap inner t ++ x) = keep cap inner (t ++ x) := by
  by_cases hlen : t.length ≤ cap
  · rw [keep_of_length_le hlen]
  · obtain ⟨front, run, a, rest, ht, hfront, hrun, ha, hkeep⟩ := exists_cut h (by omega)
    have htotal : t.length = front.length + run.length + (a :: rest).length := by
      rw [ht, List.length_append, List.length_append]
    rw [hkeep, ht]
    exact (keep_append_of_cut (by omega) hrun ha (by omega)).symm

/-- Chunks that fit together are never cut. -/
theorem foldl_keep_of_length_le {chunks : List (List α)}
    (h : (t ++ chunks.flatten).length ≤ cap) :
    chunks.foldl (fun window chunk => keep cap inner (window ++ chunk)) t =
      t ++ chunks.flatten := by
  induction chunks generalizing t with
  | nil => simp
  | cons chunk chunks ih =>
      rw [List.flatten_cons, ← List.append_assoc] at h ⊢
      rw [List.foldl_cons, keep_of_length_le, ih h]
      rw [List.length_append] at h
      exact Nat.le_of_add_right_le h

/-- A window that is cut after each chunk is the window of the whole list. -/
theorem foldl_keep {chunks : List (List α)} (h : ShortRuns cap inner (t ++ chunks.flatten)) :
    chunks.foldl (fun window chunk => keep cap inner (window ++ chunk)) (keep cap inner t) =
      keep cap inner (t ++ chunks.flatten) := by
  induction chunks generalizing t with
  | nil => simp
  | cons chunk chunks ih =>
      rw [List.flatten_cons, ← List.append_assoc] at h ⊢
      rw [List.foldl_cons, keep_keep_append h.of_append.of_append, ih h]

-- ============================================================================
-- Where the window starts
-- ============================================================================

/-- A position is the first one from `start` on whose element is not inner. -/
structure FirstFrom (inner : α → Bool) (t : List α) (start cut : Nat) : Prop where
  le : start ≤ cut
  skipped : ∀ i a, start ≤ i → i < cut → t[i]? = some a → inner a = true
  stops : ∃ a, t[cut]? = some a ∧ inner a = false

/-- The window of a long list starts at the first element that is not inner
    among its last `cap` ones. -/
theorem exists_firstFrom (h : ShortRuns cap inner t) (hlen : cap < t.length) :
    ∃ cut, FirstFrom inner t (t.length - cap) cut ∧ keep cap inner t = t.drop cut := by
  obtain ⟨front, run, a, rest, ht, hfront, hrun, ha, hkeep⟩ := exists_cut h hlen
  have hcut : (front ++ run).length = t.length - cap + run.length := by
    rw [List.length_append, hfront]
  generalize t.length - cap = start at *
  subst ht
  refine ⟨(front ++ run).length, ⟨by omega, fun i b hi hlt hb => ?_, a, ?_, ha⟩, ?_⟩
  · rw [List.getElem?_append_left hlt, List.getElem?_append_right (by omega)] at hb
    exact hrun b (List.mem_of_getElem? hb)
  · rw [List.getElem?_append_right (Nat.le_refl _), Nat.sub_self]
    rfl
  · rw [hkeep, List.drop_left]

/-- Where each letter is written with its first element not inner and the others
    inner, a suffix without the inner elements at its front is written from
    whole letters. -/
theorem exists_dropWhile_flatMap {write : γ → List α}
    (hwrite : ∀ c, ∃ a rest, write c = a :: rest ∧ inner a = false ∧ ∀ b ∈ rest, inner b = true)
    {letters : List γ} {s : List α} (hs : s <:+ letters.flatMap write) :
    ∃ kept, kept <:+ letters ∧ s.dropWhile inner = kept.flatMap write := by
  induction letters generalizing s with
  | nil =>
      rw [List.flatMap_nil, List.suffix_nil] at hs
      exact ⟨[], List.suffix_rfl, by rw [hs]; rfl⟩
  | cons c letters ih =>
      obtain ⟨a, rest, hc, ha, hinner⟩ := hwrite c
      obtain ⟨front, hfront⟩ := hs
      rw [List.flatMap_cons, hc, List.append_eq_append_iff] at hfront
      rcases hfront with ⟨back, hback, rfl⟩ | ⟨front', -, hrest⟩
      · cases front with
        | nil =>
            rw [List.nil_append] at hback
            refine ⟨c :: letters, List.suffix_rfl, ?_⟩
            rw [← hback, List.cons_append, List.dropWhile_cons_of_neg (by simp [ha]),
              List.flatMap_cons, hc, List.cons_append]
        | cons a' front =>
            have hback : rest = front ++ back := (List.cons.inj hback).2
            obtain ⟨kept, hkept, hdrop⟩ := ih List.suffix_rfl
            refine ⟨kept, hkept.trans (List.suffix_cons c letters), ?_⟩
            rw [List.dropWhile_append_of_pos fun b hb => hinner b (by simp [hback, hb]), hdrop]
      · obtain ⟨kept, hkept, hdrop⟩ := ih ⟨front', hrest.symm⟩
        exact ⟨kept, hkept.trans (List.suffix_cons c letters), hdrop⟩

/-- The window of a text that is written letter by letter starts with a whole letter. -/
theorem exists_keep_flatMap {write : γ → List α}
    (hwrite : ∀ c, ∃ a rest, write c = a :: rest ∧ inner a = false ∧ ∀ b ∈ rest, inner b = true)
    (letters : List γ) :
    ∃ kept, kept <:+ letters ∧ keep cap inner (letters.flatMap write) = kept.flatMap write := by
  unfold keep
  split
  · exact ⟨letters, List.suffix_rfl, rfl⟩
  · exact exists_dropWhile_flatMap hwrite (List.drop_suffix _ _)

-- ============================================================================
-- What is left of the list before
-- ============================================================================

/-- What the window keeps of a list when `x` is added to it. -/
def retained (cap : Nat) (inner : α → Bool) (t x : List α) : List α :=
  (keep cap inner (t ++ x)).take ((keep cap inner (t ++ x)).length - x.length)

/-- A window starts where the list does, or with an element that is not inner. -/
theorem keep_head : keep cap inner t = t ∨ ∀ a ∈ (keep cap inner t).head?, inner a = false := by
  unfold keep
  split
  · exact .inl rfl
  · right
    intro a ha
    have hhead := List.head?_dropWhile_not inner (t.drop (t.length - cap))
    rw [Option.mem_def.mp ha] at hhead
    simpa using hhead

/-- A window of a list that `x` was added to: something of the list before is left
    in front of `x`, or only an end of `x` is left.  It is cut where it starts. -/
theorem keep_append_cases (cap : Nat) (inner : α → Bool) (t x : List α) :
    (∃ front, t = front ++ retained cap inner t x ∧
      keep cap inner (t ++ x) = retained cap inner t x ++ x ∧
      (front = [] ∨ ∀ a ∈ (keep cap inner (t ++ x)).head?, inner a = false)) ∨
    ∃ front, x = front ++ keep cap inner (t ++ x) ∧ retained cap inner t x = [] ∧
      (t ++ front = [] ∨ ∀ a ∈ (keep cap inner (t ++ x)).head?, inner a = false) := by
  have hsuffix : keep cap inner (t ++ x) <:+ t ++ x := keep_suffix
  obtain ⟨cutOff, hcut⟩ := hsuffix
  have hhead : cutOff = [] ∨ ∀ a ∈ (keep cap inner (t ++ x)).head?, inner a = false := by
    rcases @keep_head _ cap inner (t ++ x) with hwhole | hhead
    · rw [hwhole] at hcut
      exact .inl (List.self_eq_append_left.mp hcut.symm)
    · exact .inr hhead
  unfold retained
  generalize keep cap inner (t ++ x) = s at hcut hhead
  rcases List.append_eq_append_iff.mp hcut with ⟨y, rfl, rfl⟩ | ⟨y, rfl, rfl⟩
  · have htake : (y ++ x).take ((y ++ x).length - x.length) = y := by
      rw [List.length_append, Nat.add_sub_cancel, List.take_left]
    rw [htake]
    exact .inl ⟨cutOff, rfl, rfl, hhead⟩
  · have htake : s.take (s.length - (y ++ s).length) = [] := by
      rw [List.length_append, show s.length - (y.length + s.length) = 0 by omega, List.take_zero]
    rw [htake]
    exact .inr ⟨y, rfl, rfl, hhead⟩

end Spectty.Lib.Window
