/-
  Spectty.Lib.IndexMap

  Maps in insertion order, as the list of their entries.

  - `insert` replaces the value of a present key in its place and appends an
    absent one;
  - `entryOrInsert` appends an absent key and leaves a present one alone;
  - `swapRemove` moves the last entry into the place of the removed one.

  Every operation keeps the keys distinct.  `others k` is what a map holds
  besides `k`, in order: `insert` keeps it, and `others_swapRemove` says
  exactly when `swapRemove` does.
-/

import Mathlib.Data.List.Nodup

namespace Spectty.Lib.IndexMap

variable {K V : Type}

/-- The keys, in order. -/
abbrev keys (m : List (K × V)) : List K := m.map Prod.fst

theorem keys_cons (e : K × V) (m : List (K × V)) : keys (e :: m) = e.1 :: keys m := rfl

theorem keys_append (m m' : List (K × V)) : keys (m ++ m') = keys m ++ keys m' := List.map_append

variable [DecidableEq K] {k j : K} {v w : V} {m m' : List (K × V)}

/-- Replace the value of `k` in its place, or append the entry. -/
def insert (k : K) (v : V) : List (K × V) → List (K × V)
  | [] => [(k, v)]
  | (k', w) :: rest => if k' = k then (k, v) :: rest else (k', w) :: insert k v rest

/-- Append the entry when the key is absent. -/
def entryOrInsert (k : K) (v : V) (m : List (K × V)) : List (K × V) :=
  if k ∈ keys m then m else m ++ [(k, v)]

/-- The entries behind a removed one: the last moves to the front. -/
def fillHole (rest : List (K × V)) : List (K × V) :=
  match rest.getLast? with
  | none => []
  | some last => last :: rest.dropLast

/-- Remove `k`, moving the last entry into its place. -/
def swapRemove (k : K) : List (K × V) → List (K × V)
  | [] => []
  | (k', w) :: rest => if k' = k then fillHole rest else (k', w) :: swapRemove k rest

/-- The entries under other keys, in order. -/
def others (k : K) (m : List (K × V)) : List (K × V) := m.filter fun e => e.1 ≠ k

-- ============================================================================
-- Lookup
-- ============================================================================

theorem lookup_eq_none : m.lookup k = none ↔ k ∉ keys m := by
  rw [List.lookup_eq_none_iff, List.mem_map]
  constructor
  · rintro h ⟨e, he, rfl⟩
    exact absurd (h e he) (by simp)
  · intro h e he
    rw [bne_iff_ne]
    rintro rfl
    exact h ⟨e, he, rfl⟩

theorem mem_keys (h : m.lookup k = some v) : k ∈ keys m := by
  by_contra hk
  rw [lookup_eq_none.mpr hk] at h
  cases h

theorem mem_of_lookup (h : m.lookup k = some v) : (k, v) ∈ m := by
  induction m with
  | nil => cases h
  | cons e rest ih =>
      obtain ⟨k', w⟩ := e
      rw [List.lookup_cons] at h
      split at h
      case h_1 hk =>
          obtain rfl := eq_of_beq hk
          obtain rfl := Option.some.inj h
          exact List.mem_cons_self
      case h_2 hk => exact List.mem_cons_of_mem _ (ih h)

theorem lookup_of_mem (hm : (keys m).Nodup) (h : (k, v) ∈ m) : m.lookup k = some v := by
  induction m with
  | nil => cases h
  | cons e rest ih =>
      obtain ⟨k', w⟩ := e
      obtain ⟨hk', hrest⟩ := List.nodup_cons.mp hm
      rw [List.lookup_cons]
      rcases List.mem_cons.mp h with he | hmem
      · obtain ⟨rfl, rfl⟩ := Prod.mk.inj he
        rw [beq_self_eq_true]
      · have hne : (k == k') = false := by
          rw [beq_eq_false_iff_ne]
          rintro rfl
          exact hk' (List.mem_map.mpr ⟨_, hmem, rfl⟩)
        rw [hne]
        exact ih hrest hmem

/-- A map is the order of its keys and the value under each. -/
theorem ext (hm : (keys m).Nodup) (hkeys : keys m = keys m')
    (hlookup : ∀ k, m.lookup k = m'.lookup k) : m = m' := by
  induction m generalizing m' with
  | nil =>
      have hnil : m' = [] := List.map_eq_nil_iff.mp hkeys.symm
      exact hnil.symm
  | cons e rest ih =>
      obtain ⟨k, v⟩ := e
      cases m' with
      | nil => cases hkeys
      | cons e' rest' =>
          obtain ⟨k', v'⟩ := e'
          obtain ⟨rfl, hrest⟩ := List.cons.inj hkeys
          have hv := hlookup k
          simp only [List.lookup_cons, beq_self_eq_true] at hv
          obtain rfl := Option.some.inj hv
          obtain ⟨hk, hnodup⟩ := List.nodup_cons.mp hm
          congr 1
          apply ih hnodup hrest
          intro j
          by_cases hj : j = k
          · subst hj
            have hk' : j ∉ keys rest' := by
              rw [keys, ← hrest]
              exact hk
            rw [lookup_eq_none.mpr hk, lookup_eq_none.mpr hk']
          · have hlk := hlookup j
            have hne : (j == k) = false := beq_eq_false_iff_ne.mpr hj
            simpa only [List.lookup_cons, hne] using hlk

-- ============================================================================
-- Insertion
-- ============================================================================

theorem lookup_insert : (insert k v m).lookup j = if j = k then some v else m.lookup j := by
  induction m with
  | nil =>
      rw [insert, List.lookup_cons]
      by_cases h : j = k
      · rw [if_pos h, beq_iff_eq.mpr h]
      · rw [if_neg h, beq_eq_false_iff_ne.mpr h]
  | cons e rest ih =>
      obtain ⟨k', w⟩ := e
      rw [insert]
      split
      case isTrue hk =>
          subst hk
          by_cases h : j = k'
          · rw [List.lookup_cons, if_pos h, beq_iff_eq.mpr h]
          · rw [List.lookup_cons, List.lookup_cons, if_neg h, beq_eq_false_iff_ne.mpr h]
      case isFalse hk =>
          by_cases h : j = k'
          · subst h
            rw [List.lookup_cons, List.lookup_cons, if_neg hk, beq_self_eq_true]
          · rw [List.lookup_cons, List.lookup_cons, beq_eq_false_iff_ne.mpr h, ih]

@[simp] theorem lookup_insert_self : (insert k v m).lookup k = some v := by
  rw [lookup_insert, if_pos rfl]

theorem lookup_insert_other (h : j ≠ k) : (insert k v m).lookup j = m.lookup j := by
  rw [lookup_insert, if_neg h]

theorem insert_of_not_mem (h : k ∉ keys m) : insert k v m = m ++ [(k, v)] := by
  induction m with
  | nil => rfl
  | cons e rest ih =>
      obtain ⟨k', w⟩ := e
      rw [keys_cons, List.mem_cons, not_or] at h
      rw [insert, if_neg (Ne.symm h.1), ih h.2, List.cons_append]

theorem keys_insert_of_mem (h : k ∈ keys m) : keys (insert k v m) = keys m := by
  induction m with
  | nil => cases h
  | cons e rest ih =>
      obtain ⟨k', w⟩ := e
      rw [insert]
      split
      case isTrue hk => rw [keys_cons, keys_cons, hk]
      case isFalse hk =>
          have hrest : k ∈ keys rest := (List.mem_cons.mp h).resolve_left (Ne.symm hk)
          rw [keys_cons, keys_cons, ih hrest]

theorem nodup_insert (hm : (keys m).Nodup) : (keys (insert k v m)).Nodup := by
  by_cases h : k ∈ keys m
  · rw [keys_insert_of_mem h]
    exact hm
  · rw [insert_of_not_mem h, keys_append]
    exact List.Nodup.append hm (List.nodup_singleton k) (List.disjoint_singleton.mpr h)

theorem insert_insert : insert k v (insert k w m) = insert k v m := by
  induction m with
  | nil => rw [insert, insert, insert, if_pos rfl]
  | cons e rest ih =>
      obtain ⟨k', u⟩ := e
      by_cases hk : k' = k
      · rw [insert, if_pos hk, insert, if_pos rfl, insert, if_pos hk]
      · rw [insert, if_neg hk, insert, if_neg hk, ih, insert, if_neg hk]

theorem insert_of_lookup (h : m.lookup k = some v) : insert k v m = m := by
  induction m with
  | nil => cases h
  | cons e rest ih =>
      obtain ⟨k', w⟩ := e
      rw [List.lookup_cons] at h
      rw [insert]
      by_cases hk : k' = k
      · subst hk
        rw [beq_self_eq_true] at h
        obtain rfl := Option.some.inj h
        rw [if_pos rfl]
      · rw [beq_eq_false_iff_ne.mpr (Ne.symm hk)] at h
        rw [if_neg hk, ih h]

theorem others_insert : others k (insert k v m) = others k m := by
  induction m with
  | nil => simp [insert, others]
  | cons e rest ih =>
      obtain ⟨k', w⟩ := e
      unfold others at ih ⊢
      by_cases hk : k' = k
      · rw [insert, if_pos hk, List.filter_cons_of_neg (by simp),
          List.filter_cons_of_neg (by simpa)]
      · rw [insert, if_neg hk, List.filter_cons_of_pos (by simpa),
          List.filter_cons_of_pos (by simpa), ih]

/-- The values of an extended map are the old ones and the new one. -/
theorem mem_insert {e : K × V} (h : e ∈ insert k v m) : e = (k, v) ∨ e ∈ m := by
  induction m with
  | nil => exact Or.inl (List.mem_singleton.mp h)
  | cons e' rest ih =>
      obtain ⟨k', w⟩ := e'
      rw [insert] at h
      split at h
      case isTrue hk =>
          rcases List.mem_cons.mp h with he | hmem
          · exact Or.inl he
          · exact Or.inr (List.mem_cons_of_mem _ hmem)
      case isFalse hk =>
          rcases List.mem_cons.mp h with he | hmem
          · exact Or.inr (he ▸ List.mem_cons_self)
          · exact (ih hmem).imp_right (List.mem_cons_of_mem _)

-- ============================================================================
-- Entries
-- ============================================================================

theorem entryOrInsert_of_mem (h : k ∈ keys m) : entryOrInsert k v m = m := if_pos h

theorem entryOrInsert_of_not_mem (h : k ∉ keys m) : entryOrInsert k v m = m ++ [(k, v)] := if_neg h

theorem lookup_entryOrInsert :
    (entryOrInsert k v m).lookup j = if j = k then some ((m.lookup k).getD v) else m.lookup j := by
  by_cases h : k ∈ keys m
  · rw [entryOrInsert_of_mem h]
    split
    case isTrue hj =>
        subst hj
        cases hl : m.lookup j with
        | none => exact absurd h (lookup_eq_none.mp hl)
        | some w => rfl
    case isFalse hj => rfl
  · rw [entryOrInsert_of_not_mem h, ← insert_of_not_mem h, lookup_insert, lookup_eq_none.mpr h]
    rfl

theorem mem_keys_entryOrInsert : j ∈ keys (entryOrInsert k v m) ↔ j = k ∨ j ∈ keys m := by
  by_cases h : k ∈ keys m
  · rw [entryOrInsert_of_mem h]
    constructor
    · exact Or.inr
    · rintro (rfl | hj)
      · exact h
      · exact hj
  · rw [entryOrInsert_of_not_mem h, keys_append, List.mem_append, or_comm]
    simp

theorem nodup_entryOrInsert (hm : (keys m).Nodup) : (keys (entryOrInsert k v m)).Nodup := by
  by_cases h : k ∈ keys m
  · rw [entryOrInsert_of_mem h]
    exact hm
  · rw [entryOrInsert_of_not_mem h, ← insert_of_not_mem h]
    exact nodup_insert hm

/-- Writing to an entry is inserting. -/
theorem insert_entryOrInsert : insert k v (entryOrInsert k w m) = insert k v m := by
  by_cases h : k ∈ keys m
  · rw [entryOrInsert_of_mem h]
  · rw [entryOrInsert_of_not_mem h, ← insert_of_not_mem h, insert_insert]

theorem keys_entryOrInsert_congr (h : keys m = keys m') :
    keys (entryOrInsert k v m) = keys (entryOrInsert k v m') := by
  by_cases hk : k ∈ keys m
  · rw [entryOrInsert_of_mem hk, entryOrInsert_of_mem (h ▸ hk), h]
  · rw [entryOrInsert_of_not_mem hk, entryOrInsert_of_not_mem (h ▸ hk), keys_append, keys_append, h]

theorem keys_insert_entryOrInsert :
    keys (insert k v (entryOrInsert k w m)) = keys (entryOrInsert k w m) :=
  keys_insert_of_mem (mem_keys_entryOrInsert.mpr (Or.inl rfl))

-- ============================================================================
-- Values
-- ============================================================================

omit [DecidableEq K] in
theorem keys_map_value (f : V → V) (m : List (K × V)) :
    keys (m.map fun e => (e.1, f e.2)) = keys m := by
  rw [keys, List.map_map]
  rfl

theorem lookup_map_value (f : V → V) (m : List (K × V)) (k : K) :
    (m.map fun e => (e.1, f e.2)).lookup k = (m.lookup k).map f := by
  induction m with
  | nil => rfl
  | cons e rest ih =>
      obtain ⟨k', w⟩ := e
      rw [List.map_cons, List.lookup_cons, List.lookup_cons, ih]
      cases k == k' <;> rfl

-- ============================================================================
-- Removal
-- ============================================================================

omit [DecidableEq K] in
theorem fillHole_perm (rest : List (K × V)) : (fillHole rest).Perm rest := by
  unfold fillHole
  cases hlast : rest.getLast? with
  | none =>
      rw [List.getLast?_eq_none_iff.mp hlast]
  | some last =>
      have happend : rest.dropLast ++ [last] = rest := List.dropLast_append_getLast? last hlast
      have hperm : (last :: rest.dropLast).Perm (rest.dropLast ++ [last]) :=
        (List.perm_append_singleton last rest.dropLast).symm
      rw [happend] at hperm
      exact hperm

omit [DecidableEq K] in
/-- The entries behind a removed one keep their order only when there is at
    most one. -/
theorem fillHole_eq_iff {rest : List (K × V)} (h : (keys rest).Nodup) :
    fillHole rest = rest ↔ rest.length ≤ 1 := by
  rcases rest with _ | ⟨e, _ | ⟨e', rest⟩⟩
  · exact iff_of_true rfl (by simp)
  · exact iff_of_true rfl (by simp)
  · apply iff_of_false
    · intro he
      have hlast : (e :: e' :: rest).getLast? = some ((e' :: rest).getLast (by simp)) := by
        rw [List.getLast?_cons_cons, List.getLast?_eq_getLast_of_ne_nil]
      rw [fillHole, hlast] at he
      have hfirst : (e' :: rest).getLast (by simp) = e := (List.cons.inj he).1
      have hmem : e ∈ e' :: rest := hfirst ▸ List.getLast_mem _
      exact (List.nodup_cons.mp h).1 (List.mem_map_of_mem hmem)
    · simp

theorem swapRemove_of_not_mem (h : k ∉ keys m) : swapRemove k m = m := by
  induction m with
  | nil => rfl
  | cons e rest ih =>
      obtain ⟨k', w⟩ := e
      rw [keys_cons, List.mem_cons, not_or] at h
      rw [swapRemove, if_neg (Ne.symm h.1), ih h.2]

theorem swapRemove_append {pre post : List (K × V)} (h : k ∉ keys pre) :
    swapRemove k (pre ++ (k, v) :: post) = pre ++ fillHole post := by
  induction pre with
  | nil => rw [List.nil_append, swapRemove, if_pos rfl, List.nil_append]
  | cons e pre ih =>
      obtain ⟨k', w⟩ := e
      rw [keys_cons, List.mem_cons, not_or] at h
      rw [List.cons_append, swapRemove, if_neg (Ne.symm h.1), ih h.2, List.cons_append]

/-- Removing the entry that was appended. -/
theorem swapRemove_concat (h : k ∉ keys m) : swapRemove k (m ++ [(k, v)]) = m := by
  rw [swapRemove_append h]
  exact List.append_nil m

theorem others_of_not_mem (h : k ∉ keys m) : others k m = m := by
  unfold others
  rw [List.filter_eq_self]
  intro e he
  rw [decide_eq_true_eq]
  rintro rfl
  exact h (List.mem_map_of_mem he)

theorem others_append (pre post : List (K × V)) :
    others k (pre ++ post) = others k pre ++ others k post := List.filter_append ..

theorem others_cons_self (rest : List (K × V)) : others k ((k, v) :: rest) = others k rest :=
  List.filter_cons_of_neg (by simp)

omit [DecidableEq K] in
/-- The place of a key. -/
theorem exists_split (hm : (keys m).Nodup) (h : k ∈ keys m) :
    ∃ pre v post, m = pre ++ (k, v) :: post ∧ k ∉ keys pre ∧ k ∉ keys post ∧
      (keys post).Nodup := by
  obtain ⟨e, he, rfl⟩ := List.mem_map.mp h
  obtain ⟨pre, post, rfl⟩ := List.append_of_mem he
  rw [keys_append, keys_cons, List.nodup_append, List.nodup_cons] at hm
  obtain ⟨-, ⟨hpost, hnodup⟩, hdisj⟩ := hm
  refine ⟨pre, e.2, post, rfl, fun hpre => ?_, hpost, hnodup⟩
  exact hdisj _ hpre _ List.mem_cons_self rfl

/-- What is left is what was there besides the key, in some order. -/
theorem swapRemove_perm (hm : (keys m).Nodup) : (swapRemove k m).Perm (others k m) := by
  by_cases h : k ∈ keys m
  · obtain ⟨pre, v, post, rfl, hpre, hpost, -⟩ := exists_split hm h
    rw [swapRemove_append hpre, others_append, others_cons_self, others_of_not_mem hpre,
      others_of_not_mem hpost]
    exact (fillHole_perm post).append_left pre
  · rw [swapRemove_of_not_mem h, others_of_not_mem h]

theorem not_mem_keys_swapRemove (hm : (keys m).Nodup) : k ∉ keys (swapRemove k m) := by
  intro h
  obtain ⟨e, he, hk⟩ := List.mem_map.mp h
  have hother := ((swapRemove_perm hm).mem_iff.mp he)
  rw [others, List.mem_filter, decide_eq_true_eq] at hother
  exact hother.2 hk

theorem nodup_swapRemove (hm : (keys m).Nodup) : (keys (swapRemove k m)).Nodup := by
  have hperm : (keys (swapRemove k m)).Perm (keys (others k m)) := (swapRemove_perm hm).map _
  rw [hperm.nodup_iff]
  exact hm.sublist (List.filter_sublist.map _)

theorem lookup_swapRemove (hm : (keys m).Nodup) :
    (swapRemove k m).lookup j = if j = k then none else m.lookup j := by
  split
  case isTrue hj =>
      subst hj
      exact lookup_eq_none.mpr (not_mem_keys_swapRemove hm)
  case isFalse hj =>
      have hmem : ∀ v, (j, v) ∈ swapRemove k m ↔ (j, v) ∈ m := by
        intro v
        rw [(swapRemove_perm hm).mem_iff, others, List.mem_filter]
        simp [hj]
      cases hl : m.lookup j with
      | some v => exact lookup_of_mem (nodup_swapRemove hm) ((hmem v).mpr (mem_of_lookup hl))
      | none =>
          cases hl' : (swapRemove k m).lookup j with
          | none => rfl
          | some v =>
              rw [lookup_of_mem hm ((hmem v).mp (mem_of_lookup hl'))] at hl
              cases hl

theorem mem_of_mem_swapRemove (hm : (keys m).Nodup) {e : K × V} (h : e ∈ swapRemove k m) : e ∈ m :=
  List.mem_of_mem_filter ((swapRemove_perm hm).mem_iff.mp h)

/-- A removal keeps the order of the other entries exactly when at most one
    of them stands behind the removed one. -/
theorem others_swapRemove (hm : (keys m).Nodup) :
    others k (swapRemove k m) = others k m ↔
      ∀ pre v post, m = pre ++ (k, v) :: post → post.length ≤ 1 := by
  rw [others_of_not_mem (not_mem_keys_swapRemove hm)]
  by_cases h : k ∈ keys m
  · obtain ⟨pre, v, post, rfl, hpre, hpost, hnodup⟩ := exists_split hm h
    rw [swapRemove_append hpre, others_append, others_cons_self, others_of_not_mem hpre,
      others_of_not_mem hpost, List.append_cancel_left_eq, fillHole_eq_iff hnodup]
    constructor
    · intro hlen pre' v' post' he
      -- the key occurs once, so both splits are the same
      have hkeys : keys pre ++ k :: keys post = keys pre' ++ k :: keys post' := by
        rw [← keys_cons (k, v), ← keys_cons (k, v'), ← keys_append, ← keys_append, he]
      have hsame := ((List.append_cons_inj_of_notMem hpre hpost).mp hkeys).2.2
      have hlen' : (keys post).length = (keys post').length := congrArg List.length hsame
      rw [List.length_map, List.length_map] at hlen'
      omega
    · intro hall
      exact hall pre v post rfl
  · rw [swapRemove_of_not_mem h, others_of_not_mem h]
    refine iff_of_true rfl fun pre v post he => absurd ?_ h
    rw [he, keys_append, keys_cons]
    exact List.mem_append_right _ List.mem_cons_self

end Spectty.Lib.IndexMap
