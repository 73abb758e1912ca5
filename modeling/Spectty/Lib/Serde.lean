/-
  Spectty.Lib.Serde

  Typed readers of JSON documents, as a derived struct or enum reads them.

  A struct is read from an object or from an array.  In an object unknown
  members are skipped and a repeated known member is an error; an array is
  positional and may stop early but not run over.  `readFields` gives what
  either form says of each field; `required` and `defaulted` read one field
  from there.

  The second half is the reading of written objects: a document whose known
  members are the struct's own is read back field by field.
-/

import Spectty.Lib.Json
import Mathlib.Algebra.Group.Int.Defs
import Mathlib.Algebra.Group.Nat.Defs
import Mathlib.Data.List.Nodup

namespace Spectty.Lib.Serde

variable {α β : Type}

/-- A typed reader. -/
abbrev Decode (α : Type) := Json → Option α

/-- Read a string. -/
def string : Decode String := Json.asStr

/-- Read a boolean. -/
def bool : Decode Bool
  | .bool b => some b
  | _ => none

/-- Read an unsigned 64-bit integer. -/
def u64 : Decode Nat
  | .int n => if 0 ≤ n ∧ n < 2 ^ 64 then some n.toNat else none
  | _ => none

/-- Read an optional value: `null` is absent. -/
def option (d : Decode α) : Decode (Option α)
  | .null => some none
  | j => (d j).map some

/-- Read an array of values. -/
def vec (d : Decode α) : Decode (List α)
  | .arr items => items.mapM d
  | _ => none

/-- Read an enumeration of unit variants: the variant's name, or an object
    with the name as its only member and `null` under it. -/
def unitEnum (variants : List (String × α)) : Decode α
  | .str s => variants.lookup s
  | .obj [(s, .null)] => variants.lookup s
  | _ => none

/-- What a document says of the fields of a struct. -/
def readFields (names : List String) : Json → Option (List (String × Json))
  | .obj members =>
      let known := members.filter fun m => decide (m.1 ∈ names)
      if (known.map Prod.fst).Nodup then some known else none
  | .arr items => if items.length ≤ names.length then some (names.zip items) else none
  | _ => none

/-- Read a field that must be there. -/
def required (fields : List (String × Json)) (name : String) (d : Decode α) : Option α :=
  (fields.lookup name).bind d

/-- Read a field that may be left out. -/
def defaulted (fields : List (String × Json)) (name : String) (default : α) (d : Decode α) :
    Option α :=
  match fields.lookup name with
  | none => some default
  | some j => d j

-- ============================================================================
-- Reading what was written
-- ============================================================================

@[simp] theorem string_str (s : String) : string (.str s) = some s := rfl

theorem string_eq_some {j : Json} {s : String} : string j = some s ↔ j = .str s :=
  Json.asStr_eq_some

/-- A number that fits is read. -/
theorem u64_natCast {n : Nat} (h : n < 2 ^ 64) : u64 (.int n) = some n := by
  have h' : (n : Int) < 2 ^ 64 := by exact_mod_cast h
  rw [u64, if_pos ⟨Int.natCast_nonneg n, h'⟩, Int.toNat_natCast]

/-- A field that is there is read. -/
theorem required_of_lookup {fields : List (String × Json)} {name : String} {j : Json}
    (h : fields.lookup name = some j) (d : Decode α) : required fields name d = d j := by
  rw [required, h, Option.bind_some]

@[simp] theorem option_null (d : Decode α) : option d .null = some none := rfl

@[simp] theorem option_str (d : Decode α) (s : String) :
    option d (.str s) = (d (.str s)).map some := rfl

theorem mapM_string_map (items : List String) :
    (items.map Json.str).mapM string = some items := by
  induction items with
  | nil => rfl
  | cons s items ih => simp [ih]

@[simp] theorem vec_string_map (items : List String) :
    vec string (.arr (items.map .str)) = some items := mapM_string_map items

/-- The documents that read as a list of strings. -/
theorem vec_string_eq_some {j : Json} {items : List String} :
    vec string j = some items ↔ j = .arr (items.map .str) := by
  constructor
  · intro h
    cases j with
    | arr js =>
        have h' : js.mapM string = some items := h
        clear h
        congr 1
        induction js generalizing items with
        | nil => simp_all
        | cons j js ih =>
            simp only [List.mapM_cons, Option.bind_eq_bind, Option.bind_eq_some_iff,
              Option.pure_def, Option.some.injEq] at h'
            obtain ⟨s, hs, rest, hrest, rfl⟩ := h'
            rw [List.map_cons, ih hrest, string_eq_some.mp hs]
    | _ => simp [vec] at h
  · rintro rfl
    exact vec_string_map items

@[simp] theorem unitEnum_str (variants : List (String × α)) (s : String) :
    unitEnum variants (.str s) = variants.lookup s := rfl

/-- An object with known members only, each once, is read as it is. -/
theorem readFields_obj {names : List String} {members : List (String × Json)}
    (hknown : ∀ m ∈ members, m.1 ∈ names) (hnodup : (members.map Prod.fst).Nodup) :
    readFields names (.obj members) = some members := by
  have hfilter : members.filter (fun m => decide (m.1 ∈ names)) = members :=
    List.filter_eq_self.mpr fun m hm => decide_eq_true (hknown m hm)
  simp only [readFields, hfilter, if_pos hnodup]

-- ============================================================================
-- Struct reader and value reader
-- ============================================================================

theorem lookup_filter_names {names : List String} {name : String} (hname : name ∈ names)
    (members : List (String × Json)) :
    (members.filter fun m => decide (m.1 ∈ names)).lookup name = members.lookup name := by
  induction members with
  | nil => rfl
  | cons m members ih =>
      obtain ⟨k, v⟩ := m
      by_cases hk : k ∈ names
      · rw [List.filter_cons_of_pos (by simpa using hk), List.lookup_cons, List.lookup_cons, ih]
      · have hne : (name == k) = false := by
          rw [beq_eq_false_iff_ne]
          rintro rfl
          exact hk hname
        rw [List.filter_cons_of_neg (by simpa using hk), List.lookup_cons, hne, ih]

theorem lookup_reverse_of_nodup {members : List (String × Json)} (name : String)
    (h : (members.map Prod.fst).Nodup) : members.reverse.lookup name = members.lookup name := by
  induction members with
  | nil => rfl
  | cons m members ih =>
      obtain ⟨k, v⟩ := m
      rw [List.map_cons, List.nodup_cons] at h
      rw [List.reverse_cons, List.lookup_append, ih h.2]
      by_cases hk : name = k
      · subst hk
        have hnone : members.lookup name = none := by
          rw [List.lookup_eq_none_iff]
          intro p hp
          rw [bne_iff_ne]
          rintro rfl
          exact h.1 (List.mem_map.mpr ⟨p, hp, rfl⟩)
        simp [hnone]
      · have hne : (name == k) = false := by simpa using hk
        simp [List.lookup_cons, hne]

/-- On an object that a struct reader accepts, a value reader sees the same
    member under a known name. -/
theorem lookup_readFields_obj {names : List String} {name : String}
    {members fields : List (String × Json)} (hname : name ∈ names)
    (h : readFields names (.obj members) = some fields) :
    members.reverse.lookup name = fields.lookup name := by
  simp only [readFields] at h
  split at h
  · rename_i hnodup
    obtain rfl := Option.some.inj h
    rw [← lookup_filter_names hname, List.filter_reverse, lookup_reverse_of_nodup name hnodup]
  · cases h

/-- A struct reader accepts every object value, and finds each known field
    where the value has it. -/
theorem readFields_value (names : List String) {members : List (String × Json)}
    (h : (members.map Prod.fst).Nodup) :
    ∃ fields, readFields names (.obj members) = some fields ∧
      ∀ name ∈ names, fields.lookup name = members.lookup name := by
  have hnodup : ((members.filter fun m => decide (m.1 ∈ names)).map Prod.fst).Nodup :=
    h.sublist (List.filter_sublist.map _)
  refine ⟨members.filter fun m => decide (m.1 ∈ names), ?_, fun name hname => ?_⟩
  · simp only [readFields, if_pos hnodup]
  · exact lookup_filter_names hname members

/-- A field that must be there is read when it is there and readable. -/
theorem required_ne_none {fields : List (String × Json)} {name : String} {d : Decode α} :
    required fields name d ≠ none ↔ ∃ v, fields.lookup name = some v ∧ d v ≠ none := by
  unfold required
  cases fields.lookup name <;> simp

/-- A field that may be left out is read unless it is there and unreadable. -/
theorem defaulted_ne_none {fields : List (String × Json)} {name : String} {default : α}
    {d : Decode α} :
    defaulted fields name default d ≠ none ↔ ∀ v, fields.lookup name = some v → d v ≠ none := by
  unfold defaulted
  cases fields.lookup name <;> simp

end Spectty.Lib.Serde
