/-
  Spectty.Lib.Json

  JSON documents.  `Json` is the tree a JSON text denotes: object members
  stay in text order and a repeated member stays repeated, since a typed
  reader rejects a repeated field while a `Value` reader keeps the last one.

  `Json.toValue` is that second reading: it merges repeated members, and the
  accessors `get`, `asStr`, `isNull`, `isObject` are the ones of a value
  type built this way.

  `Json.IsValue` is what a value type holds: no object repeats a member.
  Reading gives such a document and leaves one alone.

  `SerdeJson` is the text layer: a reader and a writer that are inverse on
  written documents.  `SerdeJson.compact` (`Spectty.Lib.JsonText`) is one.
-/

import Mathlib.Data.List.Basic
import Spectty.Lib.IndexMap

namespace Spectty.Lib

/-- A JSON document.  `float m e` is a number written with a fraction or an
    exponent, as the decimal `m * 10 ^ e`. -/
inductive Json where
  | null
  | bool (b : Bool)
  | int (n : Int)
  | float (mantissa exponent : Int)
  | str (s : String)
  | arr (items : List Json)
  | obj (members : List (String × Json))
deriving Inhabited

namespace Json

/-- The member `key` of an object, as a value type looks it up. -/
def get (key : String) : Json → Option Json
  | .obj members => members.lookup key
  | _ => none

/-- The text of a JSON string. -/
def asStr : Json → Option String
  | .str s => some s
  | _ => none

/-- The document is `null`. -/
def isNull : Json → Bool
  | .null => true
  | _ => false

/-- The document is an object. -/
def isObject : Json → Bool
  | .obj _ => true
  | _ => false

@[simp] theorem get_obj (key : String) (members : List (String × Json)) :
    (Json.obj members).get key = members.lookup key := rfl

@[simp] theorem asStr_str (s : String) : (Json.str s).asStr = some s := rfl

@[simp] theorem asStr_null : Json.null.asStr = none := rfl

theorem asStr_eq_some {j : Json} {s : String} : j.asStr = some s ↔ j = .str s := by
  cases j <;> simp [asStr]

-- ============================================================================
-- Reading into a value type
-- ============================================================================

/-- Insert a member into a map in insertion order: a repeated key keeps its
    place and takes the new value. -/
def setMember (key : String) (v : Json) : List (String × Json) → List (String × Json)
  | [] => [(key, v)]
  | (k, w) :: rest => if k = key then (k, v) :: rest else (k, w) :: setMember key v rest

mutual

/-- The document with repeated object members merged, the last one winning. -/
def toValue : Json → Json
  | .arr items => .arr (toValues items)
  | .obj members => .obj (toMembers members [])
  | j => j

/-- `toValue` of each item. -/
def toValues : List Json → List Json
  | [] => []
  | j :: rest => toValue j :: toValues rest

/-- The members read so far, extended by the rest of the text. -/
def toMembers : List (String × Json) → List (String × Json) → List (String × Json)
  | [], acc => acc
  | (k, v) :: rest, acc => toMembers rest (setMember k (toValue v) acc)

end

@[simp] theorem toValue_null : Json.null.toValue = .null := by rw [toValue] <;> simp
@[simp] theorem toValue_str (s : String) : (Json.str s).toValue = .str s := by
  rw [toValue] <;> simp

theorem toValue_obj (members : List (String × Json)) :
    (Json.obj members).toValue = .obj (toMembers members []) := by rw [toValue]

theorem lookup_setMember (key k : String) (v : Json) (members : List (String × Json)) :
    (setMember k v members).lookup key = if key = k then some v else members.lookup key := by
  induction members with
  | nil => simp [setMember, List.lookup_cons]; grind
  | cons m rest ih =>
      obtain ⟨k', w⟩ := m
      simp only [setMember]
      split <;> simp only [List.lookup_cons, ih] <;> grind

/-- A value's member is the last one of that name in the text. -/
theorem lookup_toMembers (key : String) (members acc : List (String × Json)) :
    (toMembers members acc).lookup key =
      ((members.reverse.lookup key).map toValue).or (acc.lookup key) := by
  induction members generalizing acc with
  | nil => simp [toMembers]
  | cons m rest ih =>
      obtain ⟨k, v⟩ := m
      rw [toMembers, ih, lookup_setMember, List.reverse_cons, List.lookup_append]
      by_cases h : key = k
      · subst h
        cases rest.reverse.lookup key <;> simp
      · have hb : (key == k) = false := by simpa using h
        cases rest.reverse.lookup key <;> simp [List.lookup_cons, h, hb]

/-- Reading a member of a parsed object. -/
theorem get_toValue_obj (key : String) (members : List (String × Json)) :
    (Json.obj members).toValue.get key = (members.reverse.lookup key).map toValue := by
  rw [toValue_obj, get_obj, lookup_toMembers]
  simp

theorem setMember_eq_insert (key : String) (v : Json) (members : List (String × Json)) :
    setMember key v members = IndexMap.insert key v members := by
  induction members with
  | nil => rfl
  | cons m rest ih =>
      obtain ⟨k, w⟩ := m
      rw [setMember, IndexMap.insert, ih]
      by_cases hk : k = key
      · rw [if_pos hk, if_pos hk, hk]
      · rw [if_neg hk, if_neg hk]

-- ============================================================================
-- Values
-- ============================================================================

mutual

/-- No object of the document repeats a member. -/
def IsValue : Json → Prop
  | .arr items => ItemsAreValues items
  | .obj members => (IndexMap.keys members).Nodup ∧ MembersAreValues members
  | _ => True

/-- `IsValue` of each item. -/
def ItemsAreValues : List Json → Prop
  | [] => True
  | j :: rest => IsValue j ∧ ItemsAreValues rest

/-- `IsValue` of each member. -/
def MembersAreValues : List (String × Json) → Prop
  | [] => True
  | (_, v) :: rest => IsValue v ∧ MembersAreValues rest

end

theorem itemsAreValues_iff {items : List Json} : ItemsAreValues items ↔ ∀ j ∈ items, IsValue j := by
  induction items with
  | nil => simp [ItemsAreValues]
  | cons j rest ih => rw [ItemsAreValues, ih, List.forall_mem_cons]

theorem membersAreValues_iff {members : List (String × Json)} :
    MembersAreValues members ↔ ∀ m ∈ members, IsValue m.2 := by
  induction members with
  | nil => simp [MembersAreValues]
  | cons m rest ih =>
      obtain ⟨k, v⟩ := m
      rw [MembersAreValues, ih, List.forall_mem_cons]

@[simp] theorem isValue_null : IsValue .null := by simp [IsValue]
@[simp] theorem isValue_bool (b : Bool) : IsValue (.bool b) := by simp [IsValue]
@[simp] theorem isValue_str (s : String) : IsValue (.str s) := by simp [IsValue]

theorem isValue_arr {items : List Json} : IsValue (.arr items) ↔ ∀ j ∈ items, IsValue j := by
  rw [IsValue, itemsAreValues_iff]

theorem isValue_obj {members : List (String × Json)} :
    IsValue (.obj members) ↔ (IndexMap.keys members).Nodup ∧ ∀ m ∈ members, IsValue m.2 := by
  rw [IsValue, membersAreValues_iff]

theorem IsValue.nodup {members : List (String × Json)} (h : IsValue (.obj members)) :
    (IndexMap.keys members).Nodup := (isValue_obj.mp h).1

theorem IsValue.lookup {members : List (String × Json)} {key : String} {v : Json}
    (h : IsValue (.obj members)) (hv : members.lookup key = some v) : IsValue v :=
  (isValue_obj.mp h).2 _ (IndexMap.mem_of_lookup hv)

theorem IsValue.get {j v : Json} {key : String} (h : IsValue j) (hv : j.get key = some v) :
    IsValue v := by
  cases j with
  | obj members => exact h.lookup hv
  | _ => cases hv

theorem IsValue.insert {members : List (String × Json)} {key : String} {v : Json}
    (h : IsValue (.obj members)) (hv : IsValue v) :
    IsValue (.obj (IndexMap.insert key v members)) := by
  rw [isValue_obj] at h ⊢
  refine ⟨IndexMap.nodup_insert h.1, fun m hm => ?_⟩
  rcases IndexMap.mem_insert hm with rfl | hmem
  · exact hv
  · exact h.2 m hmem

mutual

/-- A value is read as it is. -/
theorem toValue_of_isValue : ∀ {j : Json}, IsValue j → j.toValue = j
  | .null, _ => toValue_null
  | .bool _, _ => by rw [toValue] <;> simp
  | .int _, _ => by rw [toValue] <;> simp
  | .float _ _, _ => by rw [toValue] <;> simp
  | .str s, _ => toValue_str s
  | .arr items, h => by
      rw [toValue, toValues_of_areValues (show ItemsAreValues items by simpa [IsValue] using h)]
  | .obj members, h => by
      have hm : (IndexMap.keys members).Nodup ∧ MembersAreValues members := by
        simpa [IsValue] using h
      have hnodup : (IndexMap.keys ([] ++ members)).Nodup := hm.1
      rw [toValue_obj, toMembers_of_areValues hnodup hm.2, List.nil_append]

/-- So is each item. -/
theorem toValues_of_areValues : ∀ {items : List Json}, ItemsAreValues items → toValues items = items
  | [], _ => by rw [toValues]
  | _ :: _, h => by
      rw [ItemsAreValues] at h
      rw [toValues, toValue_of_isValue h.1, toValues_of_areValues h.2]

/-- And each member, as long as its name is new. -/
theorem toMembers_of_areValues : ∀ {members acc : List (String × Json)},
    (IndexMap.keys (acc ++ members)).Nodup → MembersAreValues members →
    toMembers members acc = acc ++ members
  | [], acc, _, _ => by rw [toMembers, List.append_nil]
  | (k, v) :: rest, acc, hnodup, h => by
      rw [MembersAreValues] at h
      have happend : acc ++ (k, v) :: rest = acc ++ [(k, v)] ++ rest := by simp
      have hk : k ∉ IndexMap.keys acc := by
        intro hmem
        rw [IndexMap.keys_append, List.nodup_append] at hnodup
        exact hnodup.2.2 k hmem k List.mem_cons_self rfl
      rw [toMembers, toValue_of_isValue h.1, setMember_eq_insert, IndexMap.insert_of_not_mem hk,
        toMembers_of_areValues (happend ▸ hnodup) h.2, happend]

end

mutual

/-- What is read is a value. -/
theorem isValue_toValue : ∀ j : Json, IsValue j.toValue
  | .null => by rw [toValue_null]; exact isValue_null
  | .bool b => by rw [toValue] <;> simp
  | .int _ => by rw [toValue] <;> simp [IsValue]
  | .float _ _ => by rw [toValue] <;> simp [IsValue]
  | .str s => by rw [toValue_str]; exact isValue_str s
  | .arr items => by
      rw [toValue, isValue_arr]
      exact isValue_toValues items
  | .obj members => by
      rw [toValue_obj, isValue_obj]
      exact isValue_toMembers members [] List.nodup_nil (by simp)

/-- So is each item. -/
theorem isValue_toValues : ∀ items : List Json, ∀ j ∈ toValues items, IsValue j
  | [] => by rw [toValues]; simp
  | j :: rest => by
      rw [toValues, List.forall_mem_cons]
      exact ⟨isValue_toValue j, isValue_toValues rest⟩

/-- And the members, each name once. -/
theorem isValue_toMembers : ∀ members acc : List (String × Json), (IndexMap.keys acc).Nodup →
    (∀ m ∈ acc, IsValue m.2) →
    (IndexMap.keys (toMembers members acc)).Nodup ∧ ∀ m ∈ toMembers members acc, IsValue m.2
  | [], acc, hnodup, h => by
      rw [toMembers]
      exact ⟨hnodup, h⟩
  | (k, v) :: rest, acc, hnodup, h => by
      rw [toMembers, setMember_eq_insert]
      refine isValue_toMembers rest _ (IndexMap.nodup_insert hnodup) fun m hm => ?_
      rcases IndexMap.mem_insert hm with rfl | hmem
      · exact isValue_toValue v
      · exact h m hmem

end

end Json

/-- A JSON text layer: what a text reads as, and the text a document is
    written as.  Reading back what was written gives the same document.  The
    law leaves aside what a reader's number type and nesting limit exclude:
    such documents come from no text. -/
structure SerdeJson where
  fromStr : String → Option Json
  toString : Json → String
  fromStr_toString : ∀ j, fromStr (toString j) = some j

attribute [simp] SerdeJson.fromStr_toString

namespace SerdeJson

variable (J : SerdeJson)

/-- Read a text into a value type. -/
def toValue (text : String) : Option Json := (J.fromStr text).map Json.toValue

@[simp] theorem toValue_toString (j : Json) : J.toValue (J.toString j) = some j.toValue := by
  simp [toValue]

/-- A written value is read back. -/
theorem toValue_toString_value {j : Json} (h : j.IsValue) : J.toValue (J.toString j) = some j := by
  rw [toValue_toString, Json.toValue_of_isValue h]

variable {J}

/-- What a text reads as is a value. -/
theorem isValue_of_toValue {text : String} {j : Json} (h : J.toValue text = some j) :
    j.IsValue := by
  unfold toValue at h
  obtain ⟨j', -, rfl⟩ := Option.map_eq_some_iff.mp h
  exact Json.isValue_toValue j'

end SerdeJson

end Spectty.Lib
