/-
  Spectty.Lib.JsonSchema

  Input schemas, as far as string, enumeration, array and object types go.  An
  object lists the members it requires and the schemas of the members it
  describes; other members are allowed.  `valid_object` and its siblings read
  a schema as what it says of a document.
-/

import Spectty.Lib.Json

namespace Spectty.Lib

/-- A schema. -/
inductive JsonSchema where
  | string
  | enum (values : List String)
  | array (items : JsonSchema)
  | object (required : List String) (properties : List (String × JsonSchema))

namespace JsonSchema

mutual

/-- The document has the type the schema describes. -/
def valid : JsonSchema → Json → Bool
  | .string, j => j.asStr.isSome
  | .enum values, j => j.asStr.any values.contains
  | .array items, .arr js => js.all (valid items)
  | .array _, _ => false
  | .object required properties, j =>
      j.isObject && required.all (fun name => (j.get name).isSome) && validProperties properties j

/-- Each described member that is present is valid. -/
def validProperties : List (String × JsonSchema) → Json → Bool
  | [], _ => true
  | (name, schema) :: rest, j => (j.get name).all (valid schema) && validProperties rest j

end

variable {j : Json}

theorem valid_string : valid .string j = true ↔ ∃ s, j = .str s := by
  rw [valid, Option.isSome_iff_exists]
  simp only [Json.asStr_eq_some]

theorem valid_enum {values : List String} :
    valid (.enum values) j = true ↔ ∃ s ∈ values, j = .str s := by
  rw [valid]
  cases j with
  | str s => simp [Json.asStr]
  | _ => simp [Json.asStr]

theorem valid_array {items : JsonSchema} :
    valid (.array items) j = true ↔ ∃ js, j = .arr js ∧ ∀ x ∈ js, valid items x = true := by
  cases j with
  | arr js => simp [valid]
  | _ => simp [valid]

theorem validProperties_iff {properties : List (String × JsonSchema)} :
    validProperties properties j = true ↔
      ∀ p ∈ properties, ∀ v, j.get p.1 = some v → valid p.2 v = true := by
  induction properties with
  | nil => simp [validProperties]
  | cons p rest ih =>
      obtain ⟨name, schema⟩ := p
      rw [validProperties, Bool.and_eq_true, ih, List.forall_mem_cons]
      cases j.get name <;> simp

theorem valid_object {required : List String} {properties : List (String × JsonSchema)} :
    valid (.object required properties) j = true ↔
      (∃ members, j = .obj members) ∧ (∀ name ∈ required, ∃ v, j.get name = some v) ∧
        ∀ p ∈ properties, ∀ v, j.get p.1 = some v → valid p.2 v = true := by
  rw [valid, Bool.and_eq_true, Bool.and_eq_true, validProperties_iff, and_assoc]
  have hobject : j.isObject = true ↔ ∃ members, j = .obj members := by
    cases j <;> simp [Json.isObject]
  rw [hobject, List.all_eq_true]
  simp only [Option.isSome_iff_exists]

end JsonSchema

end Spectty.Lib
