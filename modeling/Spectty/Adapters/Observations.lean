/-
  Spectty.Adapters.Observations

  The two readers of `GET /observations`: the application's
  (`getObservationAsync`) and the sidecar's (`get`).  Each lists all rows and
  picks the latest of the wanted topic.

  The row types are two copies that differ in one default: the sidecar's takes
  a row without `updated_at` (`readers_agree_iff`).
-/

import Spectty.Lib.Serde
import Spectty.Effects

namespace Spectty.Adapters.Observations

open Spectty.Lib (Json)
open Spectty.Lib.Serde

/-- A row, as both sides hold it. -/
structure RawObs where
  topicKey : Option String
  content : String
  updatedAt : String
deriving DecidableEq, Repr

/-- The fields both sides read. -/
def rowFields : List String := ["topic_key", "content", "updated_at"]

/-- The application's row. -/
def RawObs.decodeApp : Decode RawObs := fun j => do
  let fields ← readFields rowFields j
  let topicKey ← defaulted fields "topic_key" none (option string)
  let content ← required fields "content" string
  let updatedAt ← required fields "updated_at" string
  return { topicKey, content, updatedAt }

/-- The sidecar's row. -/
def RawObs.decodeSidecar : Decode RawObs := fun j => do
  let fields ← readFields rowFields j
  let topicKey ← defaulted fields "topic_key" none (option string)
  let content ← required fields "content" string
  let updatedAt ← defaulted fields "updated_at" "" string
  return { topicKey, content, updatedAt }

/-- Two keys are the same but for the case of ASCII letters. -/
def eqIgnoreAsciiCase (a b : String) : Bool := storeKey a = storeKey b

/-- A greatest element, the last one of several. -/
def maxBy {α : Type} (gt : α → α → Bool) : List α → Option α
  | [] => none
  | a :: rest => some (rest.foldl (fun x y => if gt x y then x else y) a)

/-- The latest row of a topic.  Strings compare by their code points, as their
    bytes do. -/
def latest (topicKey : String) (rows : List RawObs) : Option RawObs :=
  maxBy (fun a b => decide (b.updatedAt < a.updatedAt)) <|
    rows.filter fun r => (r.topicKey.map (eqIgnoreAsciiCase · (storeKey topicKey))).getD false

/-- A retrieved observation. -/
structure Obs where
  content : String
  updatedAt : String
deriving DecidableEq, Repr

/-- The application's reader: `none` when the body cannot be read. -/
def getObservationAsync (body : Json) (topicKey : String) : Option (Option Obs) := do
  let rows ← vec RawObs.decodeApp body
  return (latest topicKey rows).map fun r => { content := r.content, updatedAt := r.updatedAt }

/-- The sidecar's reader: `none` when the body cannot be read. -/
def get (body : Json) (topicKey : String) : Option (Option String) := do
  let rows ← vec RawObs.decodeSidecar body
  return (latest topicKey rows).map (·.content)

/-- The keys that the store does not tell apart read the same. -/
theorem latest_storeKey {k k' : String} (h : storeKey k = storeKey k') (rows : List RawObs) :
    latest k rows = latest k' rows := by
  rw [latest, latest, h]

-- ============================================================================
-- The rows each side accepts
-- ============================================================================

/-- A row with the fields of an observation, `updated_at` perhaps left out. -/
def WellTyped (row : Json) : Prop :=
  ∃ fields, readFields rowFields row = some fields ∧
    (∀ v, fields.lookup "topic_key" = some v → v = .null ∨ ∃ key, v = .str key) ∧
    (∃ text, fields.lookup "content" = some (.str text)) ∧
    ∀ v, fields.lookup "updated_at" = some v → ∃ time, v = .str time

/-- A row without `updated_at`. -/
def Undated (row : Json) : Prop :=
  ∃ fields, readFields rowFields row = some fields ∧ fields.lookup "updated_at" = none

theorem string_ne_none {v : Json} : string v ≠ none ↔ ∃ s, v = .str s := by
  cases v <;> simp [string, Json.asStr]

theorem option_string_ne_none {v : Json} :
    option string v ≠ none ↔ v = .null ∨ ∃ s, v = .str s := by
  cases v <;> simp [option, string, Json.asStr]

theorem decodeSidecar_ne_none {row : Json} :
    RawObs.decodeSidecar row ≠ none ↔ WellTyped row := by
  have hfields : RawObs.decodeSidecar row ≠ none ↔
      ∃ fields, readFields rowFields row = some fields ∧
      defaulted fields "topic_key" none (option string) ≠ none ∧
      required fields "content" string ≠ none ∧
      defaulted fields "updated_at" "" string ≠ none := by
    simp only [RawObs.decodeSidecar, Option.bind_eq_bind, Option.pure_def,
      Option.ne_none_iff_exists', Option.bind_eq_some_iff]
    constructor
    · rintro ⟨_, fields, hfields, key, hkey, text, htext, time, htime, -⟩
      exact ⟨fields, hfields, ⟨key, hkey⟩, ⟨text, htext⟩, ⟨time, htime⟩⟩
    · rintro ⟨fields, hfields, ⟨key, hkey⟩, ⟨text, htext⟩, ⟨time, htime⟩⟩
      exact ⟨_, fields, hfields, key, hkey, text, htext, time, htime, rfl⟩
  have hcontent : ∀ fields : List (String × Json),
      (∃ v, fields.lookup "content" = some v ∧ ∃ s, v = .str s) ↔
        ∃ s, fields.lookup "content" = some (.str s) := by
    intro fields
    constructor
    · rintro ⟨_, hv, s, rfl⟩
      exact ⟨s, hv⟩
    · rintro ⟨s, hv⟩
      exact ⟨_, hv, s, rfl⟩
  rw [hfields]
  simp only [defaulted_ne_none, required_ne_none, string_ne_none, option_string_ne_none, hcontent]
  rfl

theorem decodeApp_eq {row : Json} (h : ¬ Undated row) :
    RawObs.decodeApp row = RawObs.decodeSidecar row := by
  unfold RawObs.decodeApp RawObs.decodeSidecar
  cases hfields : readFields rowFields row with
  | none => rfl
  | some fields =>
      have hdated : fields.lookup "updated_at" ≠ none := fun hnone => h ⟨fields, hfields, hnone⟩
      cases hlookup : fields.lookup "updated_at" with
      | none => exact absurd hlookup hdated
      | some v =>
          have hsame : required fields "updated_at" string =
              defaulted fields "updated_at" "" string := by
            rw [required_of_lookup hlookup, defaulted, hlookup]
          simp only [Option.bind_eq_bind, Option.bind_some, hsame]

theorem decodeApp_undated {row : Json} (h : Undated row) : RawObs.decodeApp row = none := by
  obtain ⟨fields, hfields, hnone⟩ := h
  have hrequired : required fields "updated_at" string = none := by rw [required, hnone]; rfl
  unfold RawObs.decodeApp
  rw [hfields]
  simp [hrequired]

-- ============================================================================
-- The bodies on which they agree
-- ============================================================================

theorem mapM_eq_none {α β : Type} {f : α → Option β} {items : List α} :
    items.mapM f = none ↔ ∃ a ∈ items, f a = none := by
  induction items with
  | nil => simp
  | cons a items ih =>
      rw [List.mapM_cons]
      cases hfa : f a <;> cases hrest : items.mapM f <;> simp_all

theorem mapM_congr {α β : Type} {f g : α → Option β} {items : List α}
    (h : ∀ a ∈ items, f a = g a) : items.mapM f = items.mapM g := by
  induction items with
  | nil => rfl
  | cons a items ih =>
      rw [List.mapM_cons, List.mapM_cons, h a (by simp), ih fun b hb => h b (by simp [hb])]

/-- What the application reads, as the sidecar holds it. -/
def contentOf (answer : Option (Option Obs)) : Option (Option String) :=
  answer.map (·.map (·.content))

theorem contentOf_getObservationAsync (body : Json) (topicKey : String) :
    contentOf (getObservationAsync body topicKey) =
      (vec RawObs.decodeApp body).map fun rows => (latest topicKey rows).map (·.content) := by
  unfold getObservationAsync contentOf
  cases vec RawObs.decodeApp body with
  | none => rfl
  | some rows => exact congrArg some (Option.map_map _ _ (latest topicKey rows))

theorem get_eq (body : Json) (topicKey : String) :
    get body topicKey =
      (vec RawObs.decodeSidecar body).map fun rows => (latest topicKey rows).map (·.content) := by
  unfold get
  cases vec RawObs.decodeSidecar body <;> rfl

/-- The readers agree on a body for every topic unless all its rows are well
    typed and one of them has no `updated_at`. -/
theorem readers_agree_iff (body : Json) (topicKey : String) :
    contentOf (getObservationAsync body topicKey) = get body topicKey ↔
      ¬ ∃ rows, body = .arr rows ∧ (∀ row ∈ rows, WellTyped row) ∧ ∃ row ∈ rows, Undated row := by
  rw [contentOf_getObservationAsync, get_eq]
  cases body with
  | arr rows =>
      simp only [vec, Json.arr.injEq, exists_eq_left']
      constructor
      · rintro hagree ⟨htyped, row, hrow, hundated⟩
        -- the application fails where the sidecar does not
        rw [mapM_eq_none.mpr ⟨row, hrow, decodeApp_undated hundated⟩, Option.map_none, eq_comm,
          Option.map_eq_none_iff, mapM_eq_none] at hagree
        obtain ⟨row', hrow', hnone⟩ := hagree
        exact decodeSidecar_ne_none.mpr (htyped row' hrow') hnone
      · intro h
        by_cases hdated : ∃ row ∈ rows, Undated row
        · obtain ⟨row, hrow, hundated⟩ := hdated
          have hill : ∃ row ∈ rows, RawObs.decodeSidecar row = none := by
            by_contra hall
            have htyped : ∀ row ∈ rows, WellTyped row := fun row' hrow' =>
              decodeSidecar_ne_none.mp fun hnone => hall ⟨row', hrow', hnone⟩
            exact h ⟨htyped, row, hrow, hundated⟩
          rw [mapM_eq_none.mpr ⟨row, hrow, decodeApp_undated hundated⟩, mapM_eq_none.mpr hill]
        · rw [mapM_congr fun row hrow => decodeApp_eq fun hundated => hdated ⟨row, hrow, hundated⟩]
  | _ => simp [vec]

/-- The sidecar reads an approval past a row that has no `updated_at`; the
    application reads nothing. -/
theorem readers_disagree :
    get (.arr [.obj [("topic_key", .str "spectty/0/approval"), ("content", .str "{}")]])
        "spectty/0/approval" = some (some "{}") ∧
      getObservationAsync
        (.arr [.obj [("topic_key", .str "spectty/0/approval"), ("content", .str "{}")]])
        "spectty/0/approval" = none := by
  decide

end Spectty.Adapters.Observations
