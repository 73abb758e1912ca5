/-
  Spectty.Provision.HooksEditor

  The editor of the hook rows: what it owns and what it leaves alone.

  First one event array.  `strip keep` filters the inner entries of every
  outer element and drops the elements left with an empty `hooks` array.
  Replacing the rows of an event in turn (`replaceRows`) is one such filter,
  followed by the row of each command's last listing (`replaceRows_eq`).

  Then the document.  `lookup_injectEvents` and `eventArray_injectHooks` say
  what an injection leaves under each event, `eventArray_retractHooks` what a
  retraction does.
-/

import Spectty.Provision.McpEditor

namespace Spectty.Provision

open Spectty.Core
open Spectty.Lib
open Spectty.Lib.IndexMap

-- ============================================================================
-- Outer elements
-- ============================================================================

/-- The inner entries of an outer element. -/
def innerOf (element : Json) : List Json :=
  match element.get "hooks" with
  | some (.arr innerHooks) => innerHooks
  | _ => []

/-- The fields of an outer element besides its inner entries. -/
def otherFields : Json → Members
  | .obj members => others "hooks" members
  | _ => []

variable {keep keep' : Json → Bool} {element : Json} {arr : List Json}

/-- A filter changes the inner entries of an element and nothing else: an
    element without a `hooks` array stays as it is. -/
theorem retainInner_cases (keep : Json → Bool) (element : Json) :
    (∃ members inner, element = .obj members ∧ members.lookup "hooks" = some (.arr inner) ∧
      retainInner keep element = .obj (insert "hooks" (.arr (inner.filter keep)) members)) ∨
    (innerOf element = [] ∧ hasInner element = true ∧
      ∀ keep, retainInner keep element = element) := by
  cases element with
  | obj members =>
      cases hl : members.lookup "hooks" with
      | none =>
          right
          simp [innerOf, hasInner, retainInner, hl]
      | some v =>
          cases v with
          | arr inner =>
              left
              exact ⟨members, inner, rfl, hl, by simp [retainInner, hl]⟩
          | _ =>
              right
              simp [innerOf, hasInner, retainInner, hl]
  | _ =>
      right
      simp [innerOf, hasInner, retainInner, Json.get]

theorem innerOf_of_lookup {members : Members} {inner : List Json}
    (h : members.lookup "hooks" = some (.arr inner)) : innerOf (.obj members) = inner := by
  rw [innerOf, Json.get_obj, h]

theorem innerOf_of_not_hasInner {element : Json} (h : ¬ hasInner element = true) :
    innerOf element = [] := by
  unfold hasInner at h
  unfold innerOf
  cases hget : element.get "hooks" with
  | none => rfl
  | some v =>
      rw [hget] at h
      cases v with
      | arr inner =>
          rw [Bool.not_eq_true, Bool.not_eq_false'] at h
          exact List.isEmpty_iff.mp h
      | _ => rfl

theorem hasInner_of_lookup {members : Members} {inner : List Json}
    (h : members.lookup "hooks" = some (.arr inner)) :
    hasInner (.obj members) = !inner.isEmpty := by
  rw [hasInner, Json.get_obj, h]

theorem innerOf_retainInner :
    innerOf (retainInner keep element) = (innerOf element).filter keep := by
  rcases retainInner_cases keep element with ⟨members, inner, rfl, hl, hr⟩ | ⟨hnil, -, hr⟩
  · rw [hr, innerOf_of_lookup lookup_insert_self, innerOf_of_lookup hl]
  · rw [hr, hnil, List.filter_nil]

theorem otherFields_retainInner : otherFields (retainInner keep element) = otherFields element := by
  rcases retainInner_cases keep element with ⟨members, inner, rfl, -, hr⟩ | ⟨-, -, hr⟩
  · rw [hr]
    exact others_insert
  · rw [hr]

theorem retainInner_retainInner :
    retainInner keep (retainInner keep' element) =
      retainInner (fun h => keep h && keep' h) element := by
  rcases retainInner_cases keep' element with ⟨members, inner, rfl, hl, hr⟩ | ⟨-, -, hr⟩
  · rw [hr]
    simp only [retainInner, lookup_insert_self, hl, insert_insert, List.filter_filter]
  · rw [hr, hr, hr]

/-- An element whose inner entries all stay is not changed. -/
theorem retainInner_self (h : ∀ x ∈ innerOf element, keep x = true) :
    retainInner keep element = element := by
  rcases retainInner_cases keep element with ⟨members, inner, rfl, hl, hr⟩ | ⟨-, -, hr⟩
  · rw [innerOf_of_lookup hl] at h
    rw [hr, List.filter_eq_self.mpr h, insert_of_lookup hl]
  · exact hr keep

/-- Only an element with inner entries can be left with some. -/
theorem hasInner_of_retainInner (h : hasInner (retainInner keep element) = true) :
    hasInner element = true := by
  rcases retainInner_cases keep element with ⟨members, inner, rfl, hl, hr⟩ | ⟨-, hinner, -⟩
  · rw [hr, hasInner_of_lookup lookup_insert_self] at h
    rw [hasInner_of_lookup hl]
    cases inner with
    | nil => simp at h
    | cons x inner => rfl
  · exact hinner

/-- An element left without inner entries had none that stay. -/
theorem filter_innerOf_of_dropped (h : hasInner (retainInner keep element) = false) :
    (innerOf element).filter keep = [] := by
  rcases retainInner_cases keep element with ⟨members, inner, rfl, hl, hr⟩ | ⟨-, hinner, hr⟩
  · rw [hr, hasInner_of_lookup lookup_insert_self] at h
    rw [innerOf_of_lookup hl]
    simpa using h
  · rw [hr, hinner] at h
    cases h

theorem isValue_retainInner (h : element.IsValue) : (retainInner keep element).IsValue := by
  rcases retainInner_cases keep element with ⟨members, inner, rfl, hl, hr⟩ | ⟨-, -, hr⟩
  · rw [hr]
    have hinner := Json.isValue_arr.mp (h.lookup hl)
    exact h.insert (Json.isValue_arr.mpr fun x hx => hinner x (List.mem_of_mem_filter hx))
  · rw [hr]
    exact h

-- ============================================================================
-- Event arrays
-- ============================================================================

/-- Filter the inner entries of each element, then drop the elements with an
    empty `hooks` array. -/
def strip (keep : Json → Bool) (arr : List Json) : List Json :=
  (arr.map (retainInner keep)).filter hasInner

theorem removeInnerSpecttyCommands_eq (arr : List Json) (hookCommand : String) :
    removeInnerSpecttyCommands arr hookCommand = strip (keepsInner hookCommand) arr := rfl

theorem strip_cons (keep : Json → Bool) (element : Json) (arr : List Json) :
    strip keep (element :: arr) =
      if hasInner (retainInner keep element) = true then retainInner keep element :: strip keep arr
      else strip keep arr := by
  rw [strip, List.map_cons, List.filter_cons]
  rfl

theorem strip_append (keep : Json → Bool) (arr arr' : List Json) :
    strip keep (arr ++ arr') = strip keep arr ++ strip keep arr' := by
  rw [strip, List.map_append, List.filter_append]
  rfl

theorem strip_strip :
    strip keep (strip keep' arr) = strip (fun h => keep h && keep' h) arr := by
  induction arr with
  | nil => rfl
  | cons element arr ih =>
      rw [strip_cons keep', strip_cons (fun h => keep h && keep' h), ← retainInner_retainInner,
        ← ih]
      by_cases hkept : hasInner (retainInner keep' element) = true
      · rw [if_pos hkept, strip_cons]
      · rw [if_neg hkept, if_neg fun h => hkept (hasInner_of_retainInner h)]

/-- Every element of a stripped array has inner entries or no `hooks` array. -/
theorem hasInner_of_mem_strip (h : element ∈ strip keep arr) : hasInner element = true :=
  List.of_mem_filter h

/-- An array whose elements and inner entries all stay is not changed. -/
theorem strip_self (hinner : ∀ e ∈ arr, hasInner e = true)
    (hkeep : ∀ e ∈ arr, ∀ x ∈ innerOf e, keep x = true) : strip keep arr = arr := by
  induction arr with
  | nil => rfl
  | cons element arr ih =>
      rw [List.forall_mem_cons] at hinner hkeep
      rw [strip_cons, retainInner_self hkeep.1, if_pos hinner.1, ih hinner.2 hkeep.2]

theorem isValue_of_mem_strip (harr : ∀ e ∈ arr, e.IsValue) : ∀ e ∈ strip keep arr, e.IsValue := by
  intro e he
  obtain ⟨e', he', rfl⟩ := List.mem_map.mp (List.mem_of_mem_filter he)
  exact isValue_retainInner (harr e' he')

/-- The inner entries of an event array, each with its outer element's other
    fields. -/
def innerEntries (arr : List Json) : List (Members × Json) :=
  arr.flatMap fun e => (innerOf e).map fun h => (otherFields e, h)

theorem innerEntries_append (arr arr' : List Json) :
    innerEntries (arr ++ arr') = innerEntries arr ++ innerEntries arr' := List.flatMap_append

/-- A strip keeps the entries it is asked to keep, in order, in an outer
    element with the same other fields. -/
theorem innerEntries_strip :
    innerEntries (strip keep arr) = (innerEntries arr).filter fun p => keep p.2 := by
  induction arr with
  | nil => rfl
  | cons element arr ih =>
      have hfirst : ((innerOf element).map fun h => (otherFields element, h)).filter
          (fun p => keep p.2) =
          ((innerOf element).filter keep).map fun h => (otherFields element, h) := by
        rw [List.filter_map]
        rfl
      have hcons : innerEntries (element :: arr) =
          ((innerOf element).map fun h => (otherFields element, h)) ++ innerEntries arr :=
        List.flatMap_cons
      rw [strip_cons, hcons, List.filter_append, hfirst, ← ih]
      split
      case isTrue hkept =>
          rw [innerEntries, List.flatMap_cons, innerOf_retainInner, otherFields_retainInner]
          rfl
      case isFalse hkept =>
          rw [filter_innerOf_of_dropped (by simpa using hkept)]
          rfl

-- ============================================================================
-- The rows of one event
-- ============================================================================

/-- The command of an inner entry. -/
def commandOf (h : Json) : Option String := (h.get "command").bind Json.asStr

theorem keepsInner_eq (hookCommand : String) (h : Json) :
    keepsInner hookCommand h = decide (commandOf h ≠ some hookCommand) := by
  rw [keepsInner, ← commandOf]
  cases commandOf h <;> simp

/-- The row a listing injects. -/
def HookEvent.row (self : HookEvent) : Json := self.entry.toHookListElement self.matcher

variable {rows : List HookEvent} {r : HookEvent}

theorem HookEvent.lookup_row (self : HookEvent) :
    self.row.get "hooks" = some (.arr [self.entry.inner]) := by
  rw [HookEvent.row, HookCommandEntry.toHookListElement, Json.get_obj]
  cases self.matcher <;> rfl

theorem HookEvent.innerOf_row (self : HookEvent) : innerOf self.row = [self.entry.inner] := by
  rw [innerOf, self.lookup_row]

theorem HookEvent.hasInner_row (self : HookEvent) : hasInner self.row = true := by
  rw [hasInner, self.lookup_row]
  rfl

theorem HookCommandEntry.commandOf_inner (self : HookCommandEntry) :
    commandOf self.inner = some self.command := rfl

theorem HookCommandEntry.isValue_inner (self : HookCommandEntry) : self.inner.IsValue := by
  have hargs := isValue_strings self.args
  rw [HookCommandEntry.inner, Json.isValue_obj]
  exact ⟨by simp [keys], by simp [hargs]⟩

theorem HookEvent.isValue_row (self : HookEvent) : self.row.IsValue := by
  have hinner : Json.IsValue (.arr [self.entry.inner]) := by
    rw [Json.isValue_arr]
    intro j hj
    rw [List.mem_singleton.mp hj]
    exact self.entry.isValue_inner
  rw [HookEvent.row, HookCommandEntry.toHookListElement, Json.isValue_obj]
  cases self.matcher with
  | none => exact ⟨by simp [keys], by simpa using hinner⟩
  | some m => exact ⟨by simp [keys], by simpa using hinner⟩

/-- The inner entry's command is listed for none of the rows. -/
def foreign (rows : List HookEvent) (h : Json) : Bool :=
  rows.all fun r => keepsInner r.entry.command h

theorem foreign_iff {h : Json} :
    foreign rows h = true ↔ ∀ r ∈ rows, commandOf h ≠ some r.entry.command := by
  rw [foreign, List.all_eq_true]
  simp only [keepsInner_eq, decide_eq_true_eq]

/-- The listings that no later one of the same command replaces. -/
def lastListed : List HookEvent → List HookEvent
  | [] => []
  | r :: rest =>
      if rest.any (fun r' => r'.entry.command = r.entry.command) then lastListed rest
      else r :: lastListed rest

theorem mem_of_mem_lastListed (h : r ∈ lastListed rows) : r ∈ rows := by
  induction rows with
  | nil => cases h
  | cons r' rest ih =>
      rw [lastListed] at h
      split at h
      case isTrue => exact List.mem_cons_of_mem _ (ih h)
      case isFalse =>
          rcases List.mem_cons.mp h with rfl | hmem
          · exact List.mem_cons_self
          · exact List.mem_cons_of_mem _ (ih hmem)

/-- Each command is left with its last listing. -/
theorem filter_lastListed (rows : List HookEvent) (command : String) :
    (lastListed rows).filter (fun r => r.entry.command = command) =
      (rows.reverse.find? fun r => r.entry.command = command).toList := by
  induction rows with
  | nil => rfl
  | cons r rest ih =>
      rw [List.reverse_cons, List.find?_append, lastListed]
      split
      case isTrue hlater =>
          rw [ih]
          by_cases hr : r.entry.command = command
          · -- a later listing of the same command answers
            obtain ⟨r', hr', hsame⟩ := List.any_eq_true.mp hlater
            have hfound : (rest.reverse.find? fun r => r.entry.command = command).isSome := by
              rw [List.find?_isSome]
              refine ⟨r', List.mem_reverse.mpr hr', ?_⟩
              rw [decide_eq_true_eq] at hsame ⊢
              rw [hsame, hr]
            obtain ⟨x, hx⟩ := Option.isSome_iff_exists.mp hfound
            rw [hx]
            rfl
          · have hnone : [r].find? (fun r => r.entry.command = command) = none := by simp [hr]
            rw [hnone, Option.or_none]
      case isFalse hlater =>
          by_cases hr : r.entry.command = command
          · have hnone : rest.reverse.find? (fun r => r.entry.command = command) = none := by
              rw [List.find?_eq_none]
              intro r' hr' hsame
              rw [decide_eq_true_eq] at hsame
              refine hlater (List.any_eq_true.mpr ⟨r', List.mem_reverse.mp hr', ?_⟩)
              rw [decide_eq_true_eq, hsame, hr]
            rw [List.filter_cons_of_pos (by simpa using hr), ih, hnone]
            simp [hr]
          · rw [List.filter_cons_of_neg (by simpa using hr), ih]
            have hnone : [r].find? (fun r => r.entry.command = command) = none := by simp [hr]
            rw [hnone, Option.or_none]

/-- Replace the row of one listing. -/
def replaceRow (arr : List Json) (r : HookEvent) : List Json :=
  removeInnerSpecttyCommands arr r.entry.command ++ [r.row]

/-- Replace the rows of an event's listings, in turn. -/
def replaceRows (rows : List HookEvent) (arr : List Json) : List Json := rows.foldl replaceRow arr

theorem hasInner_of_mem_replaceRow (h : element ∈ replaceRow arr r) : hasInner element = true := by
  rcases List.mem_append.mp h with hold | hnew
  · exact hasInner_of_mem_strip hold
  · rw [List.mem_singleton.mp hnew]
    exact r.hasInner_row

/-- A row is stripped when its command is listed again. -/
theorem strip_row (rest : List HookEvent) (r : HookEvent) :
    strip (foreign rest) [r.row] =
      if rest.any (fun r' => r'.entry.command = r.entry.command) then [] else [r.row] := by
  have hforeign : foreign rest r.entry.inner = true ↔
      ¬ rest.any (fun r' => r'.entry.command = r.entry.command) = true := by
    rw [foreign_iff, r.entry.commandOf_inner, List.any_eq_true, not_exists]
    refine forall_congr' fun r' => ?_
    rw [decide_eq_true_eq, not_and, ne_eq, Option.some.injEq, eq_comm]
  split
  case isTrue hlater =>
      have hdrop : foreign rest r.entry.inner = false := by
        rw [Bool.eq_false_iff]
        exact fun h => hforeign.mp h hlater
      have hleft : hasInner (retainInner (foreign rest) r.row) = false := by
        rcases retainInner_cases (foreign rest) r.row with
          ⟨members, inner, hobj, hl, hr⟩ | ⟨hnil, -, -⟩
        · have hinner : inner = [r.entry.inner] := by
            rw [← innerOf_of_lookup hl, ← hobj, r.innerOf_row]
          rw [hr, hasInner_of_lookup lookup_insert_self, hinner,
            List.filter_cons_of_neg (by simp [hdrop])]
          rfl
        · rw [r.innerOf_row] at hnil
          cases hnil
      rw [strip_cons, if_neg (by simp [hleft])]
      rfl
  case isFalse hlater =>
      apply strip_self
      · intro e he
        rw [List.mem_singleton.mp he]
        exact r.hasInner_row
      · intro e he x hx
        rw [List.mem_singleton.mp he, r.innerOf_row, List.mem_singleton] at hx
        rw [hx]
        exact hforeign.mpr hlater

/-- A replacement, then the strip of the later listings. -/
theorem strip_replaceRow (r : HookEvent) (rest : List HookEvent) (arr : List Json) :
    strip (foreign rest) (replaceRow arr r) ++ (lastListed rest).map HookEvent.row =
      strip (foreign (r :: rest)) arr ++ (lastListed (r :: rest)).map HookEvent.row := by
  have hfilter :
      (fun h => foreign rest h && keepsInner r.entry.command h) = foreign (r :: rest) := by
    funext h
    rw [foreign, foreign, List.all_cons, Bool.and_comm]
  rw [replaceRow, strip_append, removeInnerSpecttyCommands_eq, strip_strip, hfilter, strip_row,
    lastListed, List.append_assoc]
  split
  case isTrue => rfl
  case isFalse => rfl

/-- Replacing rows one by one strips the listed commands and appends the row
    of each one's last listing. -/
theorem replaceRows_of_hasInner (rows : List HookEvent) (h : ∀ e ∈ arr, hasInner e = true) :
    replaceRows rows arr = strip (foreign rows) arr ++ (lastListed rows).map HookEvent.row := by
  induction rows generalizing arr with
  | nil =>
      have hkeep : ∀ e ∈ arr, ∀ x ∈ innerOf e, foreign [] x = true := fun e _ x _ => rfl
      rw [lastListed, List.map_nil, List.append_nil, strip_self h hkeep]
      rfl
  | cons r rest ih =>
      rw [← strip_replaceRow]
      exact ih fun e he => hasInner_of_mem_replaceRow he

/-- The first replacement already drops the elements without inner entries. -/
theorem replaceRows_eq (h : rows ≠ []) (arr : List Json) :
    replaceRows rows arr = strip (foreign rows) arr ++ (lastListed rows).map HookEvent.row := by
  obtain ⟨r, rest, rfl⟩ := List.exists_cons_of_ne_nil h
  rw [← strip_replaceRow]
  exact replaceRows_of_hasInner rest fun e he => hasInner_of_mem_replaceRow he

/-- A second replacement by the same rows changes nothing. -/
theorem replaceRows_again (h : rows ≠ []) (arr : List Json) :
    replaceRows rows (replaceRows rows arr) = replaceRows rows arr := by
  have hrows : strip (foreign rows) ((lastListed rows).map HookEvent.row) = [] := by
    rw [List.eq_nil_iff_forall_not_mem]
    intro e he
    obtain ⟨e', he', rfl⟩ := List.mem_map.mp (List.mem_of_mem_filter he)
    obtain ⟨r, hr, rfl⟩ := List.mem_map.mp he'
    have hdropped : strip (foreign rows) [r.row] = [] := by
      rw [strip_row, if_pos (List.any_eq_true.mpr ⟨r, mem_of_mem_lastListed hr, by simp⟩)]
    rw [strip_cons, if_pos (hasInner_of_mem_strip he)] at hdropped
    cases hdropped
  have hsame : strip (foreign rows) (strip (foreign rows) arr) = strip (foreign rows) arr := by
    rw [strip_strip]
    simp only [Bool.and_self]
  rw [replaceRows_eq h (replaceRows rows arr), replaceRows_eq h arr, strip_append, hsame, hrows,
    List.append_nil]

-- ============================================================================
-- The events of a document
-- ============================================================================

/-- The events of a root object. -/
def hooksOf (root : Members) : Members :=
  match root.lookup "hooks" with
  | some (.obj hooksMap) => hooksMap
  | _ => []

/-- The items of a value, if it is an array. -/
def itemsOf : Option Json → List Json
  | some (.arr items) => items
  | _ => []

/-- The array under an event. -/
def eventArray (root : Members) (eventName : String) : List Json :=
  itemsOf ((hooksOf root).lookup eventName)

/-- The listings of an event. -/
def listed (events : List HookEvent) (eventName : String) : List HookEvent :=
  events.filter fun e => e.eventName = eventName

/-- The events, with an empty array under each listed name that is missing. -/
def ensureEvents (events : List HookEvent) (hooksMap : Members) : Members :=
  events.foldl (fun hooksMap e => entryOrInsert e.eventName (.arr []) hooksMap) hooksMap

variable {events : List HookEvent} {event : HookEvent} {m m' : Members} {name : String}

theorem hooksOf_of_lookup {root hooksMap : Members}
    (h : root.lookup "hooks" = some (.obj hooksMap)) : hooksOf root = hooksMap := by
  rw [hooksOf, h]

theorem listed_cons_self (event : HookEvent) (events : List HookEvent) :
    listed (event :: events) event.eventName = event :: listed events event.eventName :=
  List.filter_cons_of_pos (by simp)

theorem listed_cons_other (h : name ≠ event.eventName) :
    listed (event :: events) name = listed events name :=
  List.filter_cons_of_neg (by simpa using h.symm)

theorem mem_listed {r : HookEvent} : r ∈ listed events name ↔ r ∈ events ∧ r.eventName = name := by
  rw [listed, List.mem_filter, decide_eq_true_eq]

theorem listed_ne_nil : listed events name ≠ [] ↔ ∃ e ∈ events, e.eventName = name := by
  constructor
  · intro h
    obtain ⟨e, he⟩ := List.exists_mem_of_ne_nil _ h
    exact ⟨e, mem_listed.mp he⟩
  · rintro ⟨e, he⟩
    exact List.ne_nil_of_mem (mem_listed.mpr he)

/-- One event's row is replaced when there is no value under its name or an
    array. -/
theorem injectEvent_eq_ok :
    injectEvent m event = .ok m' ↔
      (∀ v, m.lookup event.eventName = some v → ∃ items, v = .arr items) ∧
        m' = insert event.eventName
          (.arr (replaceRow (itemsOf (m.lookup event.eventName)) event)) m := by
  unfold injectEvent
  simp only [lookup_entryOrInsert, if_true, insert_entryOrInsert]
  cases hl : m.lookup event.eventName with
  | none =>
      simp only [Option.getD_none, Except.ok.injEq, itemsOf]
      constructor
      · rintro rfl
        exact ⟨by simp, rfl⟩
      · rintro ⟨-, rfl⟩
        rfl
  | some v =>
      cases v with
      | arr items =>
          simp only [Option.getD_some, Except.ok.injEq, itemsOf]
          constructor
          · rintro rfl
            exact ⟨by simp, rfl⟩
          · rintro ⟨-, rfl⟩
            rfl
      | _ => simp

/-- What an injection leaves under an event: the value it had when the event
    is not listed, else its array with the listed rows replaced. -/
theorem lookup_injectEvents (h : events.foldlM injectEvent m = .ok m') (name : String) :
    m'.lookup name =
      if listed events name = [] then m.lookup name
      else some (.arr (replaceRows (listed events name) (itemsOf (m.lookup name)))) := by
  induction events generalizing m with
  | nil =>
      obtain rfl := Except.ok.inj h
      rfl
  | cons event events ih =>
      rw [List.foldlM_cons] at h
      cases hfirst : injectEvent m event with
      | error e =>
          rw [hfirst] at h
          cases h
      | ok m₁ =>
          rw [hfirst] at h
          obtain ⟨-, rfl⟩ := injectEvent_eq_ok.mp hfirst
          rw [ih h]
          by_cases hname : name = event.eventName
          · subst hname
            rw [listed_cons_self, lookup_insert_self, if_neg (List.cons_ne_nil _ _)]
            split
            case isTrue hnil =>
                rw [hnil]
                rfl
            case isFalse => rfl
          · rw [listed_cons_other hname, lookup_insert_other hname]

theorem keys_ensureEvents_congr (h : keys m = keys m') :
    keys (ensureEvents events m) = keys (ensureEvents events m') := by
  induction events generalizing m m' with
  | nil => exact h
  | cons event events ih => exact ih (keys_entryOrInsert_congr h)

/-- An injection adds the listed events that are missing, and no other. -/
theorem keys_injectEvents (h : events.foldlM injectEvent m = .ok m') :
    keys m' = keys (ensureEvents events m) := by
  induction events generalizing m with
  | nil =>
      obtain rfl := Except.ok.inj h
      rfl
  | cons event events ih =>
      rw [List.foldlM_cons] at h
      cases hfirst : injectEvent m event with
      | error e =>
          rw [hfirst] at h
          cases h
      | ok m₁ =>
          rw [hfirst] at h
          obtain ⟨-, rfl⟩ := injectEvent_eq_ok.mp hfirst
          rw [ih h]
          refine keys_ensureEvents_congr ?_
          rw [← insert_entryOrInsert (w := .arr [])]
          exact keys_insert_entryOrInsert

/-- An injection succeeds exactly when every listed event has no value or an
    array. -/
theorem injectEvents_isOk :
    (∃ m', events.foldlM injectEvent m = .ok m') ↔
      ∀ e ∈ events, ∀ v, m.lookup e.eventName = some v → ∃ items, v = .arr items := by
  induction events generalizing m with
  | nil => exact iff_of_true ⟨m, rfl⟩ (by simp)
  | cons event events ih =>
      rw [List.forall_mem_cons]
      cases hfirst : injectEvent m event with
      | error e =>
          refine iff_of_false ?_ fun hall => ?_
          · rintro ⟨m', h⟩
            rw [List.foldlM_cons, hfirst] at h
            cases h
          · rw [injectEvent_eq_ok.mpr ⟨hall.1, rfl⟩] at hfirst
            cases hfirst
      | ok m₁ =>
          obtain ⟨harr, rfl⟩ := injectEvent_eq_ok.mp hfirst
          have hrest := ih (m := insert event.eventName
            (.arr (replaceRow (itemsOf (m.lookup event.eventName)) event)) m)
          have hfold : (∃ m', (event :: events).foldlM injectEvent m = .ok m') ↔
              ∃ m', events.foldlM injectEvent (insert event.eventName
                (.arr (replaceRow (itemsOf (m.lookup event.eventName)) event)) m) = .ok m' := by
            rw [List.foldlM_cons, hfirst]
            rfl
          rw [hfold, hrest]
          constructor
          · intro hall
            refine ⟨harr, fun e he v hv => ?_⟩
            by_cases hname : e.eventName = event.eventName
            · rw [hname] at hv
              exact harr v hv
            · exact hall e he v (by rw [lookup_insert_other hname]; exact hv)
          · rintro ⟨-, hall⟩ e he v hv
            by_cases hname : e.eventName = event.eventName
            · rw [hname, lookup_insert_self] at hv
              exact ⟨_, (Option.some.inj hv).symm⟩
            · rw [lookup_insert_other hname] at hv
              exact hall e he v hv

theorem lookup_ensureEvents (name : String) :
    (ensureEvents events m).lookup name =
      if listed events name = [] then m.lookup name else some ((m.lookup name).getD (.arr [])) := by
  induction events generalizing m with
  | nil => rfl
  | cons event events ih =>
      have hcons : ensureEvents (event :: events) m =
          ensureEvents events (entryOrInsert event.eventName (.arr []) m) := rfl
      rw [hcons, ih, lookup_entryOrInsert]
      by_cases hname : name = event.eventName
      · subst hname
        rw [listed_cons_self, if_pos rfl, if_neg (List.cons_ne_nil _ _), Option.getD_some, ite_self]
      · rw [listed_cons_other hname, if_neg hname]

theorem nodup_ensureEvents (h : (keys m).Nodup) : (keys (ensureEvents events m)).Nodup := by
  induction events generalizing m with
  | nil => exact h
  | cons event events ih => exact ih (nodup_entryOrInsert h)

theorem isValue_injectEvents (hvalue : Json.IsValue (.obj m))
    (h : events.foldlM injectEvent m = .ok m') : Json.IsValue (.obj m') := by
  induction events generalizing m with
  | nil =>
      obtain rfl := Except.ok.inj h
      exact hvalue
  | cons event events ih =>
      rw [List.foldlM_cons] at h
      cases hfirst : injectEvent m event with
      | error e =>
          rw [hfirst] at h
          cases h
      | ok m₁ =>
          rw [hfirst] at h
          obtain ⟨-, rfl⟩ := injectEvent_eq_ok.mp hfirst
          refine ih (hvalue.insert (Json.isValue_arr.mpr fun x hx => ?_)) h
          rcases List.mem_append.mp hx with hold | hnew
          · refine isValue_of_mem_strip (fun e he => ?_) x hold
            cases hl : m.lookup event.eventName with
            | none =>
                rw [hl] at he
                cases he
            | some v =>
                rw [hl] at he
                cases v with
                | arr items => exact Json.isValue_arr.mp (hvalue.lookup hl) e he
                | _ => cases he
          · rw [List.mem_singleton.mp hnew]
            exact event.isValue_row

-- ============================================================================
-- The document
-- ============================================================================

variable {root root' : Members} {hookCommand : String}

/-- `hooks` is absent or an object. -/
def hooksObject (root : Members) : Bool := (root.lookup "hooks").all Json.isObject

/-- The value is an array. -/
def isArray : Json → Bool
  | .arr _ => true
  | _ => false

/-- The rows can be injected: `hooks` is absent or an object, and each listed
    event is absent or an array. -/
def hooksInjectable (events : List HookEvent) (root : Members) : Bool :=
  hooksObject root && events.all fun e => ((hooksOf root).lookup e.eventName).all isArray

theorem isArray_iff {v : Json} : isArray v = true ↔ ∃ items, v = .arr items := by
  cases v <;> simp [isArray]

theorem injectHooks_eq_ok :
    injectHooks events root = .ok root' ↔ hooksObject root = true ∧
      ∃ m', events.foldlM injectEvent (hooksOf root) = .ok m' ∧
        root' = insert "hooks" (.obj m') root := by
  have hbind : ∀ m : Members, ((do
      let hooksMap ← events.foldlM injectEvent m
      return insert "hooks" (.obj hooksMap) root : Except ProvisioningError Members) = .ok root' ↔
        ∃ m', events.foldlM injectEvent m = .ok m' ∧ root' = insert "hooks" (.obj m') root) := by
    intro m
    cases events.foldlM injectEvent m with
    | error e => simp [bind, Except.bind]
    | ok m' => simp [bind, Except.bind, pure, Except.pure, eq_comm]
  unfold injectHooks hooksObject hooksOf
  simp only [lookup_entryOrInsert, if_true, insert_entryOrInsert]
  cases hl : root.lookup "hooks" with
  | none => simpa using hbind []
  | some v =>
      cases v with
      | obj hooksMap => simpa [Json.isObject] using hbind hooksMap
      | _ => simp [Json.isObject]

theorem injectHooks_isOk :
    (∃ root', injectHooks events root = .ok root') ↔ hooksInjectable events root = true := by
  have hall : (events.all fun e => ((hooksOf root).lookup e.eventName).all isArray) = true ↔
      ∃ m', events.foldlM injectEvent (hooksOf root) = .ok m' := by
    rw [injectEvents_isOk, List.all_eq_true]
    refine forall_congr' fun e => imp_congr_right fun _ => ?_
    cases (hooksOf root).lookup e.eventName <;> simp [isArray_iff]
  rw [hooksInjectable, Bool.and_eq_true, hall]
  constructor
  · rintro ⟨root', h⟩
    obtain ⟨hobject, m', hm', -⟩ := injectHooks_eq_ok.mp h
    exact ⟨hobject, m', hm'⟩
  · rintro ⟨hobject, m', hm'⟩
    exact ⟨_, injectHooks_eq_ok.mpr ⟨hobject, m', hm', rfl⟩⟩

theorem isValue_hooksOf (h : Json.IsValue (.obj root)) : Json.IsValue (.obj (hooksOf root)) := by
  unfold hooksOf
  split
  case h_1 hooksMap hl => exact h.lookup hl
  case h_2 => exact Json.isValue_obj.mpr ⟨List.nodup_nil, by simp⟩

theorem isValue_injectHooks (hvalue : Json.IsValue (.obj root))
    (h : injectHooks events root = .ok root') : Json.IsValue (.obj root') := by
  obtain ⟨-, m', hm', rfl⟩ := injectHooks_eq_ok.mp h
  exact hvalue.insert (isValue_injectEvents (isValue_hooksOf hvalue) hm')

/-- The array of an event after an injection. -/
theorem eventArray_injectHooks (h : injectHooks events root = .ok root') (name : String) :
    eventArray root' name =
      if listed events name = [] then eventArray root name
      else replaceRows (listed events name) (eventArray root name) := by
  obtain ⟨-, m', hm', rfl⟩ := injectHooks_eq_ok.mp h
  rw [eventArray, hooksOf_of_lookup lookup_insert_self, lookup_injectEvents hm']
  split
  case isTrue => rfl
  case isFalse => rfl

/-- What was injected can be injected again. -/
theorem hooksInjectable_injectHooks (h : injectHooks events root = .ok root') :
    hooksInjectable events root' = true := by
  obtain ⟨-, m', hm', rfl⟩ := injectHooks_eq_ok.mp h
  rw [hooksInjectable, hooksObject, lookup_insert_self, hooksOf_of_lookup lookup_insert_self,
    Bool.and_eq_true, List.all_eq_true]
  refine ⟨rfl, fun e he => ?_⟩
  rw [lookup_injectEvents hm', if_neg (listed_ne_nil.mpr ⟨e, he, rfl⟩)]
  rfl

-- ============================================================================
-- Retraction
-- ============================================================================

theorem retractEvent_arr (items : List Json) :
    retractEvent hookCommand (.arr items) = .arr (strip (keepsInner hookCommand) items) := rfl

theorem itemsOf_map_retractEvent (v : Option Json) :
    itemsOf (v.map (retractEvent hookCommand)) = strip (keepsInner hookCommand) (itemsOf v) := by
  cases v with
  | none => rfl
  | some v => cases v <;> rfl

theorem lookup_hooksOf_retractHooks (name : String) :
    (hooksOf (retractHooks hookCommand root)).lookup name =
      ((hooksOf root).lookup name).map (retractEvent hookCommand) := by
  unfold retractHooks
  split
  case h_1 hooksMap hl =>
      rw [hooksOf_of_lookup lookup_insert_self, hooksOf_of_lookup hl, lookup_map_value]
  case h_2 hl =>
      have hnil : hooksOf root = [] := by
        unfold hooksOf
        split
        case h_1 hooksMap hl' => exact absurd hl' (hl hooksMap)
        case h_2 => rfl
      rw [hnil]
      rfl

/-- The array of an event after a retraction. -/
theorem eventArray_retractHooks (name : String) :
    eventArray (retractHooks hookCommand root) name =
      strip (keepsInner hookCommand) (eventArray root name) := by
  rw [eventArray, lookup_hooksOf_retractHooks, itemsOf_map_retractEvent]
  rfl

theorem isValue_retractEvent {v : Json} (h : v.IsValue) :
    (retractEvent hookCommand v).IsValue := by
  cases v with
  | arr items =>
      rw [retractEvent_arr, Json.isValue_arr]
      exact isValue_of_mem_strip (Json.isValue_arr.mp h)
  | _ => exact h

theorem isValue_retractHooks (h : Json.IsValue (.obj root)) :
    Json.IsValue (.obj (retractHooks hookCommand root)) := by
  unfold retractHooks
  split
  case h_1 hooksMap hl =>
      have hmap := Json.isValue_obj.mp (h.lookup hl)
      refine h.insert (Json.isValue_obj.mpr ⟨?_, fun e he => ?_⟩)
      · rw [keys_map_value]
        exact hmap.1
      · obtain ⟨e', he', rfl⟩ := List.mem_map.mp he
        exact isValue_retractEvent (hmap.2 e' he')
  case h_2 => exact h

/-- No inner entry with the command is left. -/
theorem not_owned_retractHooks (name : String) :
    ∀ p ∈ innerEntries (eventArray (retractHooks hookCommand root) name),
      commandOf p.2 ≠ some hookCommand := by
  rw [eventArray_retractHooks, innerEntries_strip]
  intro p hp
  have hkeep := List.of_mem_filter hp
  rw [keepsInner_eq, decide_eq_true_eq] at hkeep
  exact hkeep

end Spectty.Provision
