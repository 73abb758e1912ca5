/-
  Spectty.Provision.HooksForeign

  What the editor of the hook rows owns, and what becomes of the rest.

  `hooks_round_trip`: after an injection each listed command has one inner
  entry under its event, the entries of other commands stay where they were,
  injecting again changes nothing and retracting gives the document back.

  `hooks_keep_foreign`: the editor drops every outer element with an empty
  `hooks` array from the arrays it edits, its own or not, so foreign elements
  survive exactly if there is no such element.
-/

import Spectty.Provision.HooksEditor

namespace Spectty.Provision

open Spectty.Core
open Spectty.Lib
open Spectty.Lib.IndexMap

variable {J : ConfigJson} {text text' hookCommand : String} {root root' : Members}
  {events rows : List HookEvent}

-- ============================================================================
-- The editor of texts
-- ============================================================================

theorem injectSpecttyHooks_eq_ok :
    injectSpecttyHooks J text events = .ok text' ↔ ∃ root root',
      J.toValue text = some (.obj root) ∧ injectHooks events root = .ok root' ∧
        text' = serializePretty J root' := edit_eq_ok _

theorem retractSpecttyHooks_eq_ok :
    retractSpecttyHooks J text hookCommand = .ok text' ↔ ∃ root, J.toValue text = some (.obj root) ∧
      text' = serializePretty J (retractHooks hookCommand root) := by
  have hedit : retractSpecttyHooks J text hookCommand = .ok text' ↔ ∃ root root',
      J.toValue text = some (.obj root) ∧
        (.ok (retractHooks hookCommand root) : Except ProvisioningError Members) = .ok root' ∧
          text' = serializePretty J root' :=
    edit_eq_ok fun root => .ok (retractHooks hookCommand root)
  rw [hedit]
  constructor
  · rintro ⟨root, root', htext, hroot', rfl⟩
    rw [← Except.ok.inj hroot']
    exact ⟨root, htext, rfl⟩
  · rintro ⟨root, htext, rfl⟩
    exact ⟨root, _, htext, rfl, rfl⟩

-- ============================================================================
-- Ownership
-- ============================================================================

/-- The inner entries of appended rows. -/
theorem innerEntries_rows (rows : List HookEvent) :
    innerEntries (rows.map HookEvent.row) =
      rows.map fun r => (otherFields r.row, r.entry.inner) := by
  induction rows with
  | nil => rfl
  | cons r rest ih =>
      rw [List.map_cons, innerEntries, List.flatMap_cons, r.innerOf_row, ← innerEntries, ih]
      rfl

/-- A listed command has one inner entry: the row of its last listing. -/
theorem owned_replaceRows {command : String} {e : HookEvent} (arr : List Json)
    (he : (rows.reverse.find? fun r => r.entry.command = command) = some e) :
    (innerEntries (replaceRows rows arr)).filter (fun p => commandOf p.2 = some command) =
      [(otherFields e.row, e.entry.inner)] := by
  have hmem : e ∈ rows := List.mem_reverse.mp (List.mem_of_find?_eq_some he)
  have hcommand : e.entry.command = command := by
    have hfound := List.find?_some he
    rw [decide_eq_true_eq] at hfound
    exact hfound
  have hold : (innerEntries (strip (foreign rows) arr)).filter
      (fun p => commandOf p.2 = some command) = [] := by
    rw [innerEntries_strip, List.filter_filter, List.filter_eq_nil_iff]
    intro p hp hboth
    rw [Bool.and_eq_true, decide_eq_true_eq] at hboth
    exact foreign_iff.mp hboth.2 e hmem (hcommand ▸ hboth.1)
  have hrows : (lastListed rows).filter
      ((fun p => decide (commandOf p.2 = some command)) ∘
        fun r : HookEvent => (otherFields r.row, r.entry.inner)) = [e] := by
    have hsame : ((fun p : Members × Json => decide (commandOf p.2 = some command)) ∘
        fun r : HookEvent => (otherFields r.row, r.entry.inner)) =
        fun r : HookEvent => decide (r.entry.command = command) := by
      funext r
      simp [r.entry.commandOf_inner]
    rw [hsame, filter_lastListed, he]
    rfl
  rw [replaceRows_eq (List.ne_nil_of_mem hmem), innerEntries_append, List.filter_append, hold,
    innerEntries_rows, List.filter_map, hrows]
  rfl

/-- The entries of other commands stay. -/
theorem foreign_replaceRows (h : rows ≠ []) (arr : List Json) :
    (innerEntries (replaceRows rows arr)).filter (fun p => foreign rows p.2) =
      (innerEntries arr).filter fun p => foreign rows p.2 := by
  have hrows : (innerEntries ((lastListed rows).map HookEvent.row)).filter
      (fun p => foreign rows p.2) = [] := by
    rw [innerEntries_rows, List.filter_eq_nil_iff]
    intro p hp hforeign
    obtain ⟨r, hr, rfl⟩ := List.mem_map.mp hp
    exact foreign_iff.mp hforeign r (mem_of_mem_lastListed hr) r.entry.commandOf_inner
  rw [replaceRows_eq h, innerEntries_append, List.filter_append, hrows, List.append_nil,
    innerEntries_strip, List.filter_filter]
  simp only [Bool.and_self]

/-- The last listing of a command for an event. -/
def lastListing (events : List HookEvent) (eventName command : String) : Option HookEvent :=
  events.reverse.find? fun e => e.eventName = eventName ∧ e.entry.command = command

theorem find?_listed (events : List HookEvent) (name command : String) :
    ((listed events name).reverse.find? fun r => r.entry.command = command) =
      lastListing events name command := by
  rw [listed, ← List.filter_reverse, List.find?_filter, lastListing]
  congr 1
  funext e
  simp

/-- The document after an injection, next to the document before. -/
structure InjectsHooks (events : List HookEvent) (root root' : Members) : Prop where
  /-- the other root keys -/
  rootOthers : others "hooks" root' = others "hooks" root
  /-- the events that are not listed -/
  unlisted : ∀ name, listed events name = [] →
    (hooksOf root').lookup name = (hooksOf root).lookup name
  eventOrder : keys (hooksOf root') = keys (ensureEvents events (hooksOf root))
  /-- each listed pair has the row of its last listing, and no other -/
  owned : ∀ name command e, lastListing events name command = some e →
    (innerEntries (eventArray root' name)).filter (fun p => commandOf p.2 = some command) =
      [(otherFields e.row, e.entry.inner)]
  /-- the entries of other commands, in their outer elements -/
  foreignEntries : ∀ name,
    (innerEntries (eventArray root' name)).filter (fun p => foreign (listed events name) p.2) =
      (innerEntries (eventArray root name)).filter fun p => foreign (listed events name) p.2
  foreignElements : ∀ name, listed events name ≠ [] →
    eventArray root' name = strip (foreign (listed events name)) (eventArray root name) ++
      (lastListed (listed events name)).map HookEvent.row

theorem injectHooks_spec (h : injectHooks events root = .ok root') :
    InjectsHooks events root root' := by
  have harray := eventArray_injectHooks h
  obtain ⟨-, m', hm', rfl⟩ := injectHooks_eq_ok.mp h
  refine ⟨others_insert, fun name hname => ?_, ?_, fun name command e he => ?_, fun name => ?_,
    fun name hname => ?_⟩
  · rw [hooksOf_of_lookup lookup_insert_self, lookup_injectEvents hm', if_pos hname]
  · rw [hooksOf_of_lookup lookup_insert_self, keys_injectEvents hm']
  · rw [← find?_listed] at he
    have hne : listed events name ≠ [] :=
      List.ne_nil_of_mem (List.mem_reverse.mp (List.mem_of_find?_eq_some he))
    rw [harray, if_neg hne]
    exact owned_replaceRows _ he
  · rw [harray]
    split
    case isTrue => rfl
    case isFalse hne => exact foreign_replaceRows hne _
  · rw [harray, if_neg hname, replaceRows_eq hname]

/-- Where every listed event has an array, none is added. -/
theorem ensureEvents_of_mem {m : Members} (h : ∀ e ∈ events, e.eventName ∈ keys m) :
    ensureEvents events m = m := by
  induction events with
  | nil => rfl
  | cons e rest ih =>
      rw [List.forall_mem_cons] at h
      show ensureEvents rest (entryOrInsert e.eventName (.arr []) m) = m
      rw [entryOrInsert_of_mem h.1, ih h.2]

/-- Injecting the same rows into the arrays again changes nothing. -/
theorem injectEvents_again {m m' : Members} (hnodup : (keys m').Nodup)
    (h : events.foldlM injectEvent m = .ok m') : events.foldlM injectEvent m' = .ok m' := by
  have hlookup : ∀ e ∈ events, m'.lookup e.eventName =
      some (.arr (replaceRows (listed events e.eventName) (itemsOf (m.lookup e.eventName)))) := by
    intro e he
    rw [lookup_injectEvents h, if_neg (listed_ne_nil.mpr ⟨e, he, rfl⟩)]
  have hok : ∃ m'', events.foldlM injectEvent m' = .ok m'' := by
    rw [injectEvents_isOk]
    intro e he v hv
    rw [hlookup e he] at hv
    exact ⟨_, (Option.some.inj hv).symm⟩
  obtain ⟨m'', hm''⟩ := hok
  have hkeys : keys m'' = keys m' := by
    rw [keys_injectEvents hm'', ensureEvents_of_mem fun e he => mem_keys (hlookup e he)]
  have hsame : m'' = m' := by
    refine ext (hkeys ▸ hnodup) hkeys fun name => ?_
    rw [lookup_injectEvents hm'']
    split
    case isTrue => rfl
    case isFalse hne =>
        obtain ⟨e, he, rfl⟩ := listed_ne_nil.mp hne
        rw [hlookup e he]
        show some (Json.arr (replaceRows _ (replaceRows _ _))) = _
        rw [replaceRows_again hne]
  rw [hm'', hsame]

/-- Injecting the same rows again changes nothing. -/
theorem injectHooks_again (hvalue : Json.IsValue (.obj root))
    (h : injectHooks events root = .ok root') : injectHooks events root' = .ok root' := by
  have hvalue' := isValue_injectHooks hvalue h
  obtain ⟨-, m', hm', rfl⟩ := injectHooks_eq_ok.mp h
  have hhooks : hooksOf (insert "hooks" (.obj m') root) = m' := hooksOf_of_lookup lookup_insert_self
  have hnodup : (keys m').Nodup := by
    rw [← hhooks]
    exact (isValue_hooksOf hvalue').nodup
  rw [injectHooks_eq_ok, hhooks]
  refine ⟨?_, m', injectEvents_again hnodup hm', by rw [insert_insert]⟩
  rw [hooksObject, lookup_insert_self]
  rfl

/-- The document with an empty `hooks` object and empty arrays for the listed
    events, where they are missing. -/
def withEvents (events : List HookEvent) (root : Members) : Members :=
  insert "hooks" (.obj (ensureEvents events (hooksOf root))) root

/-- The document has no inner entry with the command and no outer element
    with an empty `hooks` array. -/
def FreeOf (hookCommand : String) (root : Members) : Prop :=
  ∀ name, ∀ element ∈ eventArray root name, hasInner element = true ∧
    ∀ h ∈ innerOf element, commandOf h ≠ some hookCommand

/-- On an array without the command and without empty elements a strip does
    nothing. -/
theorem strip_of_freeOf (h : FreeOf hookCommand root) (name : String) :
    strip (keepsInner hookCommand) (eventArray root name) = eventArray root name := by
  refine strip_self (fun e he => (h name e he).1) fun e he x hx => ?_
  rw [keepsInner_eq, decide_eq_true_eq]
  exact (h name e he).2 x hx

/-- Where every listed row carries one command, the foreign entries are those
    without it. -/
theorem foreign_listed {name : String} (hcommand : ∀ e ∈ events, e.entry.command = hookCommand)
    (hne : listed events name ≠ []) :
    foreign (listed events name) = keepsInner hookCommand := by
  funext x
  rw [Bool.eq_iff_iff, foreign_iff, keepsInner_eq, decide_eq_true_eq]
  constructor
  · intro hall
    obtain ⟨e, he, rfl⟩ := listed_ne_nil.mp hne
    rw [← hcommand e he]
    exact hall e (mem_listed.mpr ⟨he, rfl⟩)
  · intro hx r hr
    rw [hcommand r (mem_listed.mp hr).1]
    exact hx

/-- The rows of one command are stripped again, and nothing else. -/
theorem strip_replaceRows_of_freeOf {name : String}
    (hcommand : ∀ e ∈ events, e.entry.command = hookCommand) (hfree : FreeOf hookCommand root)
    (hne : listed events name ≠ []) :
    strip (keepsInner hookCommand) (replaceRows (listed events name) (eventArray root name)) =
      eventArray root name := by
  have hforeign := foreign_listed hcommand hne
  have hstrip := strip_of_freeOf hfree name
  have hagain := replaceRows_eq hne (eventArray root name)
  -- the same rows once more, once over the document and once over the rows
  have hdouble := replaceRows_eq hne (replaceRows (listed events name) (eventArray root name))
  rw [replaceRows_again hne, hagain, hforeign, hstrip] at hdouble
  rw [hagain, hforeign, hstrip]
  exact (List.append_cancel_right hdouble).symm

/-- Retracting the injected rows of one command gives the arrays back. -/
theorem lookup_retractEvents {m' : Members}
    (hcommand : ∀ e ∈ events, e.entry.command = hookCommand) (hfree : FreeOf hookCommand root)
    (hm' : events.foldlM injectEvent (hooksOf root) = .ok m') (name : String) :
    (m'.lookup name).map (retractEvent hookCommand) =
      (ensureEvents events (hooksOf root)).lookup name := by
  rw [lookup_injectEvents hm', lookup_ensureEvents]
  split
  case isTrue hnil =>
      -- an event that is not listed
      have hstrip := strip_of_freeOf hfree name
      cases hl : (hooksOf root).lookup name with
      | none => rfl
      | some v =>
          cases v with
          | arr items =>
              rw [eventArray, hl] at hstrip
              rw [Option.map_some, retractEvent_arr]
              exact congrArg (fun items => some (Json.arr items)) hstrip
          | _ => rfl
  case isFalse hne =>
      have hitems : ((hooksOf root).lookup name).getD (.arr []) = .arr (eventArray root name) := by
        cases hl : (hooksOf root).lookup name with
        | none => rw [eventArray, hl]; rfl
        | some v =>
            obtain ⟨e, he, rfl⟩ := listed_ne_nil.mp hne
            obtain ⟨items, rfl⟩ := injectEvents_isOk.mp ⟨m', hm'⟩ e he v hl
            rw [eventArray, hl]
            rfl
      rw [Option.map_some, hitems]
      exact congrArg (fun items => some (Json.arr items))
        (strip_replaceRows_of_freeOf hcommand hfree hne)

/-- Retracting the injected rows of one command gives the document back. -/
theorem retractHooks_injectHooks (hvalue : Json.IsValue (.obj root))
    (hcommand : ∀ e ∈ events, e.entry.command = hookCommand) (hfree : FreeOf hookCommand root)
    (h : injectHooks events root = .ok root') :
    retractHooks hookCommand root' = withEvents events root := by
  obtain ⟨-, m', hm', rfl⟩ := injectHooks_eq_ok.mp h
  rw [retractHooks, lookup_insert_self]
  simp only
  rw [insert_insert, withEvents]
  have hnodup : (keys (ensureEvents events (hooksOf root))).Nodup :=
    nodup_ensureEvents (isValue_hooksOf hvalue).nodup
  have hkeys : keys (m'.map fun e => (e.1, retractEvent hookCommand e.2)) =
      keys (ensureEvents events (hooksOf root)) := by
    rw [keys_map_value, keys_injectEvents hm']
  have hsame : (m'.map fun e => (e.1, retractEvent hookCommand e.2)) =
      ensureEvents events (hooksOf root) := by
    refine ext (hkeys ▸ hnodup) hkeys fun name => ?_
    rw [lookup_map_value]
    exact lookup_retractEvents hcommand hfree hm' name
  rw [hsame]

/-- What an injection of a text gives: the new document, and what becomes of
    it when the rows are injected again or retracted. -/
structure InjectsHooksText (J : ConfigJson) (events : List HookEvent) (root : Members)
    (text' : String) : Prop where
  document : ∃ root', J.toValue text' = some (.obj root') ∧ InjectsHooks events root root'
  again : injectSpecttyHooks J text' events = .ok text'
  roundTrip : ∀ hookCommand, (∀ e ∈ events, e.entry.command = hookCommand) →
    FreeOf hookCommand root → ∃ text'', retractSpecttyHooks J text' hookCommand = .ok text'' ∧
      J.toValue text'' = some (.obj (withEvents events root))

theorem injectSpecttyHooks_spec (htext : J.toValue text = some (.obj root))
    (h : injectSpecttyHooks J text events = .ok text') :
    InjectsHooksText J events root text' := by
  obtain ⟨root₀, root', htext₀, hinject, rfl⟩ := injectSpecttyHooks_eq_ok.mp h
  rw [htext] at htext₀
  obtain rfl := Json.obj.inj (Option.some.inj htext₀)
  have hvalue : Json.IsValue (.obj root) := SerdeJson.isValue_of_toValue htext
  have hvalue' : Json.IsValue (.obj root') := isValue_injectHooks hvalue hinject
  have hread : J.toValue (serializePretty J root') = some (.obj root') :=
    toValue_serializePretty hvalue'
  refine ⟨⟨root', hread, injectHooks_spec hinject⟩, ?_, fun hookCommand hcommand hfree => ?_⟩
  · exact injectSpecttyHooks_eq_ok.mpr
      ⟨root', root', hread, injectHooks_again hvalue hinject, rfl⟩
  · refine ⟨_, retractSpecttyHooks_eq_ok.mpr ⟨root', hread, rfl⟩, ?_⟩
    rw [toValue_serializePretty (isValue_retractHooks hvalue'),
      retractHooks_injectHooks hvalue hcommand hfree hinject]

theorem retractSpecttyHooks_spec (htext : J.toValue text = some (.obj root))
    (hookCommand : String) :
    retractSpecttyHooks J text hookCommand =
        .ok (serializePretty J (retractHooks hookCommand root)) ∧
      J.toValue (serializePretty J (retractHooks hookCommand root)) =
        some (.obj (retractHooks hookCommand root)) :=
  ⟨retractSpecttyHooks_eq_ok.mpr ⟨root, htext, rfl⟩,
    toValue_serializePretty (isValue_retractHooks (SerdeJson.isValue_of_toValue htext))⟩

/-- The editor of the hook rows on an object document: what a successful
    injection does, and that a retraction leaves no inner entry with its
    command. -/
theorem hooks_round_trip (htext : J.toValue text = some (.obj root)) (events : List HookEvent)
    (hookCommand : String) :
    (∀ text', injectSpecttyHooks J text events = .ok text' →
      InjectsHooksText J events root text') ∧
    ∃ text' root', retractSpecttyHooks J text hookCommand = .ok text' ∧
      J.toValue text' = some (.obj root') ∧
      ∀ name, ∀ p ∈ innerEntries (eventArray root' name), commandOf p.2 ≠ some hookCommand := by
  refine ⟨fun text' => injectSpecttyHooks_spec htext, ?_⟩
  obtain ⟨hretract, hread⟩ := retractSpecttyHooks_spec htext hookCommand
  exact ⟨_, _, hretract, hread, not_owned_retractHooks⟩

/-- A listing of the given command for the event `Stop`. -/
def stopEvent (command : String) : HookEvent :=
  ⟨"Stop", ⟨command, ["--event", "Stop"]⟩, none⟩

/-- A document with one outer element under `Stop`. -/
def stopDocument (inner : List Json) : Members :=
  [("hooks", .obj [("Stop", .arr [.obj [("hooks", .arr inner)]])])]

theorem isValue_stopDocument {inner : List Json} (h : ∀ x ∈ inner, x.IsValue) :
    Json.IsValue (.obj (stopDocument inner)) := by
  have hinner : Json.IsValue (.arr inner) := Json.isValue_arr.mpr h
  simp [stopDocument, Json.isValue_obj, Json.isValue_arr, hinner, keys]

theorem isValue_stopDocument_entry (event : HookEvent) :
    Json.IsValue (.obj (stopDocument [event.entry.inner])) := by
  refine isValue_stopDocument fun x hx => ?_
  rw [List.mem_singleton.mp hx]
  exact HookCommandEntry.isValue_inner _

/-- A row next to a foreign one, injected and retracted. -/
theorem hooks_round_trip_stop :
    ∃ text', injectSpecttyHooks .compact
        (serializePretty .compact (stopDocument [(stopEvent "theirs").entry.inner]))
        [stopEvent "ours"] = .ok text' ∧
      InjectsHooksText .compact [stopEvent "ours"]
        (stopDocument [(stopEvent "theirs").entry.inner]) text' := by
  have hvalue := isValue_stopDocument_entry (stopEvent "theirs")
  have hread := toValue_serializePretty (J := .compact) hvalue
  obtain ⟨root', hroot'⟩ := injectHooks_isOk.mpr (show hooksInjectable [stopEvent "ours"]
    (stopDocument [(stopEvent "theirs").entry.inner]) = true by decide)
  have hinject := injectSpecttyHooks_eq_ok.mpr ⟨_, _, hread, hroot', rfl⟩
  exact ⟨_, hinject, (hooks_round_trip hread [stopEvent "ours"] "ours").1 _ hinject⟩

-- ============================================================================
-- Foreign elements
-- ============================================================================

/-- The outer element contains no inner entry that is owned. -/
def unowned (keep : Json → Bool) (element : Json) : Bool := (innerOf element).all keep

/-- The unowned elements of an array survive a strip, followed by rows, exactly
    if the array has no element with an empty `hooks` array. -/
theorem unowned_sublist_iff {keep : Json → Bool} {arr tail : List Json}
    (htail : ∀ e ∈ tail, hasInner e = true) :
    (arr.filter (unowned keep)).Sublist (strip keep arr ++ tail) ↔
      ∀ e ∈ arr, hasInner e = true := by
  constructor
  · intro hsub e he
    by_contra hempty
    -- an element with an empty array owns nothing, so it would have to survive
    have hnil : innerOf e = [] := innerOf_of_not_hasInner hempty
    have hmem : e ∈ arr.filter (unowned keep) :=
      List.mem_filter.mpr ⟨he, by rw [unowned, hnil]; rfl⟩
    rcases List.mem_append.mp (hsub.subset hmem) with hkept | hrow
    · exact hempty (hasInner_of_mem_strip hkept)
    · exact hempty (htail e hrow)
  · intro hinner
    refine List.Sublist.trans ?_ (List.sublist_append_left _ tail)
    induction arr with
    | nil => exact List.Sublist.slnil
    | cons e arr ih =>
        rw [List.forall_mem_cons] at hinner
        rw [strip_cons]
        by_cases hfree : unowned keep e = true
        · have hself : retainInner keep e = e :=
            retainInner_self (List.all_eq_true.mp hfree)
          rw [List.filter_cons_of_pos hfree, hself, if_pos hinner.1]
          exact (ih hinner.2).cons_cons e
        · rw [List.filter_cons_of_neg hfree]
          split
          case isTrue => exact (ih hinner.2).cons _
          case isFalse => exact ih hinner.2

/-- An injection keeps the elements without a listed command. -/
def InjectKeepsForeign (J : ConfigJson) (events : List HookEvent) (text : String)
    (root : Members) : Prop :=
  ∀ text' root', injectSpecttyHooks J text events = .ok text' →
    J.toValue text' = some (.obj root') → ∀ name,
      ((eventArray root name).filter (unowned (foreign (listed events name)))).Sublist
        (eventArray root' name)

/-- A retraction keeps the elements without the command, and a document
    without it. -/
def RetractKeepsForeign (J : ConfigJson) (hookCommand text : String) (root : Members) : Prop :=
  ∀ text' root', retractSpecttyHooks J text hookCommand = .ok text' →
    J.toValue text' = some (.obj root') →
      (∀ name, ((eventArray root name).filter (unowned (keepsInner hookCommand))).Sublist
        (eventArray root' name)) ∧
      ((∀ name, ∀ p ∈ innerEntries (eventArray root name), commandOf p.2 ≠ some hookCommand) →
        root' = root)

/-- Without the command and without empty elements a retraction does
    nothing. -/
theorem retractHooks_of_freeOf (hvalue : Json.IsValue (.obj root))
    (hfree : FreeOf hookCommand root) :
    retractHooks hookCommand root = root := by
  unfold retractHooks
  split
  case h_1 hooksMap hl =>
      have hmap : (hooksMap.map fun e => (e.1, retractEvent hookCommand e.2)) = hooksMap := by
        have hnodup := (hvalue.lookup hl).nodup
        refine ext ((keys_map_value _ _).symm ▸ hnodup) (keys_map_value _ _) fun name => ?_
        have hstrip := strip_of_freeOf hfree name
        rw [eventArray, hooksOf_of_lookup hl] at hstrip
        rw [lookup_map_value]
        cases hv : hooksMap.lookup name with
        | none => rfl
        | some v =>
            rw [hv] at hstrip
            cases v with
            | arr items =>
                rw [Option.map_some, retractEvent_arr]
                exact congrArg (fun items => some (Json.arr items)) hstrip
            | _ => rfl
      rw [hmap, insert_of_lookup hl]
  case h_2 => rfl

theorem injectKeepsForeign_iff (htext : J.toValue text = some (.obj root))
    (hinjectable : hooksInjectable events root = true) :
    InjectKeepsForeign J events text root ↔
      ∀ e ∈ events, ∀ element ∈ eventArray root e.eventName, hasInner element = true := by
  obtain ⟨root', hinject⟩ := injectHooks_isOk.mpr hinjectable
  have hvalue' := isValue_injectHooks (SerdeJson.isValue_of_toValue htext) hinject
  have hrows : ∀ rows : List HookEvent, ∀ e ∈ (lastListed rows).map HookEvent.row,
      hasInner e = true := by
    intro rows e he
    obtain ⟨r, -, rfl⟩ := List.mem_map.mp he
    exact r.hasInner_row
  constructor
  · intro hkeeps e he
    have hne : listed events e.eventName ≠ [] := listed_ne_nil.mpr ⟨e, he, rfl⟩
    have hsub := hkeeps _ root' (injectSpecttyHooks_eq_ok.mpr ⟨root, root', htext, hinject, rfl⟩)
      (toValue_serializePretty hvalue') e.eventName
    rw [eventArray_injectHooks hinject, if_neg hne, replaceRows_eq hne] at hsub
    exact (unowned_sublist_iff (hrows _)).mp hsub
  · intro hinner text' root'' hinject' hread name
    obtain ⟨root₀, root₁, htext₀, hinject₁, rfl⟩ := injectSpecttyHooks_eq_ok.mp hinject'
    rw [htext] at htext₀
    obtain rfl := Json.obj.inj (Option.some.inj htext₀)
    obtain rfl : root' = root₁ := Except.ok.inj (hinject.symm.trans hinject₁)
    rw [toValue_serializePretty hvalue'] at hread
    obtain rfl := Json.obj.inj (Option.some.inj hread)
    rw [eventArray_injectHooks hinject]
    split
    case isTrue => exact List.filter_sublist
    case isFalse hne =>
        obtain ⟨e, he, rfl⟩ := listed_ne_nil.mp hne
        rw [replaceRows_eq hne]
        exact (unowned_sublist_iff (hrows _)).mpr (hinner e he)

theorem retractKeepsForeign_iff (htext : J.toValue text = some (.obj root)) :
    RetractKeepsForeign J hookCommand text root ↔
      ∀ name, ∀ element ∈ eventArray root name, hasInner element = true := by
  have hvalue := SerdeJson.isValue_of_toValue htext
  obtain ⟨hretract, hread⟩ := retractSpecttyHooks_spec htext hookCommand
  have hsublist : ∀ name, ((eventArray root name).filter (unowned (keepsInner hookCommand))).Sublist
      (eventArray (retractHooks hookCommand root) name) ↔
        ∀ element ∈ eventArray root name, hasInner element = true := by
    intro name
    rw [eventArray_retractHooks]
    have hiff : ((eventArray root name).filter (unowned (keepsInner hookCommand))).Sublist
        (strip (keepsInner hookCommand) (eventArray root name) ++ []) ↔ _ :=
      unowned_sublist_iff (List.forall_mem_nil _)
    rwa [List.append_nil] at hiff
  constructor
  · intro hkeeps name
    exact (hsublist name).mp ((hkeeps _ _ hretract hread).1 name)
  · intro hinner text' root' hretract' hread'
    obtain rfl : serializePretty J (retractHooks hookCommand root) = text' :=
      Except.ok.inj (hretract.symm.trans hretract')
    rw [hread] at hread'
    obtain rfl := Json.obj.inj (Option.some.inj hread')
    refine ⟨fun name => (hsublist name).mpr (hinner name), fun hnone => ?_⟩
    refine retractHooks_of_freeOf hvalue fun name element helement => ?_
    refine ⟨hinner name element helement, fun h hh => ?_⟩
    exact hnone name (otherFields element, h)
      (List.mem_flatMap.mpr ⟨element, helement, List.mem_map.mpr ⟨h, hh, rfl⟩⟩)

/-- The editor keeps foreign elements exactly if no outer element of the
    arrays it edits has an empty `hooks` array. -/
theorem hooks_keep_foreign (htext : J.toValue text = some (.obj root)) (events : List HookEvent)
    (hookCommand : String) :
    (hooksInjectable events root = true → (InjectKeepsForeign J events text root ↔
      ∀ e ∈ events, ∀ element ∈ eventArray root e.eventName, hasInner element = true)) ∧
    (RetractKeepsForeign J hookCommand text root ↔
      ∀ name, ∀ element ∈ eventArray root name, hasInner element = true) :=
  ⟨injectKeepsForeign_iff htext, retractKeepsForeign_iff htext⟩

/-- The arrays of a document with one element under `Stop`. -/
theorem mem_eventArray_stopDocument {inner : List Json} {name : String} {element : Json}
    (h : element ∈ eventArray (stopDocument inner) name) :
    element = .obj [("hooks", .arr inner)] := by
  have hhooks : hooksOf (stopDocument inner) =
      [("Stop", .arr [.obj [("hooks", .arr inner)]])] := rfl
  rw [eventArray, hhooks, List.lookup_cons, List.lookup_nil] at h
  split at h
  case h_1 => exact List.mem_singleton.mp h
  case h_2 => cases h

/-- A foreign row survives a retraction. -/
theorem hooks_keep_foreign_stop :
    RetractKeepsForeign .compact "ours"
      (serializePretty .compact (stopDocument [(stopEvent "theirs").entry.inner]))
      (stopDocument [(stopEvent "theirs").entry.inner]) := by
  have hvalue := isValue_stopDocument_entry (stopEvent "theirs")
  refine (hooks_keep_foreign (toValue_serializePretty hvalue) [] "ours").2.mpr ?_
  intro name element helement
  rw [mem_eventArray_stopDocument helement]
  rfl

/-- An element with an empty `hooks` array is dropped by an injection and by a
    retraction, though no owned entry was in it. -/
theorem hooks_drop_foreign :
    ¬ InjectKeepsForeign .compact [stopEvent "ours"] (serializePretty .compact (stopDocument []))
        (stopDocument []) ∧
      ¬ RetractKeepsForeign .compact "ours" (serializePretty .compact (stopDocument []))
        (stopDocument []) := by
  have hvalue : Json.IsValue (.obj (stopDocument [])) := isValue_stopDocument (by simp)
  have hread := toValue_serializePretty (J := .compact) hvalue
  have hempty : hasInner (.obj [("hooks", .arr [])]) = false := rfl
  have hmem : Json.obj [("hooks", .arr [])] ∈ eventArray (stopDocument []) "Stop" :=
    List.mem_singleton.mpr rfl
  constructor
  · intro hkeeps
    have hall := (injectKeepsForeign_iff hread (by decide)).mp hkeeps
    have hinner := hall (stopEvent "ours") (List.mem_singleton.mpr rfl) _ hmem
    rw [hempty] at hinner
    cases hinner
  · intro hkeeps
    have hinner := (retractKeepsForeign_iff hread).mp hkeeps "Stop" _ hmem
    rw [hempty] at hinner
    cases hinner

end Spectty.Provision
