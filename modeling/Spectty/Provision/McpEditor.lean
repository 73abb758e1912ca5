/-
  Spectty.Provision.McpEditor

  The editor of the managed server: what it leaves alone.

  `injectServer_spec` is what an injection does to the document and to the
  rest of it.  A retraction takes the server out and keeps every other value;
  it keeps their order exactly when at most one server stands behind the
  managed one (`retract_keeps_order`), since the last server moves into the
  freed place.
-/

import Spectty.Provision.JsonNamespace
import Spectty.Lib.JsonText

namespace Spectty.Provision

open Spectty.Core
open Spectty.Lib
open Spectty.Lib.IndexMap

variable {J : ConfigJson} {text text' serverName : String} {entry : McpServerEntry}
  {root root' : Members}

/-- `mcpServers` is absent or an object. -/
def serversObject (root : Members) : Bool := (root.lookup "mcpServers").all Json.isObject

/-- The servers of a root object. -/
def serversOf (root : Members) : Members :=
  match root.lookup "mcpServers" with
  | some (.obj servers) => servers
  | _ => []

theorem serversOf_of_lookup {servers : Members}
    (h : root.lookup "mcpServers" = some (.obj servers)) :
    serversOf root = servers := by
  rw [serversOf, h]

theorem nodup_serversOf (h : Json.IsValue (.obj root)) : (keys (serversOf root)).Nodup := by
  unfold serversOf
  split
  case h_1 servers hs => exact (h.lookup hs).nodup
  case h_2 => exact List.nodup_nil

theorem isValue_serversOf (h : Json.IsValue (.obj root)) :
    Json.IsValue (.obj (serversOf root)) := by
  unfold serversOf
  split
  case h_1 servers hs => exact h.lookup hs
  case h_2 => exact Json.isValue_obj.mpr ⟨List.nodup_nil, by simp⟩

-- ============================================================================
-- The entry
-- ============================================================================

theorem isValue_strings (items : List String) : Json.IsValue (.arr (items.map .str)) := by
  rw [Json.isValue_arr]
  intro j hj
  obtain ⟨s, -, rfl⟩ := List.mem_map.mp hj
  exact Json.isValue_str s

theorem isValue_envMembers (env : List (String × String)) :
    Json.IsValue (.obj (envMembers env)) := by
  have hfold : ∀ acc : Members, Json.IsValue (.obj acc) → Json.IsValue
      (.obj (env.foldl (fun env pair => insert pair.1 (.str pair.2) env) acc)) := by
    induction env with
    | nil => exact fun acc h => h
    | cons pair env ih => exact fun acc h => ih _ (h.insert (Json.isValue_str pair.2))
  exact hfold [] (Json.isValue_obj.mpr ⟨List.nodup_nil, by simp⟩)

theorem McpServerEntry.isValue_toValue (self : McpServerEntry) : self.toValue.IsValue := by
  have hargs := isValue_strings self.args
  have henv := isValue_envMembers self.env
  rw [McpServerEntry.toValue, Json.isValue_obj]
  exact ⟨by simp [keys], by simp [hargs, henv]⟩

-- ============================================================================
-- Injection
-- ============================================================================

/-- An injection succeeds exactly on documents whose `mcpServers` is absent or
    an object, and puts the entry there. -/
theorem injectServer_eq_ok :
    injectServer serverName entry root = .ok root' ↔ serversObject root = true ∧
      root' =
        insert "mcpServers" (.obj (insert serverName entry.toValue (serversOf root))) root := by
  unfold injectServer serversObject serversOf
  simp only [lookup_entryOrInsert, if_true, insert_entryOrInsert]
  cases hl : root.lookup "mcpServers" with
  | none => simp [eq_comm]
  | some v =>
      cases v with
      | obj servers => simp [Json.isObject, eq_comm]
      | _ => simp [Json.isObject]

/-- The document after an injection, next to the document before. -/
structure InjectsServer (serverName : String) (entry : McpServerEntry) (root root' : Members) :
    Prop where
  managed : (serversOf root').lookup serverName = some entry.toValue
  rootOthers : others "mcpServers" root' = others "mcpServers" root
  serverOthers : others serverName (serversOf root') = others serverName (serversOf root)
  keepsPlace : "mcpServers" ∈ keys root → keys root' = keys root

theorem injectServer_spec (h : injectServer serverName entry root = .ok root') :
    InjectsServer serverName entry root root' := by
  obtain ⟨-, rfl⟩ := injectServer_eq_ok.mp h
  have hservers := serversOf_of_lookup (lookup_insert_self (k := "mcpServers") (m := root)
    (v := .obj (insert serverName entry.toValue (serversOf root))))
  refine ⟨?_, others_insert, ?_, keys_insert_of_mem⟩
  · rw [hservers, lookup_insert_self]
  · rw [hservers, others_insert]

theorem isValue_injectServer (hvalue : Json.IsValue (.obj root))
    (h : injectServer serverName entry root = .ok root') : Json.IsValue (.obj root') := by
  obtain ⟨-, rfl⟩ := injectServer_eq_ok.mp h
  exact hvalue.insert ((isValue_serversOf hvalue).insert entry.isValue_toValue)

/-- Injecting the same entry again changes nothing. -/
theorem injectServer_again (h : injectServer serverName entry root = .ok root') :
    injectServer serverName entry root' = .ok root' := by
  obtain ⟨-, rfl⟩ := injectServer_eq_ok.mp h
  rw [injectServer_eq_ok, serversOf_of_lookup lookup_insert_self, insert_insert, insert_insert]
  refine ⟨?_, rfl⟩
  rw [serversObject, lookup_insert_self]
  rfl

-- ============================================================================
-- Retraction
-- ============================================================================

theorem serversOf_retractServer :
    serversOf (retractServer serverName root) = swapRemove serverName (serversOf root) := by
  unfold retractServer
  split
  case h_1 servers hs => rw [serversOf_of_lookup lookup_insert_self, serversOf_of_lookup hs]
  case h_2 hs =>
      have hnil : serversOf root = [] := by
        rw [serversOf]
        split
        case h_1 servers hs' => exact absurd hs' (hs servers)
        case h_2 => rfl
      rw [hnil]
      rfl

theorem others_retractServer :
    others "mcpServers" (retractServer serverName root) = others "mcpServers" root := by
  unfold retractServer
  split
  case h_1 servers hs => exact others_insert
  case h_2 => rfl

theorem keys_retractServer : keys (retractServer serverName root) = keys root := by
  unfold retractServer
  split
  case h_1 servers hs => exact keys_insert_of_mem (mem_keys hs)
  case h_2 => rfl

theorem isValue_retractServer (h : Json.IsValue (.obj root)) :
    Json.IsValue (.obj (retractServer serverName root)) := by
  unfold retractServer
  split
  case h_1 servers hs =>
      have hservers := h.lookup hs
      refine h.insert (Json.isValue_obj.mpr ⟨nodup_swapRemove hservers.nodup, fun m hm => ?_⟩)
      exact (Json.isValue_obj.mp hservers).2 m (mem_of_mem_swapRemove hservers.nodup hm)
  case h_2 => exact h

/-- Retracting what was injected under a new name gives the document back,
    with an `mcpServers` object in last position if there was none. -/
theorem retractServer_injectServer (hname : serverName ∉ keys (serversOf root))
    (h : injectServer serverName entry root = .ok root') :
    retractServer serverName root' = entryOrInsert "mcpServers" (.obj []) root := by
  obtain ⟨hobject, rfl⟩ := injectServer_eq_ok.mp h
  rw [retractServer, lookup_insert_self]
  simp only
  rw [insert_insert, insert_of_not_mem hname, swapRemove_concat hname]
  by_cases hk : "mcpServers" ∈ keys root
  · rw [entryOrInsert_of_mem hk]
    cases hl : root.lookup "mcpServers" with
    | none => exact absurd hk (lookup_eq_none.mp hl)
    | some v =>
        rw [serversObject, hl] at hobject
        cases v with
        | obj servers =>
            rw [serversOf_of_lookup hl]
            exact insert_of_lookup hl
        | _ => cases hobject
  · rw [entryOrInsert_of_not_mem hk, ← insert_of_not_mem hk, serversOf, lookup_eq_none.mpr hk]

-- ============================================================================
-- The editor of texts
-- ============================================================================

theorem injectSpecttyMcp_eq_ok :
    injectSpecttyMcp J text serverName entry = .ok text' ↔ ∃ root root',
      J.toValue text = some (.obj root) ∧ injectServer serverName entry root = .ok root' ∧
        text' = serializePretty J root' := edit_eq_ok _

/-- An injection of a document: the new document, and what becomes of it when
    it is injected again or retracted. -/
structure InjectsMcp (J : ConfigJson) (serverName : String) (entry : McpServerEntry)
    (root : Members) (text' : String) : Prop where
  document : ∃ root', J.toValue text' = some (.obj root') ∧
    InjectsServer serverName entry root root'
  again : injectSpecttyMcp J text' serverName entry = .ok text'
  roundTrip : serverName ∉ keys (serversOf root) →
    ∃ text'', retractSpecttyMcp J text' serverName = .ok text'' ∧
      J.toValue text'' = some (.obj (entryOrInsert "mcpServers" (.obj []) root))

theorem retractSpecttyMcp_eq_ok :
    retractSpecttyMcp J text serverName = .ok text' ↔ ∃ root, J.toValue text = some (.obj root) ∧
      text' = serializePretty J (retractServer serverName root) := by
  have hedit : retractSpecttyMcp J text serverName = .ok text' ↔ ∃ root root',
      J.toValue text = some (.obj root) ∧
        (.ok (retractServer serverName root) : Except ProvisioningError Members) = .ok root' ∧
          text' = serializePretty J root' :=
    edit_eq_ok fun root => .ok (retractServer serverName root)
  rw [hedit]
  constructor
  · rintro ⟨root, root', htext, hroot', rfl⟩
    rw [← Except.ok.inj hroot']
    exact ⟨root, htext, rfl⟩
  · rintro ⟨root, htext, rfl⟩
    exact ⟨root, _, htext, rfl, rfl⟩

theorem injectSpecttyMcp_spec (htext : J.toValue text = some (.obj root))
    (h : injectSpecttyMcp J text serverName entry = .ok text') :
    InjectsMcp J serverName entry root text' := by
  obtain ⟨root₀, root', htext₀, hinject, rfl⟩ := injectSpecttyMcp_eq_ok.mp h
  rw [htext] at htext₀
  obtain rfl := Json.obj.inj (Option.some.inj htext₀)
  have hvalue : Json.IsValue (.obj root') :=
    isValue_injectServer (SerdeJson.isValue_of_toValue htext) hinject
  have hread : J.toValue (serializePretty J root') = some (.obj root') :=
    toValue_serializePretty hvalue
  refine ⟨⟨root', hread, injectServer_spec hinject⟩, ?_, fun hname => ?_⟩
  · exact injectSpecttyMcp_eq_ok.mpr ⟨root', root', hread, injectServer_again hinject, rfl⟩
  · refine ⟨_, retractSpecttyMcp_eq_ok.mpr ⟨root', hread, rfl⟩, ?_⟩
    rw [toValue_serializePretty (isValue_retractServer hvalue),
      retractServer_injectServer hname hinject]

/-- What a retraction must leave alone: the root's other members and the
    other servers, with their values and in their order. -/
structure KeepsForeignServers (serverName : String) (root root' : Members) : Prop where
  rootOthers : others "mcpServers" root' = others "mcpServers" root
  rootKeys : keys root' = keys root
  serverOthers : others serverName (serversOf root') = others serverName (serversOf root)

/-- A retraction keeps them exactly if at most one server stands behind the
    managed one. -/
theorem retract_keeps_order (htext : J.toValue text = some (.obj root)) :
    (∃ text' root', retractSpecttyMcp J text serverName = .ok text' ∧
        J.toValue text' = some (.obj root') ∧ KeepsForeignServers serverName root root') ↔
      ∀ pre managed post, serversOf root = pre ++ (serverName, managed) :: post →
        post.length ≤ 1 := by
  have hvalue : Json.IsValue (.obj root) := SerdeJson.isValue_of_toValue htext
  rw [← others_swapRemove (nodup_serversOf hvalue), ← serversOf_retractServer]
  constructor
  · rintro ⟨text', root', hretract, htext', hkeeps⟩
    obtain ⟨root'', htext'', rfl⟩ := retractSpecttyMcp_eq_ok.mp hretract
    rw [htext] at htext''
    obtain rfl := Json.obj.inj (Option.some.inj htext'')
    rw [toValue_serializePretty (isValue_retractServer hvalue)] at htext'
    obtain rfl := Json.obj.inj (Option.some.inj htext')
    exact hkeeps.serverOthers
  · intro hothers
    exact ⟨_, _, retractSpecttyMcp_eq_ok.mpr ⟨root, htext, rfl⟩,
      toValue_serializePretty (isValue_retractServer hvalue), others_retractServer,
      keys_retractServer, hothers⟩

/-- The compact text layer, for configurations. -/
def ConfigJson.compact : ConfigJson where
  toSerdeJson := .compact
  errorOf := fun _ => "not JSON"
  toValue_empty := rfl

/-- A configuration with the given servers. -/
def configOf (names : List String) : Members :=
  [("mcpServers", .obj (names.map fun name => (name, .obj [])))]

theorem isValue_configOf {names : List String} (h : names.Nodup) :
    Json.IsValue (.obj (configOf names)) := by
  have hkeys : keys (names.map fun name => (name, Json.obj [])) = names := by
    rw [keys, List.map_map]
    exact List.map_id names
  have hservers : Json.IsValue (.obj (names.map fun name => (name, Json.obj []))) := by
    rw [Json.isValue_obj, hkeys]
    refine ⟨h, fun m hm => ?_⟩
    obtain ⟨name, -, rfl⟩ := List.mem_map.mp hm
    exact Json.isValue_obj.mpr ⟨List.nodup_nil, by simp⟩
  rw [Json.isValue_obj]
  exact ⟨by simp [configOf, keys], by simpa [configOf] using hservers⟩

/-- One server behind the managed one. -/
theorem retract_keeps_order_second_to_last :
    ∃ text' root', retractSpecttyMcp .compact
        (serializePretty .compact (configOf ["a", "spectty", "b"])) "spectty" = .ok text' ∧
      ConfigJson.compact.toValue text' = some (.obj root') ∧
      KeepsForeignServers "spectty" (configOf ["a", "spectty", "b"]) root' := by
  refine (retract_keeps_order (toValue_serializePretty (isValue_configOf (by decide)))).mpr ?_
  intro pre managed post hsplit
  have hkeys : keys (serversOf (configOf ["a", "spectty", "b"])) =
      keys pre ++ "spectty" :: keys post := by
    rw [hsplit, keys_append, keys_cons]
  have hpost : ["b"] = keys post := by
    have hsame : ["a"] ++ "spectty" :: ["b"] = keys pre ++ "spectty" :: keys post := hkeys
    exact ((List.append_cons_inj_of_notMem (by decide) (by decide)).mp hsame).2.2
  have hlen : (keys post).length = 1 := by rw [← hpost]; rfl
  rw [List.length_map] at hlen
  omega

/-- Two servers behind the managed one come out in the other order. -/
theorem retract_reorders :
    ∃ text' root', retractSpecttyMcp .compact
        (serializePretty .compact (configOf ["spectty", "a", "b"])) "spectty" = .ok text' ∧
      ConfigJson.compact.toValue text' = some (.obj root') ∧
      keys (others "spectty" (serversOf root')) = ["b", "a"] ∧
      keys (others "spectty" (serversOf (configOf ["spectty", "a", "b"]))) = ["a", "b"] ∧
      ¬ KeepsForeignServers "spectty" (configOf ["spectty", "a", "b"]) root' := by
  have hvalue : Json.IsValue (.obj (configOf ["spectty", "a", "b"])) :=
    isValue_configOf (by decide)
  have hafter : keys (others "spectty"
      (serversOf (retractServer "spectty" (configOf ["spectty", "a", "b"])))) = ["b", "a"] := by
    decide
  have hbefore : keys (others "spectty" (serversOf (configOf ["spectty", "a", "b"]))) =
      ["a", "b"] := by
    decide
  refine ⟨_, _, retractSpecttyMcp_eq_ok.mpr ⟨_, toValue_serializePretty hvalue, rfl⟩,
    toValue_serializePretty (isValue_retractServer hvalue), hafter, hbefore, fun hkeeps => ?_⟩
  rw [hkeeps.serverOthers, hbefore] at hafter
  exact absurd hafter (by decide)

end Spectty.Provision
