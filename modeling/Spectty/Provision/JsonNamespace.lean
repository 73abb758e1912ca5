/-
  Spectty.Provision.JsonNamespace

  The editor of the agent's configuration files.  It takes the text of a file
  and gives the new text; in between it works on the parsed document, whose
  objects are maps in insertion order (`IndexMap`).

  - `injectSpecttyMcp`, `retractSpecttyMcp`: the managed server under
    `mcpServers`;
  - `injectSpecttyHooks`, `retractSpecttyHooks`: the rows under
    `hooks.<event>` whose inner entries carry the hook command.

  Each is the reading of the root object, an edit of it (`injectServer`,
  `retractServer`, `injectHooks`, `retractHooks`), and the writing.
-/

import Spectty.Core.Provisioning
import Spectty.Lib.Json

namespace Spectty.Provision

open Spectty.Core
open Spectty.Lib

/-- The text layer of the editor, with its message for a text it rejects, and
    what it reads the text of an absent file as. -/
structure ConfigJson extends SerdeJson where
  errorOf : String → String
  toValue_empty : toSerdeJson.toValue "{}" = some (.obj [])

variable (J : ConfigJson)

/-- The members of an object. -/
abbrev Members := List (String × Json)

-- ============================================================================
-- Reading and writing a configuration
-- ============================================================================

/-- The root object of a document. -/
def parseRootObject (currentJson : String) : Except ProvisioningError Members :=
  match J.toValue currentJson with
  | none => .error (.parse (J.errorOf currentJson))
  | some (.obj map) => .ok map
  | some _ => .error (.parse "config root is not a JSON object")

/-- The text of a root object. -/
def serializePretty (root : Members) : String := J.toString (.obj root)

-- ============================================================================
-- The managed server
-- ============================================================================

/-- The `mcpServers` entry of the managed server. -/
structure McpServerEntry where
  command : String
  args : List String
  env : List (String × String)
deriving DecidableEq, Repr

/-- The environment as an object; a repeated name takes its last value. -/
def envMembers (env : List (String × String)) : Members :=
  env.foldl (fun env pair => IndexMap.insert pair.1 (.str pair.2) env) []

/-- The entry as the agent expects it. -/
def McpServerEntry.toValue (self : McpServerEntry) : Json :=
  .obj [("command", .str self.command), ("args", .arr (self.args.map .str)),
    ("env", .obj (envMembers self.env))]

/-- Put the entry under its server name, next to the other servers. -/
def injectServer (serverName : String) (entry : McpServerEntry) (root : Members) :
    Except ProvisioningError Members :=
  let root := IndexMap.entryOrInsert "mcpServers" (.obj []) root
  match root.lookup "mcpServers" with
  | some (.obj servers) =>
      .ok (IndexMap.insert "mcpServers"
        (.obj (IndexMap.insert serverName entry.toValue servers)) root)
  | _ => .error (.parse "`mcpServers` is not an object")

def injectSpecttyMcp (currentJson serverName : String) (entry : McpServerEntry) :
    Except ProvisioningError String := do
  let root ← parseRootObject J currentJson
  let root ← injectServer serverName entry root
  return serializePretty J root

/-- Take the server out.  The map is one in insertion order, whose `remove`
    moves the last entry into the freed place. -/
def retractServer (serverName : String) (root : Members) : Members :=
  match root.lookup "mcpServers" with
  | some (.obj servers) =>
      IndexMap.insert "mcpServers" (.obj (IndexMap.swapRemove serverName servers)) root
  | _ => root

def retractSpecttyMcp (currentJson serverName : String) : Except ProvisioningError String := do
  let root ← parseRootObject J currentJson
  return serializePretty J (retractServer serverName root)

-- ============================================================================
-- The hook rows
-- ============================================================================

/-- A hook command registered under an event. -/
structure HookCommandEntry where
  command : String
  args : List String
deriving DecidableEq, Repr

/-- A row to inject: the event, the command, and the matcher of its group. -/
structure HookEvent where
  eventName : String
  entry : HookCommandEntry
  matcher : Option String
deriving DecidableEq, Repr

/-- The inner entry. -/
def HookCommandEntry.inner (self : HookCommandEntry) : Json :=
  .obj [("type", .str "command"), ("command", .str self.command),
    ("args", .arr (self.args.map .str))]

/-- The outer element, with the matcher first when there is one. -/
def HookCommandEntry.toHookListElement (self : HookCommandEntry) (matcher : Option String) : Json :=
  .obj ((matcher.map fun m => ("matcher", .str m)).toList ++ [("hooks", .arr [self.inner])])

/-- The inner entry stays: it carries no command, or another one. -/
def keepsInner (hookCommand : String) (h : Json) : Bool :=
  (((h.get "command").bind Json.asStr).map fun c => decide (c ≠ hookCommand)).getD true

/-- Filter the inner entries of an outer element, in place. -/
def retainInner (keep : Json → Bool) (element : Json) : Json :=
  match element with
  | .obj members =>
      match members.lookup "hooks" with
      | some (.arr innerHooks) =>
          .obj (IndexMap.insert "hooks" (.arr (innerHooks.filter keep)) members)
      | _ => element
  | _ => element

/-- The outer element stays: its `hooks` array is not empty, or there is
    none. -/
def hasInner (element : Json) : Bool :=
  match element.get "hooks" with
  | some (.arr innerHooks) => !innerHooks.isEmpty
  | _ => true

/-- Take the inner entries with the command out of an event array, then the
    outer elements with an empty `hooks` array. -/
def removeInnerSpecttyCommands (eventArray : List Json) (hookCommand : String) : List Json :=
  (eventArray.map (retainInner (keepsInner hookCommand))).filter hasInner

/-- Replace the row of one event. -/
def injectEvent (hooksMap : Members) (event : HookEvent) : Except ProvisioningError Members :=
  let hooksMap := IndexMap.entryOrInsert event.eventName (.arr []) hooksMap
  match hooksMap.lookup event.eventName with
  | some (.arr eventArray) =>
      .ok (IndexMap.insert event.eventName
        (.arr (removeInnerSpecttyCommands eventArray event.entry.command ++
          [event.entry.toHookListElement event.matcher])) hooksMap)
  | _ => .error (.parse ("`hooks." ++ event.eventName ++ "` is not an array"))

/-- Replace the row of each event, in turn. -/
def injectHooks (events : List HookEvent) (root : Members) : Except ProvisioningError Members :=
  let root := IndexMap.entryOrInsert "hooks" (.obj []) root
  match root.lookup "hooks" with
  | some (.obj hooksMap) => do
      let hooksMap ← events.foldlM injectEvent hooksMap
      return IndexMap.insert "hooks" (.obj hooksMap) root
  | _ => .error (.parse "`hooks` is not an object")

def injectSpecttyHooks (currentJson : String) (events : List HookEvent) :
    Except ProvisioningError String := do
  let root ← parseRootObject J currentJson
  let root ← injectHooks events root
  return serializePretty J root

/-- Take the command's rows out of a value under `hooks`. -/
def retractEvent (hookCommand : String) : Json → Json
  | .arr eventArray => .arr (removeInnerSpecttyCommands eventArray hookCommand)
  | value => value

/-- Take the command's rows out of every event. -/
def retractHooks (hookCommand : String) (root : Members) : Members :=
  match root.lookup "hooks" with
  | some (.obj hooksMap) =>
      IndexMap.insert "hooks"
        (.obj (hooksMap.map fun e => (e.1, retractEvent hookCommand e.2))) root
  | _ => root

def retractSpecttyHooks (currentJson hookCommand : String) : Except ProvisioningError String := do
  let root ← parseRootObject J currentJson
  return serializePretty J (retractHooks hookCommand root)

-- ============================================================================
-- Texts and documents
-- ============================================================================

variable {J} {text : String} {root : Members}

theorem parseRootObject_eq_ok :
    parseRootObject J text = .ok root ↔ J.toValue text = some (.obj root) := by
  unfold parseRootObject
  cases hv : J.toValue text with
  | none => simp
  | some j =>
      cases j with
      | obj map => simp
      | _ => simp

/-- A root object that was written is read back. -/
theorem toValue_serializePretty (h : Json.IsValue (.obj root)) :
    J.toValue (serializePretty J root) = some (.obj root) :=
  J.toValue_toString_value h

/-- An edit of the text is an edit of the document. -/
theorem edit_eq_ok (edit : Members → Except ProvisioningError Members) {text' : String} :
    (do let root ← parseRootObject J text
        let root ← edit root
        return serializePretty J root : Except ProvisioningError String) = .ok text' ↔
      ∃ root root', J.toValue text = some (.obj root) ∧ edit root = .ok root' ∧
        text' = serializePretty J root' := by
  constructor
  · intro h
    cases hparse : parseRootObject J text with
    | error e =>
        rw [hparse] at h
        cases h
    | ok root =>
        rw [hparse] at h
        cases hedit : edit root with
        | error e =>
            have h' : (edit root >>= fun root => pure (serializePretty J root)) = .ok text' := h
            rw [hedit] at h'
            cases h'
        | ok root' =>
            have h' : (edit root >>= fun root => pure (serializePretty J root)) = .ok text' := h
            rw [hedit] at h'
            exact ⟨root, root', parseRootObject_eq_ok.mp hparse, hedit, (Except.ok.inj h').symm⟩
  · rintro ⟨root, root', htext, hedit, rfl⟩
    rw [parseRootObject_eq_ok.mpr htext]
    show (edit root >>= fun root => pure (serializePretty J root)) = _
    rw [hedit]
    rfl

end Spectty.Provision
