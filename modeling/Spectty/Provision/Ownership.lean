/-
  Spectty.Provision.Ownership

  What a provisioner owns in a configuration file, apart from the file's text.

  An `Ownership` says what is owned in a content, what an injection makes of
  that (`mark`) and what a retraction leaves (`clean`).  The managed server's
  entry and the hook rows are two such; what follows about the ports holds
  for every one.
-/

import Spectty.Provision.HooksForeign
import Spectty.Provision.Provisioner

namespace Spectty.Provision

open Spectty.Core
open Spectty.Lib
open Spectty.Lib.IndexMap

-- ============================================================================
-- Ports, run with given failures
-- ============================================================================

/-- A provisioner as its callers see it. -/
structure ProvisioningPort where
  inject : ProvisioningScope → Prog ConfigSig (Except ProvisioningError ProvisioningHandle)
  retract : ProvisioningHandle → Prog ConfigSig (Except ProvisioningError Unit)

/-- The provisioner of the managed server as a port. -/
def ClaudeJsonProvisioner.port (J : ConfigJson) (self : ClaudeJsonProvisioner) :
    ProvisioningPort where
  inject := self.inject J
  retract := self.retract J

/-- The provisioner of the hook rows as a port. -/
def ClaudeSettingsProvisioner.port (J : ConfigJson) (self : ClaudeSettingsProvisioner) :
    ProvisioningPort where
  inject := self.inject J
  retract := self.retract J

variable {f : Files.Faults} {files : Files} {path : String} {edit : Edit}
  {scope : ProvisioningScope}

/-- An injection with no failure, of a content that can be edited. -/
theorem interp_injectAt_ok {next : String} (scope : ProvisioningScope)
    (h : edit ((files path).getD "{}") = .ok next) :
    Prog.interp (Files.handler Files.noFaults) (injectAt path edit scope) files =
      (.ok { scope }, Kv.write files path next) := by
  simp [injectAt_eq, Files.handler, Files.noFaults, h]

/-- An injection with a failure, or of a content that cannot be edited. -/
theorem interp_injectAt_error (scope : ProvisioningScope)
    (h : f = Files.noFaults → ∃ e, edit ((files path).getD "{}") = .error e) :
    ∃ e, Prog.interp (Files.handler f) (injectAt path edit scope) files = (.error e, files) := by
  rw [injectAt_eq, Prog.interp_op]
  cases hread : f.read with
  | some msg =>
      simp only [Files.handler, hread]
      exact ⟨_, rfl⟩
  | none =>
      simp only [Files.handler, hread]
      cases hedit : edit ((files path).getD "{}") with
      | error e => exact ⟨_, rfl⟩
      | ok next =>
          cases hwrite : f.write with
          | some msg =>
              simp only [Prog.interp_op, Files.handler, hwrite]
              exact ⟨_, rfl⟩
          | none =>
              have hnone : f = Files.noFaults := by
                cases f
                simp_all [Files.noFaults]
              obtain ⟨e, he⟩ := h hnone
              rw [hedit] at he
              cases he

theorem interp_retractAt_absent (h : files path = none) :
    Prog.interp (Files.handler Files.noFaults) (retractAt path edit) files = (.ok (), files) := by
  simp [retractAt_eq, Files.handler, Files.noFaults, h]

theorem interp_retractAt_ok {text next : String} (h : files path = some text)
    (hedit : edit text = .ok next) :
    Prog.interp (Files.handler Files.noFaults) (retractAt path edit) files =
      (.ok (), Kv.write files path next) := by
  simp [retractAt_eq, Files.handler, Files.noFaults, h, hedit]

/-- Where paths are resolved, the file that is edited is the one that the path names. -/
theorem interp_injectAt_resolved (fileAt : String → String) :
    Prog.interp (Files.resolved fileAt f) (injectAt path edit scope) files =
      Prog.interp (Files.handler f) (injectAt (fileAt path) edit scope) files := by
  rw [injectAt_eq, injectAt_eq, Prog.interp_op, Prog.interp_op, Files.resolved]
  rcases Files.handler f (.read (fileAt path)) files with ⟨msg | current, files⟩
  · rfl
  · dsimp only
    cases edit (current.getD "{}") with
    | error e => rfl
    | ok next =>
        dsimp only
        rw [Prog.interp_op, Prog.interp_op, Files.resolved]
        rcases Files.handler f (.writeAtomic (fileAt path) next) files with ⟨msg | _, files⟩
        · rfl
        · rfl

theorem interp_retractAt_resolved (fileAt : String → String) :
    Prog.interp (Files.resolved fileAt f) (retractAt path edit) files =
      Prog.interp (Files.handler f) (retractAt (fileAt path) edit) files := by
  rw [retractAt_eq, retractAt_eq, Prog.interp_op, Prog.interp_op, Files.resolved]
  rcases Files.handler f (.read (fileAt path)) files with ⟨msg | _ | current, files⟩
  · rfl
  · rfl
  · dsimp only
    cases edit current with
    | error e => rfl
    | ok next =>
        dsimp only
        rw [Prog.interp_op, Prog.interp_op, Files.resolved]
        rcases Files.handler f (.writeAtomic (fileAt path) next) files with ⟨msg | _, files⟩
        · rfl
        · rfl

-- ============================================================================
-- What is owned in a content
-- ============================================================================

section

variable (J : ConfigJson)

/-- The root object of a content. -/
def rootOf (content : Option String) : Option Members :=
  content.bind fun text => (parseRootObject J text).toOption

/-- The entry of the managed server. -/
def managedEntry (content : Option String) : Option Json :=
  (rootOf J content).bind fun root => (serversOf root).lookup managedServerName

/-- The rows with the hook command under an event, each with its group. -/
def ownedRows (hookCommand : String) (content : Option String) (eventName : String) :
    List (Members × Json) :=
  ((rootOf J content).map fun root =>
    (innerEntries (eventArray root eventName)).filter
      fun p => commandOf p.2 = some hookCommand).getD []

end

variable {J : ConfigJson} {root : Members} {text : String}

theorem rootOf_eq_some : rootOf J (some text) = some root ↔ J.toValue text = some (.obj root) := by
  rw [← parseRootObject_eq_ok, rootOf, Option.bind_some]
  cases parseRootObject J text <;> simp [Except.toOption]

theorem rootOf_serializePretty (h : Json.IsValue (.obj root)) :
    rootOf J (some (serializePretty J root)) = some root :=
  rootOf_eq_some.mpr (toValue_serializePretty h)

theorem isValue_of_rootOf {content : Option String} (h : rootOf J content = some root) :
    Json.IsValue (.obj root) := by
  cases content with
  | none => cases h
  | some text => exact SerdeJson.isValue_of_toValue (rootOf_eq_some.mp h)

/-- An absent file reads as the empty object. -/
theorem rootOf_empty : rootOf J (some "{}") = some [] := rootOf_eq_some.mpr J.toValue_empty

theorem managedEntry_of_rootOf {content : Option String} (h : rootOf J content = some root) :
    managedEntry J content = (serversOf root).lookup managedServerName := by
  rw [managedEntry, h, Option.bind_some]

theorem ownedRows_of_rootOf {hookCommand name : String} {content : Option String}
    (h : rootOf J content = some root) :
    ownedRows J hookCommand content name =
      (innerEntries (eventArray root name)).filter fun p => commandOf p.2 = some hookCommand := by
  rw [ownedRows, h, Option.map_some, Option.getD_some]

-- ============================================================================
-- Ownership
-- ============================================================================

/-- A provisioner's files and editors, with what they own in a content. -/
structure Ownership where
  pathFor : ProvisioningScope → String
  injectEdit : Edit
  retractEdit : Edit
  /-- What can be owned in a file. -/
  View : Type
  owned : Option String → View
  /-- What an injection makes of it. -/
  mark : View → View
  /-- What a retraction leaves. -/
  clean : View
  /-- The contents that can be injected. -/
  injectable : Option String → Bool
  /-- The texts that can be retracted. -/
  retractable : String → Bool
  owned_none : owned none = clean
  mark_mark : ∀ v, mark (mark v) = mark v
  inject_ok : ∀ content, injectable content = true →
    ∃ text, injectEdit (content.getD "{}") = .ok text ∧ owned (some text) = mark (owned content) ∧
      retractable text = true ∧ injectable (some text) = true
  inject_error : ∀ content, injectable content = false →
    ∃ e, injectEdit (content.getD "{}") = .error e
  retract_ok : ∀ text, retractable text = true →
    ∃ text', retractEdit text = .ok text' ∧ owned (some text') = clean ∧ retractable text' = true

/-- The port of an ownership. -/
def Ownership.port (self : Ownership) : ProvisioningPort where
  inject := fun scope => injectAt (self.pathFor scope) self.injectEdit scope
  retract := fun handle => retractAt (self.pathFor handle.scope) self.retractEdit

/-- The ownership in the files that the paths name. -/
def Ownership.resolved (fileAt : String → String) (self : Ownership) : Ownership :=
  { self with pathFor := fun scope => fileAt (self.pathFor scope) }

section

variable (J)

/-- The managed server can be injected: `mcpServers` is absent or an object. -/
def mcpInjectable (content : Option String) : Bool :=
  (rootOf J (some (content.getD "{}"))).any serversObject

/-- The hook rows can be injected. -/
def hookRowsInjectable (events : List HookEvent) (content : Option String) : Bool :=
  (rootOf J (some (content.getD "{}"))).any (hooksInjectable events)

/-- The root object of a text that can be edited. -/
theorem exists_root_of_any {J : ConfigJson} {p : Members → Bool} {content : Option String}
    (h : (rootOf J (some (content.getD "{}"))).any p = true) :
    ∃ root, J.toValue (content.getD "{}") = some (.obj root) ∧ p root = true ∧
      (rootOf J content).getD [] = root := by
  rw [Option.any_eq_true] at h
  obtain ⟨root, hroot, hp⟩ := h
  refine ⟨root, rootOf_eq_some.mp hroot, hp, ?_⟩
  cases content with
  | none =>
      rw [Option.getD_none, rootOf_empty] at hroot
      exact Option.some.inj hroot
  | some text =>
      rw [Option.getD_some] at hroot
      rw [hroot, Option.getD_some]

end

-- ============================================================================
-- The managed server
-- ============================================================================

variable {content : Option String}

theorem injectSpecttyMcp_owned (entry : McpServerEntry) (h : mcpInjectable J content = true) :
    ∃ text, injectSpecttyMcp J (content.getD "{}") managedServerName entry = .ok text ∧
      managedEntry J (some text) = some entry.toValue ∧
      (rootOf J (some text)).isSome = true ∧ mcpInjectable J (some text) = true := by
  obtain ⟨root, htext, hobject, -⟩ := exists_root_of_any h
  obtain ⟨root', hinject⟩ : ∃ root', injectServer managedServerName entry root = .ok root' :=
    ⟨_, injectServer_eq_ok.mpr ⟨hobject, rfl⟩⟩
  have hvalue := isValue_injectServer (SerdeJson.isValue_of_toValue htext) hinject
  have hroot' := rootOf_serializePretty (J := J) hvalue
  refine ⟨_, injectSpecttyMcp_eq_ok.mpr ⟨root, root', htext, hinject, rfl⟩, ?_, ?_, ?_⟩
  · obtain ⟨-, rfl⟩ := injectServer_eq_ok.mp hinject
    rw [managedEntry_of_rootOf hroot', serversOf_of_lookup lookup_insert_self, lookup_insert_self]
  · rw [hroot', Option.isSome_some]
  · obtain ⟨-, rfl⟩ := injectServer_eq_ok.mp hinject
    rw [mcpInjectable, Option.getD_some, hroot', Option.any_some, serversObject, lookup_insert_self]
    rfl

theorem injectSpecttyMcp_refused (entry : McpServerEntry) (h : mcpInjectable J content = false) :
    ∃ e, injectSpecttyMcp J (content.getD "{}") managedServerName entry = .error e := by
  cases hinject : injectSpecttyMcp J (content.getD "{}") managedServerName entry with
  | error e => exact ⟨e, rfl⟩
  | ok text =>
      obtain ⟨root, root', htext, hroot', -⟩ := injectSpecttyMcp_eq_ok.mp hinject
      have hobject := (injectServer_eq_ok.mp hroot').1
      rw [mcpInjectable, rootOf_eq_some.mpr htext, Option.any_some, hobject] at h
      cases h

theorem retractSpecttyMcp_owned (h : (rootOf J (some text)).isSome = true) :
    ∃ text', retractSpecttyMcp J text managedServerName = .ok text' ∧
      managedEntry J (some text') = none ∧ (rootOf J (some text')).isSome = true := by
  obtain ⟨root, hroot⟩ := Option.isSome_iff_exists.mp h
  have hvalue := isValue_of_rootOf hroot
  have hvalue' : Json.IsValue (.obj (retractServer managedServerName root)) :=
    isValue_retractServer hvalue
  have hretracted := rootOf_serializePretty (J := J) hvalue'
  refine ⟨_, retractSpecttyMcp_eq_ok.mpr ⟨root, rootOf_eq_some.mp hroot, rfl⟩, ?_, ?_⟩
  · rw [managedEntry_of_rootOf hretracted, serversOf_retractServer,
      lookup_swapRemove (nodup_serversOf hvalue), if_pos rfl]
  · rw [hretracted, Option.isSome_some]

/-- The managed server's entry is owned. -/
def ClaudeJsonProvisioner.ownership (J : ConfigJson) (self : ClaudeJsonProvisioner) :
    Ownership where
  pathFor := self.pathFor
  injectEdit := fun current => injectSpecttyMcp J current managedServerName self.mcpEntry
  retractEdit := fun current => retractSpecttyMcp J current managedServerName
  View := Option Json
  owned := managedEntry J
  mark := fun _ => some self.mcpEntry.toValue
  clean := none
  injectable := mcpInjectable J
  retractable := fun text => (rootOf J (some text)).isSome
  owned_none := rfl
  mark_mark := fun _ => rfl
  inject_ok := fun _ h => injectSpecttyMcp_owned self.mcpEntry h
  inject_error := fun _ h => injectSpecttyMcp_refused self.mcpEntry h
  retract_ok := fun _ h => retractSpecttyMcp_owned h

-- ============================================================================
-- The hook rows
-- ============================================================================

variable {events : List HookEvent} {hookCommand : String}

/-- The owned rows under each event after an injection: the row of its last
    listing, or those it had. -/
def markRows (events : List HookEvent) (hookCommand : String)
    (rows : String → List (Members × Json)) (eventName : String) : List (Members × Json) :=
  match lastListing events eventName hookCommand with
  | some e => [(otherFields e.row, e.entry.inner)]
  | none => rows eventName

theorem markRows_of_lastListing {rows : String → List (Members × Json)} {name : String}
    {e : HookEvent} (h : lastListing events name hookCommand = some e) :
    markRows events hookCommand rows name = [(otherFields e.row, e.entry.inner)] := by
  unfold markRows
  rw [h]

theorem markRows_markRows (rows : String → List (Members × Json)) :
    markRows events hookCommand (markRows events hookCommand rows) =
      markRows events hookCommand rows := by
  funext name
  unfold markRows
  cases lastListing events name hookCommand <;> rfl

/-- An event whose rows are all of the command and that has no last listing is
    not listed. -/
theorem listed_eq_nil (hcommand : ∀ e ∈ events, e.entry.command = hookCommand) {name : String}
    (h : lastListing events name hookCommand = none) : listed events name = [] := by
  by_contra hne
  obtain ⟨e, he, hname⟩ := listed_ne_nil.mp hne
  rw [lastListing, List.find?_eq_none] at h
  exact h e (List.mem_reverse.mpr he) (by simp [hname, hcommand e he])

theorem injectSpecttyHooks_owned (hcommand : ∀ e ∈ events, e.entry.command = hookCommand)
    (h : hookRowsInjectable J events content = true) :
    ∃ text, injectSpecttyHooks J (content.getD "{}") events = .ok text ∧
      ownedRows J hookCommand (some text) =
        markRows events hookCommand (ownedRows J hookCommand content) ∧
      (rootOf J (some text)).isSome = true ∧ hookRowsInjectable J events (some text) = true := by
  obtain ⟨root, htext, hinjectable, hcontent⟩ := exists_root_of_any h
  obtain ⟨root', hinject⟩ := injectHooks_isOk.mpr hinjectable
  have hvalue := isValue_injectHooks (SerdeJson.isValue_of_toValue htext) hinject
  have hroot' := rootOf_serializePretty (J := J) hvalue
  refine ⟨_, injectSpecttyHooks_eq_ok.mpr ⟨root, root', htext, hinject, rfl⟩, ?_, ?_, ?_⟩
  · funext name
    rw [ownedRows_of_rootOf hroot', markRows]
    cases hlast : lastListing events name hookCommand with
    | some e => exact (injectHooks_spec hinject).owned name hookCommand e hlast
    | none =>
        rw [eventArray_injectHooks hinject, if_pos (listed_eq_nil hcommand hlast), ← hcontent]
        simp only [ownedRows]
        cases rootOf J content <;> rfl
  · rw [hroot', Option.isSome_some]
  · rw [hookRowsInjectable, Option.getD_some, hroot', Option.any_some]
    exact hooksInjectable_injectHooks hinject

theorem injectSpecttyHooks_refused (h : hookRowsInjectable J events content = false) :
    ∃ e, injectSpecttyHooks J (content.getD "{}") events = .error e := by
  cases hinject : injectSpecttyHooks J (content.getD "{}") events with
  | error e => exact ⟨e, rfl⟩
  | ok text =>
      obtain ⟨root, root', htext, hroot', -⟩ := injectSpecttyHooks_eq_ok.mp hinject
      have hinjectable := injectHooks_isOk.mp ⟨root', hroot'⟩
      rw [hookRowsInjectable, rootOf_eq_some.mpr htext, Option.any_some, hinjectable] at h
      cases h

theorem retractSpecttyHooks_owned (h : (rootOf J (some text)).isSome = true) :
    ∃ text', retractSpecttyHooks J text hookCommand = .ok text' ∧
      (ownedRows J hookCommand (some text') = fun _ => []) ∧
      (rootOf J (some text')).isSome = true := by
  obtain ⟨root, hroot⟩ := Option.isSome_iff_exists.mp h
  have hvalue : Json.IsValue (.obj (retractHooks hookCommand root)) :=
    isValue_retractHooks (isValue_of_rootOf hroot)
  have hretracted := rootOf_serializePretty (J := J) hvalue
  refine ⟨_, retractSpecttyHooks_eq_ok.mpr ⟨root, rootOf_eq_some.mp hroot, rfl⟩, ?_, ?_⟩
  · funext name
    rw [ownedRows_of_rootOf hretracted, List.filter_eq_nil_iff]
    intro p hp howned
    exact not_owned_retractHooks name p hp (of_decide_eq_true howned)
  · rw [hretracted, Option.isSome_some]

/-- The rows with the hook command are owned. -/
def ClaudeSettingsProvisioner.ownership (J : ConfigJson) (self : ClaudeSettingsProvisioner)
    (hcommand : ∀ e ∈ self.events, e.entry.command = self.hookCommand) : Ownership where
  pathFor := self.pathFor
  injectEdit := fun current => injectSpecttyHooks J current self.events
  retractEdit := fun current => retractSpecttyHooks J current self.hookCommand
  View := String → List (Members × Json)
  owned := ownedRows J self.hookCommand
  mark := markRows self.events self.hookCommand
  clean := fun _ => []
  injectable := hookRowsInjectable J self.events
  retractable := fun text => (rootOf J (some text)).isSome
  owned_none := rfl
  mark_mark := markRows_markRows
  inject_ok := fun _ h => injectSpecttyHooks_owned hcommand h
  inject_error := fun _ h => injectSpecttyHooks_refused h
  retract_ok := fun _ h => retractSpecttyHooks_owned h

-- ============================================================================
-- What a port does to what is owned
-- ============================================================================

variable {O : Ownership} {files' : Files}

/-- The file of a scope can be retracted. -/
def Ownership.Retractable (O : Ownership) (scope : ProvisioningScope) (files : Files) : Prop :=
  ∀ text, files (O.pathFor scope) = some text → O.retractable text = true

/-- An injection succeeds exactly if no operation fails and the file of the
    scope can be injected. -/
def Ownership.Injectable (O : Ownership) (f : Files.Faults) (scope : ProvisioningScope)
    (files : Files) : Prop :=
  f = Files.noFaults ∧ O.injectable (files (O.pathFor scope)) = true

/-- The file of a scope was edited, and what is owned in it changed by `v`. -/
structure Ownership.Edits (O : Ownership) (v : O.View → O.View) (scope : ProvisioningScope)
    (files files' : Files) : Prop where
  owned : O.owned (files' (O.pathFor scope)) = v (O.owned (files (O.pathFor scope)))
  retractable : O.Retractable scope files'
  frame : ∀ path, path ≠ O.pathFor scope → files' path = files path

theorem Ownership.interp_inject (h : O.Injectable f scope files) :
    ∃ files', Prog.interp (Files.handler f) (O.port.inject scope) files = (.ok { scope }, files') ∧
      O.Edits O.mark scope files files' ∧ O.injectable (files' (O.pathFor scope)) = true := by
  obtain ⟨rfl, h⟩ := h
  obtain ⟨text, hedit, howned, hretractable, hagain⟩ := O.inject_ok _ h
  refine ⟨_, interp_injectAt_ok scope hedit, ⟨?_, fun text' htext' => ?_, fun path hpath => ?_⟩, ?_⟩
  · rw [Kv.write_same, howned]
  · rw [Kv.write_same] at htext'
    rw [← Option.some.inj htext']
    exact hretractable
  · exact Kv.write_other hpath
  · rw [Kv.write_same]
    exact hagain

theorem Ownership.interp_inject_error (h : ¬ O.Injectable f scope files) :
    ∃ e, Prog.interp (Files.handler f) (O.port.inject scope) files = (.error e, files) :=
  interp_injectAt_error scope fun hf =>
    O.inject_error _ (Bool.eq_false_iff.mpr fun hinjectable => h ⟨hf, hinjectable⟩)

/-- A retraction with no failure. -/
theorem Ownership.interp_retract (h : O.Retractable scope files) :
    ∃ files', Prog.interp (Files.handler Files.noFaults) (O.port.retract { scope }) files =
        (.ok (), files') ∧ O.Edits (fun _ => O.clean) scope files files' := by
  cases hcontent : files (O.pathFor scope) with
  | none =>
      refine ⟨files, interp_retractAt_absent hcontent, ?_, h, fun _ _ => rfl⟩
      rw [hcontent, O.owned_none]
  | some text =>
      obtain ⟨text', hedit, hclean, hretractable⟩ := O.retract_ok text (h text hcontent)
      refine ⟨_, interp_retractAt_ok hcontent hedit, ?_, fun text htext => ?_, fun path hpath => ?_⟩
      · rw [Kv.write_same, hclean]
      · rw [Kv.write_same] at htext
        rw [← Option.some.inj htext]
        exact hretractable
      · exact Kv.write_other hpath

end Spectty.Provision
