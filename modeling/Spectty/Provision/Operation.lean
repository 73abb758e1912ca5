/-
  Spectty.Provision.Operation

  The calls of the two provisioners, as programs of one shape: read the file,
  edit what was read, write the result back.
-/

import Spectty.Provision.Provisioner

namespace Spectty.Provision

open Spectty.Core
open Spectty.Lib

/-- A call of one of the provisioners. -/
inductive Operation where
  | injectMcp (self : ClaudeJsonProvisioner) (scope : ProvisioningScope)
  | retractMcp (self : ClaudeJsonProvisioner) (handle : ProvisioningHandle)
  | injectHooks (self : ClaudeSettingsProvisioner) (scope : ProvisioningScope)
  | retractHooks (self : ClaudeSettingsProvisioner) (handle : ProvisioningHandle)

namespace Operation

/-- The call, with the handle of an injection left out. -/
def run (J : ConfigJson) : Operation → Prog ConfigSig (Except ProvisioningError Unit)
  | injectMcp self scope => do return (← self.inject J scope).map fun _ => ()
  | retractMcp self handle => self.retract J handle
  | injectHooks self scope => do return (← self.inject J scope).map fun _ => ()
  | retractHooks self handle => self.retract J handle

/-- The file the call edits. -/
def path : Operation → String
  | injectMcp self scope => self.pathFor scope
  | retractMcp self handle => self.pathFor handle.scope
  | injectHooks self scope => self.pathFor scope
  | retractHooks self handle => self.pathFor handle.scope

/-- What the call makes of the content of its file, `none` where it leaves
    the file alone. -/
def edit (J : ConfigJson) : Operation → Option String → Option (Except ProvisioningError String)
  | injectMcp self _, current =>
      some (injectSpecttyMcp J (current.getD "{}") managedServerName self.mcpEntry)
  | retractMcp _ _, current => current.map fun text => retractSpecttyMcp J text managedServerName
  | injectHooks self _, current => some (injectSpecttyHooks J (current.getD "{}") self.events)
  | retractHooks self _, current =>
      current.map fun text => retractSpecttyHooks J text self.hookCommand

end Operation

/-- Write what an edit gave, if it is to be written. -/
def writeEdited (path : String) :
    Option (Except ProvisioningError String) → Prog ConfigSig (Except ProvisioningError Unit)
  | none => .ret (.ok ())
  | some (.error e) => .ret (.error e)
  | some (.ok next) => .op (.writeAtomic path next) fun r => .ret (r.mapError .io)

/-- Read the file at `path`, edit the content and write it back. -/
def readEditWrite (path : String)
    (edit : Option String → Option (Except ProvisioningError String)) :
    Prog ConfigSig (Except ProvisioningError Unit) :=
  .op (.read path) fun r =>
    match r with
    | .error e => .ret (.error (.io e))
    | .ok current => writeEdited path (edit current)

/-- An injection edits also an absent file. -/
theorem injectAt_eq_readEditWrite (path : String) (edit : Edit) (scope : ProvisioningScope) :
    (do return (← injectAt path edit scope).map fun _ => ()) =
      readEditWrite path fun current => some (edit (current.getD "{}")) := by
  rw [injectAt_eq, readEditWrite, Prog.op_bind]
  congr 1
  funext r
  cases r with
  | error e => rfl
  | ok current =>
      simp only
      cases edit (current.getD "{}") with
      | error e => rfl
      | ok next =>
          simp only [Prog.op_bind, writeEdited]
          congr 1
          funext r
          cases r <;> rfl

/-- A retraction leaves an absent file alone. -/
theorem retractAt_eq_readEditWrite (path : String) (edit : Edit) :
    retractAt path edit = readEditWrite path fun current => current.map edit := by
  rw [retractAt_eq, readEditWrite]
  congr 1
  funext r
  rcases r with e | (_ | current)
  · rfl
  · rfl
  · simp only [Option.map_some]
    cases edit current with
    | error e => rfl
    | ok next =>
        simp only [writeEdited]
        congr 1
        funext r
        cases r <;> rfl

theorem Operation.run_eq (J : ConfigJson) (op : Operation) :
    op.run J = readEditWrite op.path (op.edit J) := by
  cases op with
  | injectMcp self scope => exact injectAt_eq_readEditWrite _ _ _
  | retractMcp self handle => exact retractAt_eq_readEditWrite _ _
  | injectHooks self scope => exact injectAt_eq_readEditWrite _ _ _
  | retractHooks self handle => exact retractAt_eq_readEditWrite _ _

/-- A call touches no other file. -/
theorem allOps_readEditWrite {path : String}
    {edit : Option String → Option (Except ProvisioningError String)} :
    (readEditWrite path edit).AllOps fun o : ConfigOp =>
      o = .read path ∨ ∃ contents, o = .writeAtomic path contents := by
  refine ⟨Or.inl rfl, fun r => ?_⟩
  cases r with
  | error e => trivial
  | ok current =>
      simp only
      rcases edit current with _ | (e | next)
      · trivial
      · trivial
      · exact ⟨Or.inr ⟨next, rfl⟩, fun _ => trivial⟩

-- ============================================================================
-- What a call does, run alone
-- ============================================================================

section

variable {path : String} {edit : Option String → Option (Except ProvisioningError String)}
  {files files' : Files}

/-- An edit is written, or the call is through. -/
theorem writeEdited_cases (path : String) (edited : Option (Except ProvisioningError String)) :
    (∃ next, edited = some (.ok next)) ∨ ∃ a, writeEdited path edited = .ret a := by
  rcases edited with _ | (e | next)
  · exact Or.inr ⟨_, rfl⟩
  · exact Or.inr ⟨_, rfl⟩
  · exact Or.inl ⟨next, rfl⟩

/-- A call whose read fails. -/
theorem exec_read_failed (msg : String) :
    Prog.Exec Files.step files (readEditWrite path edit) [⟨.read path, .error msg⟩] files
      (.error (.io msg)) :=
  .op ⟨Kv.get_error msg, rfl⟩ .ret

/-- A call that writes nothing. -/
theorem exec_unwritten {current : Option String} {a : Except ProvisioningError Unit}
    (hstep : Files.step files ⟨.read path, .ok current⟩ files')
    (hret : writeEdited path (edit current) = .ret a) :
    Prog.Exec Files.step files (readEditWrite path edit) [⟨.read path, .ok current⟩] files' a := by
  refine .op hstep ?_
  simp only [hret]
  exact .ret

/-- What a call that succeeds has done. -/
theorem exec_readEditWrite_ok {es : List (Event ConfigSig)}
    (hx : Prog.Exec Files.step files (readEditWrite path edit) es files' (.ok ())) :
    edit (files path) = none ∧ files' = files ∨
      ∃ next, edit (files path) = some (.ok next) ∧ files' = Kv.write files path next := by
  cases hx with
  | @op _ _ _ _ _ r _ _ hread hrest =>
      obtain ⟨hget, hsame⟩ := hread
      rw [hsame] at hrest
      cases r with
      | error msg => cases hrest
      | ok current =>
          obtain rfl := hget.ok
          simp only at hrest
          cases hedit : edit (files path) with
          | none =>
              rw [hedit] at hrest
              cases hrest
              exact Or.inl ⟨rfl, rfl⟩
          | some edited =>
              rw [hedit] at hrest
              cases edited with
              | error e => cases hrest
              | ok next =>
                  cases hrest with
                  | @op _ _ _ _ _ r _ _ hwrite hret =>
                      rcases hwrite with ⟨rfl, rfl⟩ | ⟨⟨msg, rfl⟩, -⟩
                      · cases hret
                        exact Or.inr ⟨next, rfl, rfl⟩
                      · cases hret

/-- A call that writes. -/
theorem exec_written {next : String} (hedit : edit (files path) = some (.ok next)) :
    Prog.Exec Files.step files (readEditWrite path edit)
      [⟨.read path, .ok (files path)⟩, ⟨.writeAtomic path next, .ok ()⟩]
      (Kv.write files path next) (.ok ()) := by
  refine .op ⟨Kv.get_latest, rfl⟩ ?_
  simp only [hedit]
  exact .op (Or.inl ⟨rfl, rfl⟩) .ret

end

-- ============================================================================
-- An injection
-- ============================================================================

/-- The call of a session that starts. -/
def injection : Operation :=
  .injectMcp
    { homeClaudeJson := ".claude.json", mcpEntry := { command := "", args := [], env := [] } }
    .global

/-- What an injection makes of an absent file. -/
theorem edit_injection : ∃ doc, injection.edit .compact none = some (.ok doc) :=
  ⟨_, congrArg some (injectSpecttyMcp_eq_ok.mpr
    ⟨[], _, rfl, injectServer_eq_ok.mpr ⟨rfl, rfl⟩, rfl⟩)⟩

/-- An injection keeps the members it reads. -/
theorem injection_lookup {current : Option String} {doc name : String} {root : Members}
    (h : injection.edit .compact current = some (.ok doc))
    (hread : ConfigJson.compact.toValue (current.getD "{}") = some (.obj root))
    (hname : name ≠ "mcpServers") :
    ∃ root', ConfigJson.compact.toValue doc = some (.obj root') ∧
      root'.lookup name = root.lookup name := by
  obtain ⟨root₀, root', htext, hinject, rfl⟩ := injectSpecttyMcp_eq_ok.mp (Option.some.inj h)
  rw [hread] at htext
  obtain rfl := Json.obj.inj (Option.some.inj htext)
  have hvalue := isValue_injectServer (SerdeJson.isValue_of_toValue hread) hinject
  refine ⟨root', toValue_serializePretty hvalue, ?_⟩
  obtain ⟨-, rfl⟩ := injectServer_eq_ok.mp hinject
  exact IndexMap.lookup_insert_other hname

end Spectty.Provision
