/-
  Spectty.Provision.Provisioner

  The two provisioners over a file seam.  Both inject by reading the file of a
  scope, editing its text and writing it back, and retract the same way when
  the file is there: `injectAt` and `retractAt` with the provisioner's path
  and editor.

  `Files.step` is what the seam may do to the configuration files: a read
  answers the content or fails, a write replaces it or fails and leaves it.
  `Spectty.Provision.FileIo` refines the seam to file operations.
-/

import Spectty.Provision.McpEditor
import Spectty.Lib.Kv
import Spectty.Lib.Prog

namespace Spectty.Provision

open Spectty.Core
open Spectty.Lib

-- ============================================================================
-- The file seam
-- ============================================================================

/-- The operations of the seam. -/
inductive ConfigOp where
  | read (path : String)
  | writeAtomic (path contents : String)
deriving DecidableEq

/-- The replies; an error is its message. -/
abbrev ConfigOp.Reply : ConfigOp → Type
  | .read _ => Except String (Option String)
  | .writeAtomic _ _ => Except String Unit

/-- The signature of the seam. -/
abbrev ConfigSig : Sig where
  Op := ConfigOp
  Reply := ConfigOp.Reply

namespace ConfigFile

/-- The content of a file, if it is there. -/
abbrev read (path : String) : Prog ConfigSig (Except String (Option String)) :=
  .op (.read path) .ret

/-- Replace the content of a file. -/
abbrev writeAtomic (path contents : String) : Prog ConfigSig (Except String Unit) :=
  .op (.writeAtomic path contents) .ret

end ConfigFile

/-- The contents of the files. -/
abbrev Files := Kv.Store String String

namespace Files

/-- What an operation may do. -/
def step : Prog.Semantics ConfigSig Files := fun files e files' =>
  match e with
  | ⟨.read path, r⟩ => Kv.Get files path r ∧ files' = files
  | ⟨.writeAtomic path contents, r⟩ =>
      r = .ok () ∧ files' = Kv.write files path contents ∨ (∃ msg, r = .error msg) ∧ files' = files

/-- The operations that fail, with their messages. -/
structure Faults where
  read : Option String
  write : Option String
deriving DecidableEq

/-- No operation fails. -/
def noFaults : Faults where
  read := none
  write := none

/-- Run each operation with the given failures. -/
def handler (f : Faults) : Prog.Handler ConfigSig Files := fun o files =>
  match o with
  | .read path =>
      match f.read with
      | some msg => (.error msg, files)
      | none => (.ok (files path), files)
  | .writeAtomic path contents =>
      match f.write with
      | some msg => (.error msg, files)
      | none => (.ok (), Kv.write files path contents)

/-- The seam of a machine on which the path `path` names the file `fileAt path`: one
    file may be named in several ways. -/
def resolved (fileAt : String → String) (f : Faults) : Prog.Handler ConfigSig Files :=
  fun o files =>
    match o with
    | .read path => handler f (.read (fileAt path)) files
    | .writeAtomic path contents => handler f (.writeAtomic (fileAt path) contents) files

/-- The deterministic runs are among the general ones. -/
theorem handler_step (f : Faults) (o : ConfigOp) (files : Files) :
    step files ⟨o, (handler f o files).1⟩ (handler f o files).2 := by
  cases o with
  | read path =>
      cases hf : f.read with
      | none =>
          simp only [handler, hf, step]
          exact ⟨Kv.get_latest, trivial⟩
      | some msg =>
          simp only [handler, hf, step]
          exact ⟨Kv.get_error msg, trivial⟩
  | writeAtomic path contents =>
      cases hf : f.write with
      | none =>
          left
          simp only [handler, hf, true_and]
      | some msg =>
          right
          simp only [handler, hf, and_true]
          exact ⟨msg, rfl⟩

end Files

-- ============================================================================
-- Read, edit, write
-- ============================================================================

/-- An editor of the text of a configuration. -/
abbrev Edit := String → Except ProvisioningError String

/-- Edit the file at `path`; an absent one starts as an empty object. -/
def injectAt (path : String) (edit : Edit) (scope : ProvisioningScope) :
    Prog ConfigSig (Except ProvisioningError ProvisioningHandle) := do
  match ← ConfigFile.read path with
  | .error e => return .error (.io e)
  | .ok current =>
      match edit (current.getD "{}") with
      | .error e => return .error e
      | .ok next =>
          match ← ConfigFile.writeAtomic path next with
          | .error e => return .error (.io e)
          | .ok () => return .ok { scope }

/-- Edit the file at `path`, unless it is absent. -/
def retractAt (path : String) (edit : Edit) : Prog ConfigSig (Except ProvisioningError Unit) := do
  match ← ConfigFile.read path with
  | .error e => return .error (.io e)
  | .ok none => return .ok ()
  | .ok (some current) =>
      match edit current with
      | .error e => return .error e
      | .ok next =>
          match ← ConfigFile.writeAtomic path next with
          | .error e => return .error (.io e)
          | .ok () => return .ok ()

-- ============================================================================
-- The provisioners
-- ============================================================================

/-- The managed server's name. -/
def managedServerName : String := "spectty"

/-- The provisioner of the managed server. -/
structure ClaudeJsonProvisioner where
  homeClaudeJson : String
  mcpEntry : McpServerEntry

namespace ClaudeJsonProvisioner

/-- The file of a scope. -/
def pathFor (self : ClaudeJsonProvisioner) : ProvisioningScope → String
  | .global => self.homeClaudeJson
  | .project root => root ++ "/.mcp.json"

def inject (J : ConfigJson) (self : ClaudeJsonProvisioner) (scope : ProvisioningScope) :
    Prog ConfigSig (Except ProvisioningError ProvisioningHandle) :=
  injectAt (self.pathFor scope)
    (fun current => injectSpecttyMcp J current managedServerName self.mcpEntry) scope

def retract (J : ConfigJson) (self : ClaudeJsonProvisioner) (handle : ProvisioningHandle) :
    Prog ConfigSig (Except ProvisioningError Unit) :=
  retractAt (self.pathFor handle.scope) fun current => retractSpecttyMcp J current managedServerName

end ClaudeJsonProvisioner

/-- The settings file of a scope. -/
def settingsPathForScope (scope : ProvisioningScope) (home : String) : String :=
  match scope with
  | .global => home ++ "/.claude/settings.json"
  | .project root => root ++ "/.claude/settings.json"

/-- The provisioner of the hook rows. -/
structure ClaudeSettingsProvisioner where
  homeSettingsJson : String
  hookCommand : String
  events : List HookEvent

namespace ClaudeSettingsProvisioner

/-- The file of a scope. -/
def pathFor (self : ClaudeSettingsProvisioner) (scope : ProvisioningScope) : String :=
  settingsPathForScope scope self.homeSettingsJson

def inject (J : ConfigJson) (self : ClaudeSettingsProvisioner) (scope : ProvisioningScope) :
    Prog ConfigSig (Except ProvisioningError ProvisioningHandle) :=
  injectAt (self.pathFor scope) (fun current => injectSpecttyHooks J current self.events) scope

def retract (J : ConfigJson) (self : ClaudeSettingsProvisioner) (handle : ProvisioningHandle) :
    Prog ConfigSig (Except ProvisioningError Unit) :=
  retractAt (self.pathFor handle.scope)
    fun current => retractSpecttyHooks J current self.hookCommand

end ClaudeSettingsProvisioner

-- ============================================================================
-- What an operation does, run alone
-- ============================================================================

variable {path : String} {edit : Edit} {scope : ProvisioningScope} {files files' : Files}
  {es : List (Event ConfigSig)}

theorem injectAt_eq (path : String) (edit : Edit) (scope : ProvisioningScope) :
    injectAt path edit scope = .op (.read path) fun r =>
      match r with
      | .error e => .ret (.error (.io e))
      | .ok current =>
          match edit (current.getD "{}") with
          | .error e => .ret (.error e)
          | .ok next => .op (.writeAtomic path next) fun r =>
              match r with
              | .error e => .ret (.error (.io e))
              | .ok () => .ret (.ok { scope }) := by
  rw [injectAt]
  simp only [Prog.op_bind, Prog.ret_bind, Prog.pure_eq]
  congr 1
  funext r
  cases r with
  | error msg => rfl
  | ok current =>
      simp only
      cases edit (current.getD "{}") with
      | error e => rfl
      | ok next =>
          simp only
          congr 1
          funext r
          cases r <;> rfl

theorem retractAt_eq (path : String) (edit : Edit) :
    retractAt path edit = .op (.read path) fun r =>
      match r with
      | .error e => .ret (.error (.io e))
      | .ok none => .ret (.ok ())
      | .ok (some current) =>
          match edit current with
          | .error e => .ret (.error e)
          | .ok next => .op (.writeAtomic path next) fun r =>
              match r with
              | .error e => .ret (.error (.io e))
              | .ok () => .ret (.ok ()) := by
  rw [retractAt]
  simp only [Prog.op_bind, Prog.ret_bind, Prog.pure_eq]
  congr 1
  funext r
  rcases r with msg | (_ | current)
  · rfl
  · rfl
  · simp only
    cases edit current with
    | error e => rfl
    | ok next =>
        simp only
        congr 1
        funext r
        cases r <;> rfl

/-- An injection that fails leaves the files as they are; one that fails in
    the editor does not try to write. -/
theorem exec_injectAt_error {e : ProvisioningError}
    (hx : Prog.Exec Files.step files (injectAt path edit scope) es files' (.error e)) :
    files' = files ∧
      ((∃ msg, e = .parse msg) → ∀ ev ∈ es, ∀ p contents, ev.op ≠ .writeAtomic p contents) := by
  rw [injectAt_eq] at hx
  cases hx with
  | @op _ _ _ _ _ r _ _ hread hrest =>
      obtain ⟨-, rfl⟩ := hread
      cases r with
      | error msg =>
          cases hrest
          refine ⟨rfl, ?_⟩
          rintro ⟨msg', hmsg⟩
          cases hmsg
      | ok current =>
          simp only at hrest
          cases hedit : edit (current.getD "{}") with
          | error e' =>
              rw [hedit] at hrest
              cases hrest
              refine ⟨rfl, fun _ ev hev p contents => ?_⟩
              rw [List.mem_singleton] at hev
              rw [hev]
              exact ConfigOp.noConfusion
          | ok next =>
              rw [hedit] at hrest
              cases hrest with
              | @op _ _ _ _ _ r _ _ hwrite hret =>
                  rcases hwrite with ⟨rfl, -⟩ | ⟨⟨msg, rfl⟩, rfl⟩
                  · cases hret
                  · cases hret
                    refine ⟨rfl, ?_⟩
                    rintro ⟨msg', hmsg⟩
                    cases hmsg

/-- The injection of the managed server: when it succeeds, what it does to
    the document, and that a provisioner whose injection fails leaves the
    files as they are. -/
theorem inject_mcp_frame (J : ConfigJson) (text serverName : String) (entry : McpServerEntry)
    (self : ClaudeJsonProvisioner) (scope : ProvisioningScope) :
    ((∃ text', injectSpecttyMcp J text serverName entry = .ok text') ↔
      ∃ root, J.toValue text = some (.obj root) ∧ serversObject root = true) ∧
    (∀ root text', J.toValue text = some (.obj root) →
      injectSpecttyMcp J text serverName entry = .ok text' →
      InjectsMcp J serverName entry root text') ∧
    ∀ files es files' e, Prog.Exec Files.step files (self.inject J scope) es files' (.error e) →
      files' = files ∧
        ((∃ msg, e = .parse msg) → ∀ ev ∈ es, ∀ p contents, ev.op ≠ .writeAtomic p contents) := by
  refine ⟨⟨?_, ?_⟩, fun root text' => injectSpecttyMcp_spec, fun files es files' e hx => ?_⟩
  · rintro ⟨text', h⟩
    obtain ⟨root, root', htext, hinject, -⟩ := injectSpecttyMcp_eq_ok.mp h
    exact ⟨root, htext, (injectServer_eq_ok.mp hinject).1⟩
  · rintro ⟨root, htext, hobject⟩
    exact ⟨_, injectSpecttyMcp_eq_ok.mpr
      ⟨root, _, htext, injectServer_eq_ok.mpr ⟨hobject, rfl⟩, rfl⟩⟩
  · exact exec_injectAt_error hx

end Spectty.Provision
