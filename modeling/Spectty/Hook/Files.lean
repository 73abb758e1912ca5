/-
  Spectty.Hook.Files

  The sidecar's two closures over file operations.  The temporary file has
  the process id in its name, so no other invocation writes it: a write replaces the
  state file by the whole text or leaves it as it is.
-/

import Spectty.Hook.Handler
import Spectty.Provision.FileIo

namespace Spectty.Hook

open Spectty.Adapters
open Spectty.Lib
open Spectty.Provision

-- ============================================================================
-- The paths
-- ============================================================================

/-- A session's state file. -/
def statePath (runtimeDir sessionId : String) : String :=
  runtimeDir ++ "/spectty-" ++ sessionId ++ ".state"

/-- The temporary file of process `pid`. -/
def stateTmp (runtimeDir sessionId : String) (pid : Nat) : String :=
  runtimeDir ++ "/spectty-" ++ sessionId ++ "." ++ toString pid ++ ".state.tmp"

/-- The reader polls the file that the sidecar writes. -/
theorem path_new (runtimeDir sessionId : String) :
    (StateFileReader.new runtimeDir sessionId).path = statePath runtimeDir sessionId := rfl

-- ============================================================================
-- The closures
-- ============================================================================

section

variable (J : SerdeJson) (path tmp : String)

/-- Read the counter of the state file. -/
def readPriorFile : Prog FsSig (Except String (Option Nat)) :=
  .op (.readToString path) fun r => .ret (.ok (readPriorTs J r.toOption))

/-- Write the temporary file and rename it over the state file. -/
def writeAtomicFile (json : String) : Prog FsSig (Except String Unit) :=
  .op (.write tmp json) fun r =>
    match r with
    | .error e => .ret (.error e.message)
    | .ok () => .op (.rename tmp path) fun r => .ret (r.mapError (·.message))

/-- Read the state file for a poll. -/
def readState : Prog FsSig (Option String) :=
  .op (.readToString path) fun r => .ret r.toOption

end

variable {J : SerdeJson} {path tmp json : String} {fs fs' : Disk} {es : List (Event FsSig)}

/-- The state file on disk has the content of `w`. -/
def Shows (path : String) (fs : Disk) (w : HookWorld) : Prop :=
  ∀ s, w.file = some s ↔ fs.content path = some (utf8 s)

theorem Shows.congr {w : HookWorld} (h : Shows path fs w)
    (hcontent : fs'.content path = fs.content path) : Shows path fs' w := by
  intro s
  rw [hcontent]
  exact h s

/-- A read for a poll gives the content, or nothing. -/
theorem exec_readState {w : HookWorld} {contents : Option String} (h : Shows path fs w)
    (hx : Prog.Exec Disk.step fs (readState path) es fs' contents) :
    fs' = fs ∧ (contents = w.file ∨ contents = none) := by
  cases hx with
  | @op _ _ _ _ _ reply _ _ hstep hret =>
      obtain ⟨hok, -, rfl⟩ := hstep
      cases hret
      refine ⟨rfl, ?_⟩
      cases reply with
      | ok text => exact Or.inl ((h text).mpr (hok text rfl)).symm
      | error e => exact Or.inr rfl

/-- An invocation's read gives the counter in the file, or none. -/
theorem exec_readPriorFile {w : HookWorld} {r : Except String (Option Nat)} (h : Shows path fs w)
    (hx : Prog.Exec Disk.step fs (readPriorFile J path) es fs' r) :
    fs' = fs ∧ step J w ⟨.readPrior, r⟩ w := by
  cases hx with
  | @op _ _ _ _ _ reply _ _ hstep hret =>
      obtain ⟨hok, -, rfl⟩ := hstep
      cases hret
      refine ⟨rfl, ?_, rfl⟩
      cases reply with
      | ok text =>
          rw [(h text).mpr (hok text rfl)]
          exact Or.inl rfl
      | error e => exact Or.inr (Or.inl rfl)

/-- An invocation's write: it replaces the state file or fails, and touches
    only it and the temporary file. -/
theorem exec_writeAtomicFile {w : HookWorld} {r : Except String Unit} (h : Shows path fs w)
    (htmp : path ≠ tmp) (hx : Prog.Exec Disk.step fs (writeAtomicFile path tmp json) es fs' r) :
    (∃ w', step J w ⟨.writeAtomic json, r⟩ w' ∧ Shows path fs' w') ∧
      ∀ q, q ≠ path → q ≠ tmp → fs'.content q = fs.content q := by
  cases hx with
  | op hwrite hrest =>
      have hothers := fun q hq => (step_write_other (x := q) hwrite hq).2
      have hkept := h.congr (hothers path htmp)
      rcases hwrite with ⟨rfl, rfl⟩ | ⟨⟨e, rfl⟩, -⟩
      case inr =>
        cases hrest
        exact ⟨⟨w, Or.inr ⟨⟨_, rfl⟩, rfl⟩, hkept⟩, fun q _ hq => hothers q hq⟩
      cases hrest with
      | op hrename hret =>
          cases hret
          rcases hrename with ⟨rfl, -, rfl⟩ | ⟨⟨e, rfl⟩, rfl⟩
          · have hwritten : FileSystem.content _ tmp = _ := fs.content_create_write (utf8 json)
            refine ⟨⟨{ w with file := some json }, Or.inl ⟨rfl, rfl⟩, fun s => ?_⟩,
              fun q hq hq' => ?_⟩
            · rw [FileSystem.content_rename_target (by simp [hwritten]), hwritten,
                Option.some.injEq, Option.some.injEq]
              exact ⟨fun heq => by rw [heq], utf8_inj⟩
            · rw [FileSystem.content_rename_other hq' hq]
              exact hothers q hq'
          · exact ⟨⟨w, Or.inr ⟨⟨_, rfl⟩, rfl⟩, hkept⟩, fun q _ hq => hothers q hq⟩

end Spectty.Hook
