/-
  Spectty.Adapters.AgentRunner

  The detector port and its two built-in implementations.

  An `AgentRunner` is any detector; `claudeCodeRunner` scrapes patterns from
  the text window, `genericRunner` looks at activity and idle time only.
  Neither overrides the port's empty `quickActions`.
-/

import Spectty.Adapters.OutputSignal

namespace Spectty.Adapters

open Spectty.Core

/-- The status half of the agent port: what a detector observes of a signal,
    and the quick actions it offers for a status. -/
structure AgentRunner where
  detectStatus : OutputSignal → Option Observed
  quickActions : AgentStatus → List QuickAction := fun _ => []

-- ============================================================================
-- Claude Code
-- ============================================================================

/-- The pattern table, matched against the whitespace-stripped window. -/
structure ClaudePatterns where
  awaitingInput : List String
  ready : List String

/-- The built-in table. -/
def claudePatterns : ClaudePatterns where
  awaitingInput := ["Doyouwantto", "❯1.Yes", "(y/n)", "PressEntertocontinue"]
  ready := ["?forshortcuts"]

/-- The Unicode `White_Space` characters. -/
def isWhitespace (c : Char) : Bool :=
  let n := c.toNat
  (9 ≤ n ∧ n ≤ 13) ∨ n = 0x20 ∨ n = 0x85 ∨ n = 0xA0 ∨ n = 0x1680 ∨ (0x2000 ≤ n ∧ n ≤ 0x200A) ∨
    n = 0x2028 ∨ n = 0x2029 ∨ n = 0x202F ∨ n = 0x205F ∨ n = 0x3000

/-- The whitespace-stripped view of a window. -/
def compact (textWindow : String) : List Char :=
  textWindow.toList.filter fun c => !isWhitespace c

/-- `pattern` occurs in `text`. -/
def containsPattern (text : List Char) (pattern : String) : Bool :=
  text.tails.any fun t => pattern.toList.isPrefixOf t

namespace ClaudeCodeRunner

/-- A dialog the pattern table knows is on screen. -/
def showsDialog (textWindow : String) : Bool :=
  claudePatterns.awaitingInput.any (containsPattern (compact textWindow))

/-- Exit code, then dialog patterns, then ready patterns, then activity. -/
def detectStatus (signal : OutputSignal) : Option Observed :=
  match signal.exitCode with
  | some code => if code = 0 then some .finished else some .failed
  | none =>
      if showsDialog signal.textWindow then some .needsInput
      else if claudePatterns.ready.any (containsPattern (compact signal.textWindow)) then
        some .ready
      else if signal.isActive then some .working
      else some .ready

end ClaudeCodeRunner

/-- The Claude Code runner. -/
def claudeCodeRunner : AgentRunner where
  detectStatus := ClaudeCodeRunner.detectStatus

-- ============================================================================
-- Generic
-- ============================================================================

/-- Exit code, then activity, then the idle timeout. -/
def GenericRunner.detectStatus (idleTimeoutMs : Nat) (signal : OutputSignal) : Option Observed :=
  match signal.exitCode with
  | some code => if code = 0 then some .finished else some .failed
  | none =>
      if signal.isActive then some .working
      else if signal.idleMs ≥ idleTimeoutMs then some .finished
      else some .ready

/-- The generic runner with the given inactivity window. -/
def genericRunner (idleTimeoutMs : Nat) : AgentRunner where
  detectStatus := GenericRunner.detectStatus idleTimeoutMs

end Spectty.Adapters
