/-
  Spectty.Adapters.Hook

  The hook state file and its consume-once reader.  `parseStateFile` is the
  derived reader of the file's JSON; `StateFileReader.poll` answers an event
  when the file belongs to the session and its counter is new.
-/

import Spectty.Lib.Serde
import Spectty.Core.AgentStatus

namespace Spectty.Adapters

open Spectty.Core
open Spectty.Lib (Json SerdeJson)
open Spectty.Lib.Serde

/-- Lifecycle events the hook sidecar reports. -/
inductive HookEvent where
  | submit
  | stop
  | permission
  | sessionEnd
  | stopFailure
deriving DecidableEq, Repr

/-- The names of the events in the state file. -/
def HookEvent.variants : List (String × HookEvent) :=
  [("Submit", .submit), ("Stop", .stop), ("Permission", .permission),
    ("SessionEnd", .sessionEnd), ("StopFailure", .stopFailure)]

def HookEvent.decode : Decode HookEvent := unitEnum variants

/-- The state file's content. -/
structure HookState where
  event : HookEvent
  ts : Nat
  sessionId : String
deriving DecidableEq, Repr

def HookState.decode : Decode HookState := fun j => do
  let fields ← readFields ["event", "ts", "session_id"] j
  let event ← required fields "event" HookEvent.decode
  let ts ← required fields "ts" u64
  let sessionId ← required fields "session_id" string
  return { event, ts, sessionId }

/-- Parse a state file. -/
def parseStateFile (J : SerdeJson) (json : String) : Option HookState :=
  (J.fromStr json).bind HookState.decode

/-- What an event drives in the transition policy. -/
def eventToObserved : HookEvent → Observed
  | .submit => .working
  | .stop => .ready
  | .permission => .needsInput
  | .sessionEnd => .finished
  | .stopFailure => .failed

/-- The per-session reader. -/
structure StateFileReader where
  path : String
  sessionId : String
  lastTs : Option Nat
deriving DecidableEq, Repr

namespace StateFileReader

def new (runtimeDir sessionId : String) : StateFileReader where
  path := runtimeDir ++ "/spectty-" ++ sessionId ++ ".state"
  sessionId := sessionId
  lastTs := none

/-- One poll.  `contents` is what reading `path` gave: `none` for an absent or
    unreadable file. -/
def poll (J : SerdeJson) (self : StateFileReader) (contents : Option String) :
    Option HookEvent × StateFileReader :=
  match contents.bind (parseStateFile J) with
  | none => (none, self)
  | some state =>
      if state.sessionId ≠ self.sessionId then (none, self)
      else
        let threshold := self.lastTs.getD 0
        if state.ts > threshold then (some state.event, { self with lastTs := some state.ts })
        else (none, self)

end StateFileReader

end Spectty.Adapters
