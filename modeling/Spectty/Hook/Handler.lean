/-
  Spectty.Hook.Handler

  The hook sidecar: one invocation reads the counter of the session's state
  file and replaces the file by the event with the next counter.

  `handleEvent` is a program over the two closures it is given; `runWith` adds
  the arguments and the environment.  `Hook.step` puts them over the state
  file, next to the polls of the session's reader; a file that is absent or cannot
  be read has no content.
-/

import Spectty.Adapters.Hook
import Spectty.Lib.Pool

namespace Spectty.Hook

open Spectty.Adapters
open Spectty.Lib (Json SerdeJson Sig Event Prog)
open Spectty.Lib.Serde

-- ============================================================================
-- The wire
-- ============================================================================

/-- Parse the `--event` argument. -/
def HookEvent.parse : String → Option HookEvent
  | "Submit" => some .submit
  | "Stop" => some .stop
  | "Permission" => some .permission
  | "SessionEnd" => some .sessionEnd
  | "StopFailure" => some .stopFailure
  | _ => none

/-- The name an event is serialized by. -/
def HookEvent.serialize : HookEvent → String
  | .submit => "Submit"
  | .stop => "Stop"
  | .permission => "Permission"
  | .sessionEnd => "SessionEnd"
  | .stopFailure => "StopFailure"

/-- The state file as the sidecar writes it. -/
structure StateFileWire where
  event : HookEvent
  ts : Nat
  sessionId : String
deriving DecidableEq, Repr

def StateFileWire.toJson (self : StateFileWire) : Json :=
  .obj [("event", .str (HookEvent.serialize self.event)), ("ts", .int self.ts),
    ("session_id", .str self.sessionId)]

/-- The text of a state file. -/
def stateFile (J : SerdeJson) (event : HookEvent) (ts : Nat) (sessionId : String) : String :=
  J.toString (StateFileWire.toJson { event, ts, sessionId })

/-- The counter in a state file: its `ts`, if the text is JSON and has one. -/
def readPriorTs (J : SerdeJson) (contents : Option String) : Option Nat :=
  (contents.bind J.toValue).bind fun v => (v.get "ts").bind u64

-- ============================================================================
-- An invocation
-- ============================================================================

/-- What an invocation and the reader do to the state file. -/
inductive HookOp where
  | readPrior
  | writeAtomic (json : String)
  | poll
deriving DecidableEq

/-- The reply of each operation.  A poll answers what it read, and the event
    it returned. -/
abbrev HookOp.Reply : HookOp → Type
  | .readPrior => Except String (Option Nat)
  | .writeAtomic _ => Except String Unit
  | .poll => Option String × Option HookEvent

/-- The signature of the accesses to a state file. -/
abbrev HookSig : Sig where
  Op := HookOp
  Reply := HookOp.Reply

/-- The errors of `handleEvent`. -/
inductive HandleError where
  | unknownEvent (name : String)
  | writeError (msg : String)
deriving DecidableEq, Repr

/-- The counter after `priorTs`; the addition of a release build wraps. -/
def nextTs (priorTs : Nat) : Nat := (priorTs + 1) % 2 ^ 64

/-- The prior counter, zero where there is none or the read failed. -/
def priorOf : Except String (Option Nat) → Nat
  | .ok (some ts) => ts
  | _ => 0

section

variable (J : SerdeJson)

/-- Write an event with the counter after `priorTs`. -/
def writeNext (event : HookEvent) (sessionId : String) (priorTs : Nat) :
    Prog HookSig (Except HandleError Unit) :=
  .op (.writeAtomic (stateFile J event (nextTs priorTs) sessionId)) fun r =>
    .ret (r.mapError .writeError)

/-- Read the prior counter and write the next state file. -/
def handleEvent (eventName sessionId : String) : Prog HookSig (Except HandleError Unit) :=
  match HookEvent.parse eventName with
  | none => .ret (.error (.unknownEvent eventName))
  | some event => .op .readPrior fun r => writeNext J event sessionId (priorOf r)

/-- The errors of `runWith`. -/
inductive RunError where
  | missingSessionId
  | missingRuntimeDir
  | missingEventArg
  | unknownEvent (name : String)
  | writeError (msg : String)
deriving DecidableEq, Repr

def RunError.message : RunError → String
  | .missingSessionId => "SPECTTY_SESSION_ID is not set"
  | .missingRuntimeDir => "spectty runtime dir cannot be resolved (HOME unset?)"
  | .missingEventArg => "missing required argument: --event <Name>"
  | .unknownEvent name => "unrecognized event name: " ++ name
  | .writeError msg => "failed to write state file: " ++ msg

def RunError.ofHandle : HandleError → RunError
  | .unknownEvent name => .unknownEvent name
  | .writeError msg => .writeError msg

/-- The value of the first `--event` of the arguments. -/
def parseEventArg : List String → Option String
  | flag :: value :: rest =>
      if flag = "--event" then some value else parseEventArg (value :: rest)
  | _ => none

/-- An invocation over its arguments and its environment.  `dirExists` says
    whether the runtime directory is there. -/
def runWith (args : List String) (sessionId runtimeDir : Option String)
    (dirExists : String → Bool) : Prog HookSig (Except RunError Unit) :=
  match parseEventArg args with
  | none => .ret (.error .missingEventArg)
  | some eventName =>
      match sessionId with
      | none => .ret (.error .missingSessionId)
      | some sessionId =>
          match runtimeDir with
          | none => .ret (.error .missingRuntimeDir)
          | some runtimeDir =>
              if dirExists runtimeDir then
                handleEvent J eventName sessionId >>= fun r => .ret (r.mapError .ofHandle)
              else .ret (.error .missingRuntimeDir)

end

-- ============================================================================
-- Over the state file
-- ============================================================================

/-- The state file's content, and the session's reader. -/
structure HookWorld where
  file : Option String
  reader : StateFileReader

/-- Before the first event of a session. -/
def HookWorld.start (runtimeDir sessionId : String) : HookWorld where
  file := none
  reader := .new runtimeDir sessionId

/-- What a read of the prior counter may answer: the counter in the file, or no counter
    where the read fails; the sidecar's own closure answers `.ok none` then. -/
def PriorReply (J : SerdeJson) (file : Option String) (r : Except String (Option Nat)) : Prop :=
  r = .ok (readPriorTs J file) ∨ r = .ok none ∨ ∃ msg, r = .error msg

/-- What an operation may do: a write replaces the file or fails, and each read
    may fail. -/
def step (J : SerdeJson) : Prog.Semantics HookSig HookWorld := fun w e w' =>
  match e with
  | ⟨.readPrior, r⟩ => PriorReply J w.file r ∧ w' = w
  | ⟨.writeAtomic json, r⟩ =>
      r = .ok () ∧ w' = { w with file := some json } ∨ (∃ msg, r = .error msg) ∧ w' = w
  | ⟨.poll, (contents, event)⟩ =>
      (contents = w.file ∨ contents = none) ∧
        event = (w.reader.poll J contents).1 ∧
        w' = { w with reader := (w.reader.poll J contents).2 }

/-- Every write and every read succeeds. -/
def handler (J : SerdeJson) : Prog.Handler HookSig HookWorld := fun o w =>
  match o with
  | .readPrior => (.ok (readPriorTs J w.file), w)
  | .writeAtomic json => (.ok (), { w with file := some json })
  | .poll =>
      ((w.file, (w.reader.poll J w.file).1), { w with reader := (w.reader.poll J w.file).2 })

/-- The deterministic runs are among the general ones. -/
theorem handler_step (J : SerdeJson) (o : HookOp) (w : HookWorld) :
    step J w ⟨o, (handler J o w).1⟩ (handler J o w).2 := by
  cases o with
  | readPrior => exact ⟨Or.inl rfl, rfl⟩
  | writeAtomic json => exact Or.inl ⟨rfl, rfl⟩
  | poll => exact ⟨Or.inl rfl, rfl, rfl⟩

theorem priorOf_ok (prior : Option Nat) : priorOf (.ok prior) = prior.getD 0 := by
  cases prior <;> rfl

/-- A read of the prior counter gives the counter in the file, or zero. -/
theorem PriorReply.priorOf {J : SerdeJson} {file : Option String}
    {r : Except String (Option Nat)} (h : PriorReply J file r) :
    priorOf r = (readPriorTs J file).getD 0 ∨ priorOf r = 0 := by
  obtain rfl | rfl | ⟨msg, rfl⟩ := h
  · exact Or.inl (priorOf_ok _)
  · exact Or.inr rfl
  · exact Or.inr rfl

-- ============================================================================
-- Reading what was written
-- ============================================================================

variable {J : SerdeJson} {event : HookEvent} {ts : Nat} {sessionId : String}

theorem nextTs_lt (priorTs : Nat) : nextTs priorTs < 2 ^ 64 := Nat.mod_lt _ (by decide)

theorem nextTs_of_lt {priorTs : Nat} (h : priorTs + 1 < 2 ^ 64) : nextTs priorTs = priorTs + 1 :=
  Nat.mod_eq_of_lt h

/-- The counter grows by one, or wraps to zero. -/
theorem nextTs_cases {priorTs : Nat} (h : priorTs < 2 ^ 64) :
    priorTs + 1 < 2 ^ 64 ∧ nextTs priorTs = priorTs + 1 ∨
      priorTs + 1 = 2 ^ 64 ∧ nextTs priorTs = 0 := by
  by_cases hlt : priorTs + 1 < 2 ^ 64
  · exact Or.inl ⟨hlt, nextTs_of_lt hlt⟩
  · have heq : priorTs + 1 = 2 ^ 64 := by omega
    exact Or.inr ⟨heq, by rw [nextTs, heq, Nat.mod_self]⟩

/-- The sidecar's names of the events are those the reader decodes. -/
theorem decode_serialize (event : HookEvent) :
    HookEvent.decode (.str (HookEvent.serialize event)) = some event := by
  cases event <;> rfl

/-- The sidecar accepts exactly the names it serializes. -/
theorem parse_eq_some {name : String} :
    HookEvent.parse name = some event ↔ name = HookEvent.serialize event := by
  constructor
  · intro h
    unfold HookEvent.parse at h
    split at h <;> cases h <;> rfl
  · rintro rfl
    cases event <;> rfl

/-- The reader parses what the sidecar writes. -/
theorem parseStateFile_stateFile (h : ts < 2 ^ 64) :
    parseStateFile J (stateFile J event ts sessionId) = some { event, ts, sessionId } := by
  have hfields : readFields ["event", "ts", "session_id"]
      (.obj [("event", .str (HookEvent.serialize event)), ("ts", .int ts),
        ("session_id", .str sessionId)]) = some _ :=
    readFields_obj (by simp) (by simp)
  rw [parseStateFile, stateFile, J.fromStr_toString, Option.bind_some, HookState.decode,
    StateFileWire.toJson, hfields]
  simp only [Option.bind_eq_bind, Option.bind_some]
  rw [required_of_lookup (j := .str (HookEvent.serialize event)) rfl, decode_serialize,
    Option.bind_some, required_of_lookup (j := .int ts) rfl, u64_natCast h, Option.bind_some,
    required_of_lookup (j := .str sessionId) rfl]
  rfl

/-- The next sidecar reads back the counter that was written. -/
theorem readPriorTs_stateFile (h : ts < 2 ^ 64) :
    readPriorTs J (some (stateFile J event ts sessionId)) = some ts := by
  have hget : (StateFileWire.mk event ts sessionId).toJson.toValue.get "ts" = some (.int ts) := by
    rw [StateFileWire.toJson, Json.get_toValue_obj]
    simp [List.lookup_cons, Json.toValue]
  rw [readPriorTs, Option.bind_some, stateFile, J.toValue_toString, Option.bind_some, hget,
    Option.bind_some, u64_natCast h]

/-- A poll of what the sidecar wrote answers its event where the counter is greater
    than the last one consumed. -/
theorem poll_stateFile {reader : StateFileReader} (hid : reader.sessionId = sessionId)
    (h : ts < 2 ^ 64) :
    reader.poll J (some (stateFile J event ts sessionId)) =
      if reader.lastTs.getD 0 < ts then (some event, { reader with lastTs := some ts })
      else (none, reader) := by
  rw [StateFileReader.poll, Option.bind_some, parseStateFile_stateFile h]
  simp [hid]

@[simp] theorem poll_none (reader : StateFileReader) : reader.poll J none = (none, reader) := rfl

/-- A poll keeps the reader's session. -/
theorem poll_sessionId (reader : StateFileReader) (contents : Option String) :
    (reader.poll J contents).2.sessionId = reader.sessionId := by
  unfold StateFileReader.poll
  split
  · rfl
  · split
    · rfl
    · dsimp only
      split <;> rfl

/-- A poll never forgets what was consumed. -/
theorem lastTs_le_poll (reader : StateFileReader) (contents : Option String) :
    reader.lastTs.getD 0 ≤ (reader.poll J contents).2.lastTs.getD 0 := by
  unfold StateFileReader.poll
  split
  · exact Nat.le_refl _
  · split
    · exact Nat.le_refl _
    · dsimp only
      split
      case isTrue hlt => exact Nat.le_of_lt hlt
      case isFalse => exact Nat.le_refl _

/-- A poll of the same content returns nothing. -/
theorem poll_again (reader : StateFileReader) (contents : Option String) :
    (reader.poll J contents).2.poll J contents = (none, (reader.poll J contents).2) := by
  cases hparse : contents.bind (parseStateFile J) with
  | none => simp [StateFileReader.poll, hparse]
  | some state =>
      by_cases hid : state.sessionId = reader.sessionId
      · by_cases hlt : state.ts > reader.lastTs.getD 0
        · simp [StateFileReader.poll, hparse, hid, hlt]
        · simp [StateFileReader.poll, hparse, hid, hlt]
      · simp [StateFileReader.poll, hparse, hid]

-- ============================================================================
-- Invocations alone
-- ============================================================================

/-- One invocation, run alone. -/
def invoke (J : SerdeJson) (sessionId : String) (w : HookWorld) (event : HookEvent) : HookWorld :=
  ((handleEvent J (HookEvent.serialize event) sessionId).interp (handler J) w).2

/-- Invocations one after the other. -/
def invokeAll (J : SerdeJson) (sessionId : String) (w : HookWorld) (events : List HookEvent) :
    HookWorld :=
  events.foldl (invoke J sessionId) w

/-- The state file and its reader after a poll. -/
def polled (J : SerdeJson) (w : HookWorld) : HookWorld := (handler J .poll w).2

/-- The counter in the state file. -/
def HookWorld.counter (J : SerdeJson) (w : HookWorld) : Nat := (readPriorTs J w.file).getD 0

theorem invoke_eq (w : HookWorld) :
    invoke J sessionId w event =
      { w with file := some (stateFile J event (nextTs (w.counter J)) sessionId) } := by
  rw [invoke, handleEvent, parse_eq_some.mpr rfl]
  show HookWorld.mk (some (stateFile J event (nextTs (priorOf (.ok (readPriorTs J w.file))))
    sessionId)) w.reader = _
  rw [HookWorld.counter]
  cases readPriorTs J w.file <;> rfl

/-- What some invocations leave is the last of them. -/
theorem invokeAll_concat (w : HookWorld) (events : List HookEvent) (event : HookEvent) :
    invokeAll J sessionId w (events ++ [event]) =
      { w with
        file := some (stateFile J event ((w.counter J + (events.length + 1)) % 2 ^ 64)
          sessionId) } := by
  induction events using List.reverseRecOn generalizing event with
  | nil => exact invoke_eq w
  | append_singleton events before ih =>
      have hlast : invokeAll J sessionId w (events ++ [before] ++ [event]) =
          invoke J sessionId (invokeAll J sessionId w (events ++ [before])) event :=
        List.foldl_concat ..
      rw [hlast, ih before, invoke_eq, HookWorld.counter,
        readPriorTs_stateFile (Nat.mod_lt _ (by decide)), Option.getD_some, nextTs, Nat.mod_add_mod,
        List.length_append, List.length_singleton, Nat.add_assoc]

-- ============================================================================
-- The state file of session `0`
-- ============================================================================

/-- An event in the state file, and a reader that has consumed `lastTs`. -/
def fileOf (J : SerdeJson) (event : HookEvent) (ts : Nat) (lastTs : Option Nat) : HookWorld where
  file := some (stateFile J event ts "0")
  reader := { StateFileReader.new "/run" "0" with lastTs }

section

variable {lastTs : Option Nat}

theorem poll_fileOf (hts : ts < 2 ^ 64) :
    (fileOf J event ts lastTs).reader.poll J (fileOf J event ts lastTs).file =
      if lastTs.getD 0 < ts then (some event, (fileOf J event ts (some ts)).reader)
      else (none, (fileOf J event ts lastTs).reader) :=
  poll_stateFile rfl hts

/-- A poll of a greater counter. -/
theorem step_poll_fresh (hts : ts < 2 ^ 64) (h : lastTs.getD 0 < ts) :
    step J (fileOf J event ts lastTs) ⟨.poll, ((fileOf J event ts lastTs).file, some event)⟩
      (fileOf J event ts (some ts)) := by
  refine ⟨Or.inl rfl, ?_, ?_⟩
  · rw [poll_fileOf hts, if_pos h]
  · rw [poll_fileOf hts, if_pos h]
    rfl

/-- A poll of a counter that is not greater. -/
theorem step_poll_stale (hts : ts < 2 ^ 64) (h : ¬ lastTs.getD 0 < ts) :
    step J (fileOf J event ts lastTs) ⟨.poll, ((fileOf J event ts lastTs).file, none)⟩
      (fileOf J event ts lastTs) := by
  refine ⟨Or.inl rfl, ?_, ?_⟩
  · rw [poll_fileOf hts, if_neg h]
  · rw [poll_fileOf hts, if_neg h]

theorem polled_fileOf (hts : ts < 2 ^ 64) (h : lastTs.getD 0 < ts) :
    polled J (fileOf J event ts lastTs) = fileOf J event ts (some ts) := by
  rw [polled, handler, poll_fileOf hts, if_pos h]
  rfl

theorem invoke_fileOf (hts : ts < 2 ^ 64) (event' : HookEvent) :
    invoke J "0" (fileOf J event ts lastTs) event' = fileOf J event' (nextTs ts) lastTs := by
  have hcounter : (fileOf J event ts lastTs).counter J = ts := by
    rw [HookWorld.counter, fileOf, readPriorTs_stateFile hts, Option.getD_some]
  rw [invoke_eq, hcounter]
  rfl

end

end Spectty.Hook
