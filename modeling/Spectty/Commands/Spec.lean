/-
  Spectty.Commands.Spec

  The application's side of the spec and approval documents: the topic keys,
  reading the contract (`getSpecImpl`), the approval request and its codec,
  surfacing a pending request as a status (`approvalStatusFromChange`), and
  resolving it (`resolveApprovalImpl`, `approvePrompt`).
-/

import Spectty.Core.Spec
import Spectty.SpecBus

namespace Spectty.Commands

open Spectty.Core
open Spectty.Adapters
open Spectty.Lib
open Spectty.Lib.Serde

-- ============================================================================
-- Topic keys
-- ============================================================================

/-- The key of a session's document of the given kind. -/
def topicKey (sessionId kind : String) : String := "spectty/" ++ sessionId ++ "/" ++ kind

/-- The key of a session's contract. -/
def specKey (sessionId : String) : String := topicKey sessionId "spec"

/-- The key of a session's approval document. -/
def approvalKey (sessionId : String) : String := topicKey sessionId "approval"

/-- The session segment of a canonical key of the given kind. -/
def sessionIdFromKey (kind : String) (key : String) : Option String :=
  match key.toList.splitOn '/' with
  | [root, sid, last] =>
      if root = "spectty".toList ∧ last = kind.toList ∧ sid ≠ [] then some (String.ofList sid)
      else none
  | _ => none

def sessionIdFromSpecKey : String → Option String := sessionIdFromKey "spec"

def sessionIdFromApprovalKey : String → Option String := sessionIdFromKey "approval"

theorem toList_topicKey (sessionId kind : String) :
    (topicKey sessionId kind).toList =
      "spectty".toList ++ '/' :: (sessionId.toList ++ '/' :: kind.toList) := by
  simp [topicKey]

/-- The last character of the keys of a kind, as the store keeps them. -/
def kindEnd (kind : String) : Char := (kind.toList.getLast?.getD '/').toLower

theorem getLast?_storeKey (sessionId kind : String) :
    (storeKey (topicKey sessionId kind)).toList.getLast? = some (kindEnd kind) := by
  rw [storeKey, String.toList_ofList, List.getLast?_map, toList_topicKey]
  simp [kindEnd, List.getLast?_append, List.getLast?_cons]

/-- Documents of kinds that end differently never share a key. -/
theorem storeKey_topicKey_ne {kind kind' : String} (h : kindEnd kind ≠ kindEnd kind')
    (sessionId sessionId' : String) :
    storeKey (topicKey sessionId kind) ≠ storeKey (topicKey sessionId' kind') := by
  intro he
  have hlast := getLast?_storeKey sessionId kind
  rw [he, getLast?_storeKey] at hlast
  exact h (Option.some.inj hlast).symm

/-- A session id is read back from its key, unless it has a slash. -/
theorem sessionIdFromKey_topicKey {sessionId kind : String} (hne : sessionId ≠ "")
    (hkind : '/' ∉ kind.toList) :
    sessionIdFromKey kind (topicKey sessionId kind) =
      if '/' ∈ sessionId.toList then none else some sessionId := by
  have hroot : '/' ∉ "spectty".toList := by decide
  unfold sessionIdFromKey
  rw [toList_topicKey, List.splitOn_append_cons_self_of_not_mem hroot,
    List.splitOn_append_cons_self, List.splitOn_eq_singleton hkind]
  split_ifs with hslash
  · -- the id's own slash makes a fourth segment
    obtain ⟨front, back, hid⟩ := List.append_of_mem hslash
    rw [hid, List.splitOn_append_cons_self]
    obtain ⟨x, xs, hfront⟩ := List.exists_cons_of_ne_nil (List.splitOn_ne_nil '/' front)
    obtain ⟨y, ys, hback⟩ := List.exists_cons_of_ne_nil (List.splitOn_ne_nil '/' back)
    rw [hfront, hback]
    rcases xs with _ | ⟨x', _ | ⟨x'', xs⟩⟩ <;> rcases ys with _ | ⟨y', ys⟩ <;> rfl
  · rw [List.splitOn_eq_singleton hslash]
    simp [hne]

-- ============================================================================
-- The contract
-- ============================================================================

/-- What a content reads as. -/
def specOf (J : SerdeJson) (content : String) : Option SpecContract :=
  (J.fromStr content).bind SpecContract.decode

/-- The `spec_updated` event payload. -/
structure SpecUpdated where
  sessionId : String
  spec : SpecContract
deriving DecidableEq, Repr

/-- The event of a change of a contract: none when the key is not canonical
    or the content does not read. -/
def specUpdatedFromChange (J : SerdeJson) (change : Change) : Option SpecUpdated := do
  let sessionId ← sessionIdFromSpecKey change.topicKey
  let spec ← specOf J change.content
  return { sessionId, spec }

/-- Read the current contract; a corrupt one is no contract. -/
def getSpecImpl (J : SerdeJson) (sessionId : String) :
    Prog Sys (Except PersistenceError (Option SpecContract)) := do
  match ← EngramAdapter.get (specKey sessionId) with
  | .error e => return .error e
  | .ok none => return .ok none
  | .ok (some content) => return .ok (specOf J content)

-- ============================================================================
-- Approval requests
-- ============================================================================

/-- A pending or resolved approval request. -/
structure ApprovalRequest where
  actionId : String
  description : String
  riskLevel : Option String
  options : List String
  resolution : Option ApprovalState
deriving DecidableEq, Repr

namespace ApprovalRequest

/-- The wire names of the fields. -/
def fieldNames : List String :=
  ["action_id", "description", "risk_level", "options", "resolution"]

def decode : Decode ApprovalRequest := fun j => do
  let fields ← readFields fieldNames j
  let actionId ← required fields "action_id" string
  let description ← defaulted fields "description" "" string
  let riskLevel ← defaulted fields "risk_level" none (option string)
  let options ← defaulted fields "options" [] (vec string)
  let resolution ← defaulted fields "resolution" none (option ApprovalState.decode)
  return { actionId, description, riskLevel, options, resolution }

/-- The members written; an absent risk level is left out. -/
def members (self : ApprovalRequest) : List (String × Json) :=
  [("action_id", .str self.actionId), ("description", .str self.description)] ++
    (self.riskLevel.map fun level => ("risk_level", .str level)).toList ++
    [("options", .arr (self.options.map .str)),
      ("resolution", (self.resolution.map ApprovalState.encode).getD .null)]

def encode (self : ApprovalRequest) : Json := .obj self.members

/-- Still awaiting the user. -/
def isPending (self : ApprovalRequest) : Bool := self.resolution.isNone

/-- The request with a decision written in. -/
def resolve (self : ApprovalRequest) (decision : ApprovalState) : ApprovalRequest :=
  { self with resolution := some decision }

@[simp] theorem resolve_actionId (self : ApprovalRequest) (decision : ApprovalState) :
    (self.resolve decision).actionId = self.actionId := rfl

@[simp] theorem isPending_resolve (self : ApprovalRequest) (decision : ApprovalState) :
    (self.resolve decision).isPending = false := rfl

end ApprovalRequest

/-- What a content reads as. -/
def approvalOf (J : SerdeJson) (content : String) : Option ApprovalRequest :=
  (J.fromStr content).bind ApprovalRequest.decode

/-- Read the current request; a corrupt one is no request. -/
def getApprovalImpl (J : SerdeJson) (sessionId : String) :
    Prog Sys (Except PersistenceError (Option ApprovalRequest)) := do
  match ← EngramAdapter.get (approvalKey sessionId) with
  | .error e => return .error e
  | .ok none => return .ok none
  | .ok (some content) => return .ok (approvalOf J content)

/-- An option as the quick action that surfaces it. -/
def quickActionFromOption (option : String) : QuickAction where
  id := option
  label := option
  bytes := []

/-- The status event of a change of an approval document: awaiting input when
    the request is pending. -/
def approvalStatusFromChange (J : SerdeJson) (change : Change) : Option StatusChanged := do
  let sessionId ← sessionIdFromApprovalKey change.topicKey
  let request ← approvalOf J change.content
  if request.isPending = false then none
  else
    return {
      sessionId := sessionId
      status := .awaitingInput
      quickActions := request.options.map quickActionFromOption }

theorem approvalStatusFromChange_status {J : SerdeJson} {change : Change} {event : StatusChanged}
    (h : approvalStatusFromChange J change = some event) : event.status = .awaitingInput := by
  simp only [approvalStatusFromChange, Option.bind_eq_bind, Option.bind_eq_some_iff] at h
  obtain ⟨sessionId, -, request, -, h⟩ := h
  split at h
  · cases h
  · obtain rfl := Option.some.inj h
    rfl

/-- The approval poll loop of a session, for `ticks` rounds. -/
def approvalPollLoop (J : SerdeJson) (contentHash : String → Nat) (id : SessionId) (ticks : Nat) :
    Prog Sys Unit :=
  runPollLoop contentHash
    (fun change =>
      match approvalStatusFromChange J change with
      | some event => Sys.emit event
      | none => return ())
    ticks (.new (approvalKey id)) .new

/-- The loop reads the session's approval document, and announces nothing but
    awaited input. -/
theorem allOps_approvalPollLoop {J : SerdeJson} {contentHash : String → Nat} {P : Op → Prop}
    {id : SessionId} (hread : P (.storeGet (approvalKey id)))
    (hemit : ∀ event : StatusChanged, event.status = .awaitingInput → P (.emit event))
    (ticks : Nat) : (approvalPollLoop J contentHash id ticks).AllOps P := by
  refine allOps_runPollLoop (fun change => ?_) hread ticks _
  cases h : approvalStatusFromChange J change with
  | none => trivial
  | some event => exact ⟨hemit event (approvalStatusFromChange_status h), fun _ => trivial⟩

/-- Resolve the pending request of a session, if it is the addressed one. -/
def resolveApprovalImpl (J : SerdeJson) (sessionId actionId : String) (decision : ApprovalState) :
    Prog Sys (Except PersistenceError Bool) := do
  match ← getApprovalImpl J sessionId with
  | .error e => return .error e
  | .ok none => return .ok false
  | .ok (some request) =>
      if request.actionId ≠ actionId ∨ request.isPending = false then return .ok false
      else
        let payload := J.toString (request.resolve decision).encode
        match ← EngramAdapter.upsert (approvalKey sessionId) payload with
        | .error e => return .error e
        | .ok () => return .ok true

/-- The pending request of the action, if a read gave one. -/
def addressed (J : SerdeJson) (actionId : String) (r : Except String (Option String)) :
    Option ApprovalRequest := do
  let content ← r.toOption.join
  let request ← approvalOf J content
  if request.actionId = actionId ∧ request.isPending = true then return request else none

/-- What an addressed request says of the read. -/
theorem addressed_eq_some {J : SerdeJson} {actionId : String} {r : Except String (Option String)}
    {request : ApprovalRequest} (h : addressed J actionId r = some request) :
    ∃ content, r = .ok (some content) ∧ approvalOf J content = some request ∧
      request.actionId = actionId ∧ request.isPending = true := by
  unfold addressed at h
  rcases r with msg | (_ | content)
  · simp [Except.toOption] at h
  · simp [Except.toOption] at h
  · cases hr : approvalOf J content with
    | none => simp [Except.toOption, hr] at h
    | some request' =>
        simp only [Except.toOption, Option.join_some, Option.bind_eq_bind, Option.bind_some,
          hr] at h
        split at h
        · obtain rfl := Option.some.inj h
          exact ⟨content, rfl, hr, by assumption⟩
        · cases h

/-- One read, then a write if it gave the addressed request. -/
theorem resolveApprovalImpl_eq (J : SerdeJson) (sessionId actionId : String)
    (decision : ApprovalState) :
    resolveApprovalImpl J sessionId actionId decision =
      .op (.storeGet (approvalKey sessionId)) fun r =>
        match addressed J actionId r with
        | some request =>
            .op (.storeUpsert (approvalKey sessionId)
              (J.toString (request.resolve decision).encode)) fun r =>
                .ret (Except.mapError mapHttpErr (r.map fun _ => true))
        | none => .ret (Except.mapError mapHttpErr (r.map fun _ => false)) := by
  unfold resolveApprovalImpl getApprovalImpl EngramAdapter.get EngramAdapter.upsert
  simp only [Prog.op_bind, Prog.ret_bind, Prog.pure_eq]
  congr 1
  funext r
  rcases r with msg | (_ | content)
  · rfl
  · rfl
  · simp only [Except.mapError, Except.map, addressed, Except.toOption, Option.join_some,
      Option.bind_eq_bind, Option.bind_some, Prog.ret_bind]
    cases approvalOf J content with
    | none => rfl
    | some request =>
        by_cases h : request.actionId = actionId ∧ request.isPending = true
        · have hskip : ¬ (request.actionId ≠ actionId ∨ request.isPending = false) := by
            simpa using h
          simp only [Option.bind_some, if_pos h, if_neg hskip]
          congr 1
          funext r
          cases r <;> rfl
        · have hskip : request.actionId ≠ actionId ∨ request.isPending = false := by
            by_contra hboth
            simp at hboth
            exact h hboth
          simp only [Option.bind_some, if_neg h, if_pos hskip]

/-- The decision the UI sends. -/
inductive ApprovalDecision where
  | approve
  | reject
  | adjust
deriving DecidableEq, Repr

/-- The state a decision resolves to. -/
def ApprovalDecision.toApprovalState : ApprovalDecision → ApprovalState
  | .approve => .approved
  | .reject => .rejected
  | .adjust => .adjusted

/-- The command: resolve the addressed request, errors as text. -/
def approvePrompt (J : SerdeJson) (sessionId actionId : String) (decision : ApprovalDecision) :
    Prog Sys (Except String Bool) := do
  let r ← resolveApprovalImpl J sessionId actionId decision.toApprovalState
  return r.mapError PersistenceError.message

/-- The command reads the session's approval document, and may write it. -/
theorem allOps_approvePrompt {J : SerdeJson} {P : Op → Prop} {sessionId : String}
    (hread : P (.storeGet (approvalKey sessionId)))
    (hwrite : ∀ payload, P (.storeUpsert (approvalKey sessionId) payload)) (actionId : String)
    (decision : ApprovalDecision) : (approvePrompt J sessionId actionId decision).AllOps P := by
  refine Prog.AllOps.bind ?_ fun _ => trivial
  rw [resolveApprovalImpl_eq]
  refine ⟨hread, fun r => ?_⟩
  simp only
  cases addressed J actionId r with
  | none => trivial
  | some request => exact ⟨hwrite _, fun _ => trivial⟩

end Spectty.Commands
