/-
  Spectty.Approval.Documents

  The approval document as both sides see it.

  The application writes `ApprovalRequest.encode` and reads through
  `ApprovalRequest.decode`; the sidecar writes `ApprovalCall.pending` and
  reads through `resolutionOf`.  The lemmas here say what each reader makes
  of each writer's document, for any text layer `J`.
-/

import Spectty.Mcp.Tools

namespace Spectty.Approval

open Spectty.Core
open Spectty.Commands
open Spectty.Mcp
open Spectty.Lib
open Spectty.Lib.Serde

variable (J : SerdeJson)

/-- The action a stored document addresses, as a value reader sees it. -/
def actionIdOf (content : String) : Option String :=
  ((J.toValue content).bind (Json.get "action_id")).bind Json.asStr

-- ============================================================================
-- The application's document
-- ============================================================================

theorem readFields_members (r : ApprovalRequest) :
    readFields ApprovalRequest.fieldNames (.obj r.members) = some r.members := by
  obtain ⟨actionId, description, riskLevel, options, resolution⟩ := r
  apply readFields_obj
  · cases riskLevel <;> simp [ApprovalRequest.members, ApprovalRequest.fieldNames]
  · cases riskLevel <;> simp [ApprovalRequest.members]

/-- The application reads its own document back. -/
@[simp] theorem decode_encode (r : ApprovalRequest) :
    ApprovalRequest.decode r.encode = some r := by
  unfold ApprovalRequest.decode ApprovalRequest.encode
  rw [readFields_members]
  obtain ⟨actionId, description, riskLevel, options, resolution⟩ := r
  cases riskLevel <;> cases resolution <;>
    simp [ApprovalRequest.members, required, defaulted, List.lookup_cons, ApprovalState.encode]

@[simp] theorem approvalOf_encode (r : ApprovalRequest) :
    approvalOf J (J.toString r.encode) = some r := by
  simp [approvalOf]

/-- A member of the application's document, as a value reader sees it. -/
theorem get_encode (key : String) (r : ApprovalRequest) :
    r.encode.toValue.get key = (r.members.reverse.lookup key).map Json.toValue :=
  Json.get_toValue_obj key r.members

@[simp] theorem actionIdOf_encode (r : ApprovalRequest) :
    actionIdOf J (J.toString r.encode) = some r.actionId := by
  obtain ⟨actionId, description, riskLevel, options, resolution⟩ := r
  cases riskLevel <;>
    simp [actionIdOf, get_encode, ApprovalRequest.members, List.lookup_cons]

/-- The sidecar reads the decision of the application's document, for its
    action only. -/
theorem resolutionOf_encode (r : ApprovalRequest) (actionId : String) :
    resolutionOf J (J.toString r.encode) actionId =
      if r.actionId = actionId then r.resolution.map ApprovalState.wire else none := by
  obtain ⟨id, description, riskLevel, options, resolution⟩ := r
  cases riskLevel <;> cases resolution <;>
    simp [resolutionOf, get_encode, ApprovalRequest.members, List.lookup_cons, ApprovalState.encode,
      Json.isNull]

-- ============================================================================
-- The sidecar's document
-- ============================================================================

/-- The request a registration asks for, when its options are a list of
    strings. -/
def requested (call : ApprovalCall) : Option ApprovalRequest :=
  (vec string call.options).map fun options =>
    { actionId := call.actionId, description := call.description, riskLevel := call.riskLevel,
      options, resolution := none }

theorem requested_actionId {call : ApprovalCall} {r : ApprovalRequest}
    (h : requested call = some r) : r.actionId = call.actionId := by
  obtain ⟨options, -, rfl⟩ := Option.map_eq_some_iff.mp h
  rfl

theorem requested_isPending {call : ApprovalCall} {r : ApprovalRequest}
    (h : requested call = some r) : r.isPending = true := by
  obtain ⟨options, -, rfl⟩ := Option.map_eq_some_iff.mp h
  rfl

/-- The application reads a registration as the request it asks for, or not
    at all. -/
@[simp] theorem approvalOf_pending (call : ApprovalCall) :
    approvalOf J (J.toString call.pending) = requested call := by
  have hread : readFields ApprovalRequest.fieldNames call.pending =
      some [("action_id", .str call.actionId), ("description", .str call.description),
        ("risk_level", call.riskLevel.elim .null .str), ("options", call.options),
        ("resolution", .null)] :=
    readFields_obj (by simp [ApprovalRequest.fieldNames]) (by simp)
  have hrisk : option string (call.riskLevel.elim .null .str) = some call.riskLevel := by
    cases call.riskLevel <;> simp
  simp only [approvalOf, SerdeJson.fromStr_toString, Option.bind_some, ApprovalRequest.decode,
    hread]
  cases h : vec string call.options <;>
    simp [required, defaulted, List.lookup_cons, requested, hrisk, h]

theorem get_pending (key : String) (call : ApprovalCall) :
    call.pending.toValue.get key =
      ([("resolution", .null), ("options", call.options),
        ("risk_level", call.riskLevel.elim .null .str), ("description", .str call.description),
        ("action_id", .str call.actionId)].lookup key).map Json.toValue :=
  Json.get_toValue_obj key _

@[simp] theorem actionIdOf_pending (call : ApprovalCall) :
    actionIdOf J (J.toString call.pending) = some call.actionId := by
  simp [actionIdOf, get_pending, List.lookup_cons]

/-- A registration carries no decision. -/
@[simp] theorem resolutionOf_pending (call : ApprovalCall) (actionId : String) :
    resolutionOf J (J.toString call.pending) actionId = none := by
  simp [resolutionOf, get_pending, List.lookup_cons, Json.isNull]

-- ============================================================================
-- What a decision says of the document
-- ============================================================================

/-- A decision is read from a document of its action only. -/
theorem actionIdOf_of_resolutionOf {content actionId decision : String}
    (h : resolutionOf J content actionId = some decision) :
    actionIdOf J content = some actionId := by
  unfold resolutionOf at h
  simp only [Option.bind_eq_bind, Option.bind_eq_some_iff] at h
  obtain ⟨doc, hdoc, h⟩ := h
  split at h
  · simp at h
  · rename_i hid
    simpa [actionIdOf, hdoc] using hid

/-- Both readers see the same action id, where they see one. -/
theorem actionIdOf_of_approvalOf {content actionId : String} {r : ApprovalRequest}
    (hr : approvalOf J content = some r) (hid : actionIdOf J content = some actionId) :
    r.actionId = actionId := by
  obtain ⟨j, hj, hdec⟩ := Option.bind_eq_some_iff.mp hr
  have hvalue : J.toValue content = some j.toValue := by simp [SerdeJson.toValue, hj]
  simp only [actionIdOf, hvalue, Option.bind_some, Option.bind_eq_some_iff] at hid
  obtain ⟨v, hv, hstr⟩ := hid
  simp only [ApprovalRequest.decode, Option.bind_eq_bind, Option.bind_eq_some_iff] at hdec
  obtain ⟨fields, hfields, id, hrequired, _, _, _, _, _, _, _, _, hrest⟩ := hdec
  obtain rfl := Option.some.inj hrest
  obtain ⟨w, hw, hwid⟩ := Option.bind_eq_some_iff.mp hrequired
  obtain rfl := string_eq_some.mp hwid
  cases j with
  | obj members =>
      have hsame : members.reverse.lookup "action_id" = fields.lookup "action_id" :=
        lookup_readFields_obj (by decide) hfields
      rw [Json.get_toValue_obj, hsame, hw] at hv
      obtain rfl := Option.some.inj hv
      simpa using hstr
  | _ => simp [Json.toValue, Json.get] at hv

end Spectty.Approval
