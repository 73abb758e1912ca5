/-
  Spectty.Approval.Visible

  What the application makes of a registration.  The sidecar checks the
  session and the action of a request and copies its options as they came;
  the application reads the whole document or none of it.  So a request is
  shown only if its options are a list of strings, and its session id one
  segment of the topic key (`approval_visible`).
-/

import Spectty.Approval.Sequential
import Spectty.Lib.JsonText

namespace Spectty.Approval

open Spectty.Core
open Spectty.Adapters
open Spectty.Commands
open Spectty.Mcp
open Spectty.Lib
open Spectty.Lib.Serde

/-- The application sees the document as a pending request of the action: it
    reads it, announces it, and can resolve it. -/
structure Visible (J : SerdeJson) (sessionId actionId content : String) : Prop where
  read : ∀ w : World, w.content (approvalKey sessionId) = some content →
    ∃ r, (Prog.interp (World.handler World.noFaults) (getApprovalImpl J sessionId) w).1 =
        .ok (some r) ∧
      r.isPending = true ∧ r.actionId = actionId
  announced : ∀ updatedAt, ∃ event,
    approvalStatusFromChange J ⟨approvalKey sessionId, content, updatedAt⟩ = some event ∧
      event.sessionId = sessionId ∧ event.status = .awaitingInput
  resolvable : ∀ (w : World) (decision : ApprovalDecision),
    w.content (approvalKey sessionId) = some content →
    (promptCall J sessionId w ⟨actionId, decision, World.noFaults⟩).1 = .ok true

/-- The request names its session in one key segment, and its options, if
    any, are a list of strings. -/
structure Presentable (call : ApprovalCall) : Prop where
  segment : '/' ∉ call.sessionId.toList
  options : ∀ options, call.arguments.get "options" = some options →
    ∃ items : List String, options = .arr (items.map .str)

variable {J : SerdeJson} {call : ApprovalCall}

/-- The options of a request are a list of strings exactly if it is one the
    application can read. -/
theorem requested_isSome :
    (requested call).isSome ↔ ∀ options, call.arguments.get "options" = some options →
      ∃ items : List String, options = .arr (items.map .str) := by
  rw [requested, Option.isSome_map, Option.isSome_iff_exists]
  simp only [vec_string_eq_some, ApprovalCall.options]
  cases call.arguments.get "options" with
  | none =>
      refine ⟨fun _ options h => ?_, fun _ => ⟨[], rfl⟩⟩
      cases h
  | some options =>
      refine ⟨fun h options' h' => ?_, fun h => h options rfl⟩
      obtain rfl := Option.some.inj h'
      exact h

/-- The change a registration is seen as. -/
theorem approvalStatusFromChange_pending (hsession : call.sessionId ≠ "") (updatedAt : String) :
    approvalStatusFromChange J
        ⟨approvalKey call.sessionId, J.toString call.pending, updatedAt⟩ =
      if '/' ∈ call.sessionId.toList then none
      else (requested call).map fun r =>
        { sessionId := call.sessionId
          status := .awaitingInput
          quickActions := r.options.map quickActionFromOption } := by
  have hkey : sessionIdFromApprovalKey (approvalKey call.sessionId) =
      if '/' ∈ call.sessionId.toList then none else some call.sessionId :=
    sessionIdFromKey_topicKey hsession (by decide)
  simp only [approvalStatusFromChange, hkey, approvalOf_pending]
  split_ifs
  · rfl
  · cases hr : requested call with
    | none => rfl
    | some r => simp [requested_isPending hr]

theorem visible_pending (hsession : call.sessionId ≠ "") :
    Visible J call.sessionId call.actionId (J.toString call.pending) ↔ Presentable call := by
  constructor
  · intro h
    obtain ⟨event, hevent, -⟩ := h.announced ""
    rw [approvalStatusFromChange_pending hsession] at hevent
    split_ifs at hevent with hslash
    refine ⟨hslash, requested_isSome.mp ?_⟩
    obtain ⟨r, hr, -⟩ := Option.map_eq_some_iff.mp hevent
    rw [hr]
    rfl
  · rintro ⟨hslash, hoptions⟩
    obtain ⟨r, hr⟩ := Option.isSome_iff_exists.mp (requested_isSome.mpr hoptions)
    have hread : approvalOf J (J.toString call.pending) = some r := by
      rw [approvalOf_pending, hr]
    refine ⟨fun w hw => ⟨r, ?_, requested_isPending hr, requested_actionId hr⟩, fun updatedAt => ?_,
      fun w decision hw => ?_⟩
    · rw [interp_getApprovalImpl, hw]
      simp [World.noFaults, hr]
    · rw [approvalStatusFromChange_pending hsession, if_neg hslash, hr]
      exact ⟨_, rfl, rfl, rfl⟩
    · rw [(callLaw w _).true_iff]
      exact ⟨⟨rfl, rfl⟩, r, _, hw, hread, requested_isPending hr, requested_actionId hr⟩

/-- Every accepted request stores one document, its pending one, and reads
    afterwards; the application sees that document exactly if the request is
    presentable. -/
theorem approval_visible {env : Env} {arguments : Option Json} {w w' : World}
    {es : List (Event Sys)} {v : Json}
    (h : Prog.Exec World.step w (specttyApprovalEffect J env arguments) es w' (.ok v)) :
    ∃ call r rest, approvalArguments arguments = .ok call ∧
      es = ⟨.storeUpsert (approvalKey call.sessionId) (J.toString call.pending), r⟩ :: rest ∧
      (∀ e ∈ rest, e.op = .storeGet (approvalKey call.sessionId)) ∧
      (Visible J call.sessionId call.actionId (J.toString call.pending) ↔ Presentable call) := by
  obtain ⟨call, hcall, hrun⟩ := exec_withArguments h
  have hsession : call.sessionId ≠ "" := (approvalArguments_eq_ok.mp hcall).2.2.1
  rw [ApprovalCall.run_eq] at hrun
  cases hrun with
  | @op _ _ _ _ _ r rest _ _ hrest =>
      refine ⟨call, r, rest, hcall, rfl, ?_, visible_pending hsession⟩
      cases r with
      | error msg =>
          cases hrest
          simp
      | ok u =>
          have hreads : Prog.AllOps (· = Op.storeGet (approvalKey call.sessionId)) (do
              let r ← pollForResolution J (approvalKey call.sessionId) call.actionId env.maxPolls 0
              return pollResult r) :=
            (allOps_pollForResolution J _ _ _ _).bind fun _ => trivial
          exact hreads.exec hrest

/-- An accepted request whose registration is stored, with no poll left. -/
theorem exec_registration (w : World) {arguments : Option Json}
    (h : approvalArguments arguments = .ok call) :
    Prog.Exec World.step w (specttyApprovalEffect J ⟨0, 0⟩ arguments)
      [⟨.storeUpsert (approvalKey call.sessionId) (J.toString call.pending), .ok ()⟩]
      (w.write (approvalKey call.sessionId) (J.toString call.pending))
      (.ok (pollResult (.ok none))) := by
  simp only [specttyApprovalEffect, withArguments, h]
  rw [ApprovalCall.run_eq]
  exact .op (World.step_write _ _ _) .ret

/-- A request on session 1 with the given options. -/
def optionsCall (options : Json) : ApprovalCall where
  sessionId := "1"
  actionId := "deploy"
  arguments := .obj [("session_id", .str "1"), ("action_id", .str "deploy"), ("options", options)]

theorem approvalArguments_optionsCall (options : Json) :
    approvalArguments (some (optionsCall options).arguments) = .ok (optionsCall options) :=
  approvalArguments_eq_ok.mpr ⟨rfl, rfl, (by decide : "1" ≠ ""), rfl, (by decide : "deploy" ≠ "")⟩

/-- A request with one option is seen. -/
theorem approval_visible_option :
    Visible .compact "1" "deploy"
      (SerdeJson.compact.toString (optionsCall (.arr [.str "yes"])).pending) := by
  obtain ⟨call, r, rest, hcall, -, -, hiff⟩ :=
    approval_visible (exec_registration (J := .compact) .initial
      (approvalArguments_optionsCall (.arr [.str "yes"])))
  rw [approvalArguments_optionsCall] at hcall
  obtain rfl := Except.ok.inj hcall
  refine hiff.mpr ⟨by decide, fun options h => ⟨["yes"], ?_⟩⟩
  exact (Option.some.inj h).symm

/-- A request with `null` options is registered and not seen. -/
theorem approval_visible_null :
    ∃ w v content, Prog.Exec World.step .initial
        (specttyApprovalEffect .compact ⟨0, 0⟩ (some (optionsCall .null).arguments))
        [⟨.storeUpsert (approvalKey "1") content, .ok ()⟩] w (.ok v) ∧
      ¬ Visible .compact "1" "deploy" content := by
  have hexec := exec_registration (J := .compact) .initial (approvalArguments_optionsCall .null)
  refine ⟨_, _, _, hexec, fun hseen => ?_⟩
  have hpresent : Presentable (optionsCall .null) :=
    (visible_pending (show (optionsCall .null).sessionId ≠ "" by decide)).mp hseen
  obtain ⟨items, hitems⟩ := hpresent.options .null rfl
  cases hitems

end Spectty.Approval
