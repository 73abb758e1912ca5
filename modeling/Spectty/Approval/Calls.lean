/-
  Spectty.Approval.Calls

  The calls that meet on a session's approval document: `spectty_approval` in
  the sidecar and `approve_prompt` in the application.  `Call.program` is the
  thread of a call.

  `Phase` is where a call stands between two store accesses, and
  `Call.protocol` how each access moves it; `Call.follows` says the programs
  keep to it.  The invariants of `Approval.Concurrent` speak of phases only.
-/

import Spectty.Approval.Documents

namespace Spectty.Approval

open Spectty.Core
open Spectty.Adapters
open Spectty.Commands
open Spectty.Mcp
open Spectty.Lib

/-- A call on the approval document of a session: an agent's request, with
    any arguments that do not name another session, or a user's decision. -/
inductive Call (sessionId : String) where
  | approval (env : Env) (arguments : Option Json)
      (ofSession : ∀ call, approvalArguments arguments = .ok call → call.sessionId = sessionId)
  | prompt (actionId : String) (decision : ApprovalDecision)

/-- What a call returns. -/
inductive CallResult where
  | approval (result : Except RpcError Json)
  | prompt (result : Except String Bool)

/-- The thread of a call. -/
def Call.program (J : SerdeJson) {sessionId : String} : Call sessionId → Prog Sys CallResult
  | .approval env arguments _ => do
      let result ← specttyApprovalEffect J env arguments
      return .approval result
  | .prompt actionId decision => do
      let result ← approvePrompt J sessionId actionId decision
      return .prompt result

/-- The request a call registers, if it is an accepted `spectty_approval`. -/
def Call.registers {sessionId : String} : Call sessionId → Option ApprovalCall
  | .approval _ arguments _ => (approvalArguments arguments).toOption
  | .prompt _ _ => none

/-- What an accepted request does once its registration is acknowledged. -/
def awaiting (J : SerdeJson) (call : ApprovalCall) (left failures : Nat) : Prog Sys CallResult := do
  let r ← pollForResolution J (approvalKey call.sessionId) call.actionId left failures
  return .approval (.ok (pollResult r))

/-- An accepted request registers, then awaits its decision. -/
theorem Call.program_approval {J : SerdeJson} {sessionId : String} {env : Env}
    {arguments : Option Json} {call : ApprovalCall}
    {ofSession : ∀ call, approvalArguments arguments = .ok call → call.sessionId = sessionId}
    (h : approvalArguments arguments = .ok call) :
    (Call.approval env arguments ofSession).program J =
      .op (.storeUpsert (approvalKey call.sessionId) (J.toString call.pending)) fun r =>
        match r with
        | .error msg =>
            .ret (.approval (.ok (textResult ("spectty_approval: engram unavailable (" ++ msg ++
              "); approval not registered") true)))
        | .ok () => awaiting J call env.maxPolls 0 := by
  simp only [Call.program, specttyApprovalEffect, withArguments, h]
  rw [ApprovalCall.run_eq]
  simp only [Prog.op_bind]
  congr 1
  funext r
  cases r with
  | error msg => rfl
  | ok u =>
      simp only [Prog.pure_eq, Prog.bind_assoc]
      rfl

/-- One read of an awaiting request. -/
theorem awaiting_succ (J : SerdeJson) (call : ApprovalCall) (left failures : Nat) :
    awaiting J call (left + 1) failures =
      .op (.storeGet (approvalKey call.sessionId)) fun r =>
        match r with
        | .ok content =>
            match content.bind (resolutionOf J · call.actionId) with
            | some decision => .ret (.approval (.ok (resolvedResult decision)))
            | none => awaiting J call left 0
        | .error msg =>
            if failures + 1 ≥ approvalMaxConsecutiveGetFailures then
              .ret (.approval (.ok (pollResult (.error (.transport msg)))))
            else awaiting J call left (failures + 1) := by
  rw [awaiting, pollForResolution_succ]
  simp only [Prog.op_bind]
  congr 1
  funext r
  cases r with
  | ok content =>
      simp only
      cases content.bind (resolutionOf J · call.actionId) <;> rfl
  | error msg =>
      simp only
      split <;> rfl

/-- A decision reads, then writes if it read the addressed request. -/
theorem Call.program_prompt (J : SerdeJson) (sessionId actionId : String)
    (decision : ApprovalDecision) :
    (Call.prompt actionId decision : Call sessionId).program J =
      .op (.storeGet (approvalKey sessionId)) fun r =>
        match addressed J actionId r with
        | some request =>
            .op (.storeUpsert (approvalKey sessionId)
              (J.toString (request.resolve decision.toApprovalState).encode)) fun r =>
                .ret (.prompt (((r.map fun _ => true).mapError mapHttpErr).mapError
                  PersistenceError.message))
        | none =>
            .ret (.prompt (((r.map fun _ => false).mapError mapHttpErr).mapError
              PersistenceError.message)) := by
  simp only [Call.program, approvePrompt]
  rw [resolveApprovalImpl_eq]
  simp only [Prog.op_bind]
  congr 1
  funext r
  cases addressed J actionId r <;> rfl

/-- Where a call stands. -/
inductive Phase where
  /-- No store access yet. -/
  | fresh
  /-- Registered, with this many reads left and this many failures in a row. -/
  | polling (left failures : Nat)
  /-- Read this decision. -/
  | decided (decision : String)
  /-- About to write its decision into the request it read. -/
  | holding (request : ApprovalRequest)
  | over

/-- Registered and still to read. -/
def Phase.isPolling : Phase → Prop
  | .polling (_ + 1) _ => True
  | _ => False

section

variable (J : SerdeJson) (sessionId : String)

/-- The phase after a registration. -/
def afterRegister (env : Env) : Except String Unit → Phase
  | .ok () => .polling env.maxPolls 0
  | .error _ => .over

/-- The phase after a read of a poll. -/
def afterPoll (actionId : String) (left failures : Nat) : Except String (Option String) → Phase
  | .ok content =>
      match content.bind (resolutionOf J · actionId) with
      | some decision => .decided decision
      | none => .polling left 0
  | .error _ =>
      if failures + 1 ≥ approvalMaxConsecutiveGetFailures then .over
      else .polling left (failures + 1)

/-- The phase after the read of a decision. -/
def afterRead (actionId : String) (r : Except String (Option String)) : Phase :=
  match addressed J actionId r with
  | some request => .holding request
  | none => .over

/-- The accesses of an accepted request. -/
def approvalProtocol (env : Env) (call : ApprovalCall) : Prog.Protocol Sys Phase := fun q e =>
  match q, e with
  | .fresh, ⟨.storeUpsert key payload, r⟩ =>
      if key = approvalKey sessionId ∧ payload = J.toString call.pending then
        some (afterRegister env r)
      else none
  | .polling (left + 1) failures, ⟨.storeGet key, r⟩ =>
      if key = approvalKey sessionId then some (afterPoll J call.actionId left failures r) else none
  | _, _ => none

/-- The accesses of a decision. -/
def promptProtocol (actionId : String) (decision : ApprovalDecision) : Prog.Protocol Sys Phase :=
  fun q e =>
    match q, e with
    | .fresh, ⟨.storeGet key, r⟩ =>
        if key = approvalKey sessionId then some (afterRead J actionId r) else none
    | .holding request, ⟨.storeUpsert key payload, _⟩ =>
        if key = approvalKey sessionId ∧
            payload = J.toString (request.resolve decision.toApprovalState).encode then
          some .over
        else none
    | _, _ => none

/-- The accesses of a call. -/
def Call.protocol : Call sessionId → Prog.Protocol Sys Phase
  | .approval env arguments _ =>
      match approvalArguments arguments with
      | .ok call => approvalProtocol J sessionId env call
      | .error _ => fun _ _ => none
  | .prompt actionId decision => promptProtocol J sessionId actionId decision

/-- A call that returns a decision has read it. -/
def Call.returned (v : CallResult) (q : Phase) : Prop :=
  ∀ decision, v = .approval (.ok (resolvedResult decision)) → q = .decided decision

variable {J sessionId}

-- ============================================================================
-- What an access does to the phase
-- ============================================================================

/-- The accesses a call may make, and where they lead. -/
inductive Call.Step (J : SerdeJson) {sessionId : String} (c : Call sessionId) :
    Phase → Event Sys → Phase → Prop where
  | register {env : Env} {call : ApprovalCall} {r : Except String Unit} :
      c.registers = some call →
      Step J c .fresh ⟨.storeUpsert (approvalKey sessionId) (J.toString call.pending), r⟩
        (afterRegister env r)
  | poll {call : ApprovalCall} {left failures : Nat} {r : Except String (Option String)} :
      c.registers = some call →
      Step J c (.polling (left + 1) failures) ⟨.storeGet (approvalKey sessionId), r⟩
        (afterPoll J call.actionId left failures r)
  | read {actionId : String} {decision : ApprovalDecision} {r : Except String (Option String)} :
      c = .prompt actionId decision →
      Step J c .fresh ⟨.storeGet (approvalKey sessionId), r⟩ (afterRead J actionId r)
  | write {actionId : String} {decision : ApprovalDecision} {request : ApprovalRequest}
      {r : Except String Unit} :
      c = .prompt actionId decision →
      Step J c (.holding request)
        ⟨.storeUpsert (approvalKey sessionId)
          (J.toString (request.resolve decision.toApprovalState).encode), r⟩ .over

theorem Call.step_of_protocol {c : Call sessionId} {q q' : Phase} {e : Event Sys}
    (h : c.protocol J sessionId q e = some q') : c.Step J q e q' := by
  cases c with
  | approval env arguments ofSession =>
      simp only [Call.protocol] at h
      cases hargs : approvalArguments arguments with
      | error err => simp [hargs] at h
      | ok call =>
          have hreg : (Call.approval env arguments ofSession).registers = some call := by
            simp [Call.registers, hargs, Except.toOption]
          rw [hargs] at h
          simp only [approvalProtocol] at h
          split at h
          · split at h
            · rename_i hkey
              obtain ⟨rfl, rfl⟩ := hkey
              obtain rfl := Option.some.inj h
              exact .register hreg
            · cases h
          · split at h
            · rename_i hkey
              obtain rfl := hkey
              obtain rfl := Option.some.inj h
              exact .poll hreg
            · cases h
          · cases h
  | prompt actionId decision =>
      simp only [Call.protocol, promptProtocol] at h
      split at h
      · split at h
        · rename_i hkey
          obtain rfl := hkey
          obtain rfl := Option.some.inj h
          exact .read rfl
        · cases h
      · split at h
        · rename_i hkey
          obtain ⟨rfl, rfl⟩ := hkey
          obtain rfl := Option.some.inj h
          exact .write rfl
        · cases h
      · cases h

theorem afterPoll_eq_decided {actionId decision : String} {left failures : Nat}
    {r : Except String (Option String)}
    (h : afterPoll J actionId left failures r = .decided decision) :
    ∃ content, r = .ok (some content) ∧ resolutionOf J content actionId = some decision := by
  unfold afterPoll at h
  split at h
  · split at h
    · rename_i decision' hdec
      obtain ⟨content, rfl, hres⟩ := Option.bind_eq_some_iff.mp hdec
      cases h
      exact ⟨content, rfl, hres⟩
    · cases h
  · split at h <;> cases h

theorem afterPoll_ne_holding {actionId : String} {left failures : Nat}
    {r : Except String (Option String)} {request : ApprovalRequest} :
    afterPoll J actionId left failures r ≠ .holding request := by
  unfold afterPoll
  split <;> split <;> simp

theorem afterRead_eq_holding {actionId : String} {r : Except String (Option String)}
    {request : ApprovalRequest} (h : afterRead J actionId r = .holding request) :
    ∃ content, r = .ok (some content) ∧ approvalOf J content = some request ∧
      request.actionId = actionId ∧ request.isPending = true := by
  unfold afterRead at h
  split at h
  · rename_i request' haddr
    cases h
    exact addressed_eq_some haddr
  · cases h

theorem afterRead_ne {actionId : String} {r : Except String (Option String)} :
    (∀ n f, afterRead J actionId r ≠ .polling n f) ∧
      ∀ decision, afterRead J actionId r ≠ .decided decision := by
  unfold afterRead
  split <;> simp

theorem afterRegister_eq_polling {env : Env} {r : Except String Unit} {n f : Nat}
    (h : afterRegister env r = .polling n f) : r = .ok () := by
  cases r with
  | error msg => cases h
  | ok u => rfl

theorem afterRegister_ne {env : Env} {r : Except String Unit} :
    (∀ request, afterRegister env r ≠ .holding request) ∧
      ∀ decision, afterRegister env r ≠ .decided decision := by
  cases r <;> simp [afterRegister]

-- ============================================================================
-- The programs keep to the protocol
-- ============================================================================

theorem textResult_injective {text text' : String} {b b' : Bool}
    (h : textResult text b = textResult text' b') : text = text' ∧ b = b' := by
  simpa [textResult] using h

theorem resolvedResult_injective {d d' : String} (h : resolvedResult d = resolvedResult d') :
    d = d' := by
  have htext := (textResult_injective h).1
  have hlist := congrArg String.toList htext
  simp only [String.toList_append, List.append_cancel_left_eq] at hlist
  exact String.toList_inj.mp hlist

/-- Only a decision is answered as a resolution. -/
theorem pollResult_eq_resolved {r : Except EngramClientError (Option String)} {decision : String}
    (h : pollResult r = resolvedResult decision) : r = .ok (some decision) := by
  rcases r with ⟨msg⟩ | (_ | decision')
  · exact absurd (textResult_injective h).2 (by decide)
  · have hlist := congrArg (fun s => s.toList.take 19) (textResult_injective h).1
    rw [String.toList_append, List.take_append_of_le_length (by decide)] at hlist
    exact absurd hlist (by decide)
  · rw [resolvedResult_injective h]

theorem follows_poll {env : Env} {call : ApprovalCall} (left failures : Nat) :
    Prog.Follows (approvalProtocol J sessionId env call) (.polling left failures)
      (pollForResolution J (approvalKey sessionId) call.actionId left failures)
      fun v q => ∀ decision, v = .ok (some decision) → q = .decided decision := by
  induction left generalizing failures with
  | zero => simp [pollForResolution]
  | succ left ih =>
      rw [pollForResolution_succ]
      intro r
      refine ⟨afterPoll J call.actionId left failures r, by simp [approvalProtocol], ?_⟩
      cases r with
      | ok content =>
          simp only [afterPoll]
          cases content.bind (resolutionOf J · call.actionId) with
          | some decision => simp
          | none => exact ih 0
      | error msg =>
          simp only [afterPoll]
          split
          · simp
          · exact ih (failures + 1)

theorem follows_approval (env : Env) {call : ApprovalCall} (hs : call.sessionId = sessionId) :
    Prog.Follows (approvalProtocol J sessionId env call) .fresh (call.run J env)
      fun v q => ∀ decision, v = resolvedResult decision → q = .decided decision := by
  subst hs
  rw [ApprovalCall.run_eq]
  intro r
  refine ⟨afterRegister env r, by simp [approvalProtocol], ?_⟩
  cases r with
  | error msg =>
      intro decision h
      exact absurd (textResult_injective h).2 (by decide)
  | ok u =>
      refine Prog.Follows.bind (follows_poll env.maxPolls 0) fun v q hv => ?_
      intro decision h
      exact hv decision (pollResult_eq_resolved h)

theorem follows_resolve (actionId : String) (decision : ApprovalDecision) :
    Prog.Follows (promptProtocol J sessionId actionId decision) .fresh
      (resolveApprovalImpl J sessionId actionId decision.toApprovalState) fun _ _ => True := by
  rw [resolveApprovalImpl_eq]
  intro r
  refine ⟨afterRead J actionId r, by simp [promptProtocol], ?_⟩
  cases h : addressed J actionId r with
  | none =>
      simp only [h]
      trivial
  | some request =>
      simp only [afterRead, h]
      intro r
      exact ⟨.over, by simp [promptProtocol], trivial⟩

/-- Every call keeps to its protocol, and returns a decision only after
    reading it. -/
theorem Call.follows (c : Call sessionId) :
    Prog.Follows (c.protocol J sessionId) .fresh (c.program J) Call.returned := by
  cases c with
  | approval env arguments ofSession =>
      simp only [Call.program, Call.protocol, specttyApprovalEffect, withArguments]
      cases h : approvalArguments arguments with
      | error e =>
          intro decision hv
          cases hv
      | ok call =>
          have heffect : Prog.Follows (approvalProtocol J sessionId env call) .fresh
              (call.run J env >>= fun v => pure (.ok v)) fun (v : Except RpcError Json) q =>
                ∀ decision, v = .ok (resolvedResult decision) → q = .decided decision :=
            (follows_approval env (ofSession call h)).bind fun v q hv decision h =>
              hv decision (Except.ok.inj h)
          refine heffect.bind fun v q hv decision h => hv decision ?_
          exact CallResult.approval.inj h
  | prompt actionId decision =>
      simp only [Call.program, Call.protocol, approvePrompt]
      rw [Prog.bind_assoc]
      refine (follows_resolve actionId decision).bind fun v q _ => ?_
      intro decision h
      cases h

end

end Spectty.Approval
