/-
  Spectty.Approval.Sequential

  Approval resolution with no other writer: any sequence of `approvePrompt`
  calls, each with its own store failures, where a failed write stores
  nothing.

  `promptCall_cases` is all one call can do; `CallLaw` says what the caller
  sees of it, and `approval_resolution_sequential` states the law for every
  call of every sequence, and that a decision is taken once.
-/

import Spectty.Approval.Documents

namespace Spectty.Approval

open Spectty.Core
open Spectty.Adapters
open Spectty.Commands
open Spectty.Mcp
open Spectty.Lib

/-- A call of the command, with the store failures it meets. -/
structure PromptCall where
  actionId : String
  decision : ApprovalDecision
  faults : World.Faults

section

variable (J : SerdeJson) (sessionId : String)

/-- Run one call. -/
def promptCall (w : World) (c : PromptCall) : Except String Bool × World :=
  Prog.interp (World.handler c.faults) (approvePrompt J sessionId c.actionId c.decision) w

/-- The world after a sequence of calls. -/
def afterCalls (w : World) (calls : List PromptCall) : World :=
  calls.foldl (fun w c => (promptCall J sessionId w c).2) w

/-- The stored document reads as the pending request `r` of the call's
    action. -/
def Addressed (w : World) (c : PromptCall) (r : ApprovalRequest) : Prop :=
  ∃ content, w.content (approvalKey sessionId) = some content ∧
    approvalOf J content = some r ∧ r.isPending = true ∧ r.actionId = c.actionId

/-- The call met no store failure. -/
def StoreOk (c : PromptCall) : Prop := c.faults.get = none ∧ c.faults.upsert = none

/-- The world with the decision written into `r`. -/
def resolvedWorld (w : World) (c : PromptCall) (r : ApprovalRequest) : World :=
  w.write (approvalKey sessionId) (J.toString (r.resolve c.decision.toApprovalState).encode)

/-- What the caller of `approvePrompt` sees. -/
structure CallLaw (w : World) (c : PromptCall) : Prop where
  /-- True exactly when the store answers and the addressed request is pending. -/
  true_iff : (promptCall J sessionId w c).1 = .ok true ↔
    StoreOk c ∧ ∃ r, Addressed J sessionId w c r
  /-- Then the other fields are kept, and the sidecar reads the decision for
      this action and for no other. -/
  resolved : (promptCall J sessionId w c).1 = .ok true →
    ∃ r content, Addressed J sessionId w c r ∧
      (promptCall J sessionId w c).2.content (approvalKey sessionId) = some content ∧
      approvalOf J content = some { r with resolution := some c.decision.toApprovalState } ∧
      ∀ actionId, resolutionOf J content actionId =
        if actionId = c.actionId then some c.decision.toApprovalState.wire else none
  /-- Otherwise nothing changes. -/
  unchanged : (promptCall J sessionId w c).1 ≠ .ok true → (promptCall J sessionId w c).2 = w

-- ============================================================================
-- One call
-- ============================================================================

/-- Reading the request, with the call's failures. -/
theorem interp_getApprovalImpl (f : World.Faults) (w : World) :
    Prog.interp (World.handler f) (getApprovalImpl J sessionId) w =
      (match f.get with
        | some msg => .error (mapHttpErr msg)
        | none => .ok ((w.content (approvalKey sessionId)).bind (approvalOf J)), w) := by
  unfold getApprovalImpl EngramAdapter.get
  cases hf : f.get with
  | some msg => simp [World.handler, hf, Except.mapError]
  | none =>
      cases hc : w.content (approvalKey sessionId) <;>
        simp [World.handler, hf, hc, Except.mapError]

/-- A call either resolves the addressed request, with a store that answers,
    or changes nothing and does not return true. -/
theorem promptCall_cases (w : World) (c : PromptCall) :
    (∃ r, Addressed J sessionId w c r ∧ StoreOk c ∧
      promptCall J sessionId w c = (.ok true, resolvedWorld J sessionId w c r)) ∨
    (¬ (StoreOk c ∧ ∃ r, Addressed J sessionId w c r) ∧
      (promptCall J sessionId w c).1 ≠ .ok true ∧ (promptCall J sessionId w c).2 = w) := by
  unfold promptCall approvePrompt resolveApprovalImpl
  rw [Prog.interp_bind, Prog.interp_bind, interp_getApprovalImpl]
  cases hget : c.faults.get with
  | some msg =>
      right
      refine ⟨fun h => ?_, by simp [Except.mapError], by simp⟩
      simp [StoreOk, hget] at h
  | none =>
      cases hread : (w.content (approvalKey sessionId)).bind (approvalOf J) with
      | none =>
          right
          refine ⟨?_, by simp [Except.mapError], by simp⟩
          rintro ⟨-, r, content, hcontent, hr, -⟩
          simp [hcontent, hr] at hread
      | some r =>
          obtain ⟨content, hcontent, hr⟩ := Option.bind_eq_some_iff.mp hread
          simp only
          split
          case isTrue hskip =>
              right
              refine ⟨?_, by simp [Except.mapError], by simp⟩
              rintro ⟨-, r', content', hcontent', hr', hpending, hid⟩
              rw [hcontent] at hcontent'
              obtain rfl := Option.some.inj hcontent'
              rw [hr] at hr'
              obtain rfl := Option.some.inj hr'
              simp [hpending, hid] at hskip
          case isFalse hmatch =>
              have haddr : Addressed J sessionId w c r := by
                refine ⟨content, hcontent, hr, ?_, ?_⟩ <;> simp_all
              cases hput : c.faults.upsert with
              | some msg =>
                  right
                  refine ⟨fun h => ?_, ?_, ?_⟩
                  · simp [StoreOk, hput] at h
                  · simp [EngramAdapter.upsert, World.handler, hput, Except.mapError]
                  · simp [EngramAdapter.upsert, World.handler, hput, Except.mapError]
              | none =>
                  left
                  refine ⟨r, haddr, ⟨hget, hput⟩, ?_⟩
                  simp [EngramAdapter.upsert, World.handler, hput, Except.mapError, resolvedWorld]

variable {J sessionId}

theorem callLaw (w : World) (c : PromptCall) : CallLaw J sessionId w c := by
  rcases promptCall_cases J sessionId w c with
    ⟨r, haddr, hok, hcall⟩ | ⟨hnot, hres, hw⟩
  · obtain ⟨content, hcontent, hr, hpending, hid⟩ := haddr
    refine ⟨?_, fun _ => ?_, fun h => ?_⟩
    · rw [hcall]
      exact ⟨fun _ => ⟨hok, r, content, hcontent, hr, hpending, hid⟩, fun _ => rfl⟩
    · refine ⟨r, _, ⟨content, hcontent, hr, hpending, hid⟩, ?_, approvalOf_encode J _, ?_⟩
      · rw [hcall]
        exact World.content_write w _ _
      · intro actionId
        rw [resolutionOf_encode, hid]
        simp only [eq_comm, Option.map_some]
    · rw [hcall] at h
      exact absurd rfl h
  · exact ⟨⟨fun h => absurd h hres, fun h => absurd h hnot⟩, fun h => absurd h hres, fun _ => hw⟩

-- ============================================================================
-- Sequences
-- ============================================================================

/-- The stored document is a resolved request. -/
def Resolved (J : SerdeJson) (sessionId : String) (w : World) : Prop :=
  ∃ content r, w.content (approvalKey sessionId) = some content ∧
    approvalOf J content = some r ∧ r.isPending = false

/-- A call that returns true leaves a resolved document. -/
theorem resolved_of_true {w : World} {c : PromptCall}
    (h : (promptCall J sessionId w c).1 = .ok true) :
    Resolved J sessionId (promptCall J sessionId w c).2 := by
  obtain ⟨r, content, -, hcontent, hr, -⟩ := (callLaw w c).resolved h
  exact ⟨content, _, hcontent, hr, rfl⟩

/-- On a resolved document every call changes nothing. -/
theorem promptCall_resolved {w : World} (h : Resolved J sessionId w) (c : PromptCall) :
    (promptCall J sessionId w c).1 ≠ .ok true ∧ (promptCall J sessionId w c).2 = w := by
  have hres : (promptCall J sessionId w c).1 ≠ .ok true := by
    intro htrue
    obtain ⟨-, r, content, hcontent, hr, hpending, -⟩ := (callLaw w c).true_iff.mp htrue
    obtain ⟨content', r', hcontent', hr', hnot⟩ := h
    rw [hcontent] at hcontent'
    obtain rfl := Option.some.inj hcontent'
    rw [hr] at hr'
    obtain rfl := Option.some.inj hr'
    rw [hpending] at hnot
    cases hnot
  exact ⟨hres, (callLaw w c).unchanged hres⟩

theorem afterCalls_resolved {w : World} (h : Resolved J sessionId w) (calls : List PromptCall) :
    afterCalls J sessionId w calls = w := by
  induction calls with
  | nil => rfl
  | cons c calls ih =>
      rw [afterCalls, List.foldl_cons, (promptCall_resolved h c).2]
      exact ih

end

/-- In every sequence of calls from any stored document, each call obeys
    `CallLaw`, and after the first call that returns true no call returns
    true or changes anything. -/
theorem approval_resolution_sequential (J : SerdeJson) (sessionId : String) (w : World)
    (calls : List PromptCall) :
    (∀ pre c post, calls = pre ++ c :: post →
      CallLaw J sessionId (afterCalls J sessionId w pre) c) ∧
    (∀ pre c mid c' post, calls = pre ++ c :: mid ++ c' :: post →
      (promptCall J sessionId (afterCalls J sessionId w pre) c).1 = .ok true →
      (promptCall J sessionId (afterCalls J sessionId w (pre ++ c :: mid)) c').1 ≠ .ok true ∧
      (promptCall J sessionId (afterCalls J sessionId w (pre ++ c :: mid)) c').2 =
        (promptCall J sessionId (afterCalls J sessionId w pre) c).2) := by
  refine ⟨fun pre c post _ => callLaw _ c, fun pre c mid c' post _ htrue => ?_⟩
  have hresolved := resolved_of_true htrue
  have hafter : afterCalls J sessionId w (pre ++ c :: mid) =
      (promptCall J sessionId (afterCalls J sessionId w pre) c).2 := by
    rw [afterCalls, List.foldl_append, List.foldl_cons]
    exact afterCalls_resolved hresolved mid
  rw [hafter]
  exact promptCall_resolved hresolved c'

end Spectty.Approval
