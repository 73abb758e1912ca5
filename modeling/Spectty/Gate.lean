/-
  Spectty.Gate

  The edit gate: who can open it.

  The contract is one document.  The agent writes all of it, the gate's
  fields included, with `spectty_spec`; the user's decision goes to the
  approval document, and nothing copies it to the contract.  So a push can
  carry its own approval (`gate_stays_closed` says which sequences of tool
  calls keep the gate closed), and a decision leaves the gate as it finds it
  (`decision_reaches_gate`).
-/

import Spectty.Approval.Documents
import Spectty.Lib.JsonText
import Mathlib.Logic.Relation

namespace Spectty

open Spectty.Core
open Spectty.Adapters
open Spectty.Commands
open Spectty.Mcp
open Spectty.Lib

section

variable (J : SerdeJson) (sessionId : String)

/-- `get_spec` may answer the contract `c`. -/
def ReadsSpec (w : World) (c : SpecContract) : Prop :=
  ∃ es w', Prog.Exec World.step w (getSpecImpl J sessionId) es w' (.ok (some c))

/-- No contract that `get_spec` may answer opens the gate. -/
def GateClosed (w : World) : Prop :=
  ∀ c, ReadsSpec J sessionId w c → c.mayBeginEdits = false

variable {J sessionId}

theorem getSpecImpl_eq (J : SerdeJson) (sessionId : String) :
    getSpecImpl J sessionId =
      .op (.storeGet (specKey sessionId)) fun r =>
        .ret (Except.mapError mapHttpErr (r.map (·.bind (specOf J)))) := by
  unfold getSpecImpl EngramAdapter.get
  simp only [Prog.op_bind, Prog.ret_bind, Prog.pure_eq]
  congr 1
  funext r
  rcases r with msg | (_ | content) <;> rfl

/-- `get_spec` answers what the stored content reads as. -/
theorem readsSpec_iff {w : World} {c : SpecContract} :
    ReadsSpec J sessionId w c ↔
      (w.content (specKey sessionId)).bind (specOf J) = some c := by
  unfold ReadsSpec
  rw [getSpecImpl_eq]
  constructor
  · rintro ⟨es, w', hx⟩
    generalize hv : (Except.ok (some c) : Except PersistenceError (Option SpecContract)) = v at hx
    cases hx with
    | @op _ _ _ _ _ r _ _ hstep hrest =>
        cases hrest
        cases r with
        | error msg => cases hv
        | ok content =>
            rw [World.step_get_content hstep] at hv
            exact (Except.ok.inj hv).symm
  · intro h
    refine ⟨[⟨.storeGet (specKey sessionId), .ok (w.content (specKey sessionId))⟩], w,
      .op (World.step_read rfl) ?_⟩
    simp only [Except.map, h, Except.mapError]
    exact .ret

-- ============================================================================
-- Tool calls
-- ============================================================================

/-- A tool call of the agent, with what the sidecar takes from its process. -/
structure ToolCall where
  env : Env
  params : Option Json

/-- The session and the contract of a call that pushes one. -/
def ToolCall.pushes (call : ToolCall) : Option (String × Json) := do
  let params ← call.params
  let name ← (toolName params).toOption
  if name = "spectty_spec" then (specArguments (params.get "arguments")).toOption else none

/-- The call pushes, for the session, a contract that opens the gate. -/
def ToolCall.OpensGate (sessionId : String) (call : ToolCall) : Prop :=
  ∃ sid spec c, call.pushes = some (sid, spec) ∧
    storeKey (specKey sid) = storeKey (specKey sessionId) ∧
    SpecContract.decode spec = some c ∧ c.mayBeginEdits = true

/-- The sidecar serving tool calls one after the other. -/
def toolCalls (J : SerdeJson) : List ToolCall → Prog Sys Unit
  | [] => return ()
  | call :: calls => do
      let _ ← handleToolsCall J call.env call.params
      toolCalls J calls

/-- What a tool call may do: read the store, and write approval requests,
    diff triggers and the contract it pushes. -/
def ToolCall.MayPerform (J : SerdeJson) (call : ToolCall) : Op → Prop
  | .storeGet _ => True
  | .storeUpsert key payload =>
      (∃ sid, key = approvalKey sid ∨ key = diffKey sid) ∨
      ∃ sid spec, call.pushes = some (sid, spec) ∧ key = specKey sid ∧ payload = J.toString spec
  | _ => False

theorem ToolCall.allOps (J : SerdeJson) (call : ToolCall) :
    Prog.AllOps (call.MayPerform J) (handleToolsCall J call.env call.params) := by
  obtain ⟨env, _ | params⟩ := call
  · trivial
  refine allOps_handleToolsCall (fun sid spec hname hargs => ?_) (fun approval _ => ?_)
    fun _ sid _ _ _ => ?_
  · exact Or.inr ⟨sid, spec, by simp [pushes, hname, hargs, Except.toOption], rfl, rfl⟩
  · exact ⟨trivial, fun _ => Or.inl ⟨_, Or.inl rfl⟩⟩
  · exact Or.inl ⟨sid, Or.inr rfl⟩

theorem allOps_toolCalls (J : SerdeJson) (calls : List ToolCall) :
    Prog.AllOps (fun o => ∃ call ∈ calls, call.MayPerform J o) (toolCalls J calls) := by
  induction calls with
  | nil => trivial
  | cons call calls ih =>
      refine Prog.AllOps.bind ((call.allOps J).mono fun o ho => ⟨call, by simp, ho⟩) fun _ => ?_
      refine ih.mono ?_
      rintro o ⟨call', hmem, ho⟩
      exact ⟨call', List.mem_cons_of_mem _ hmem, ho⟩

theorem toolCalls_append (J : SerdeJson) (calls calls' : List ToolCall) :
    toolCalls J (calls ++ calls') = toolCalls J calls >>= fun _ => toolCalls J calls' := by
  induction calls with
  | nil => rfl
  | cons call calls ih =>
      rw [List.cons_append, toolCalls, toolCalls, ih, Prog.bind_assoc]

/-- A push is one write of the pushed contract. -/
theorem ToolCall.push {call : ToolCall} {sid : String} {spec : Json}
    (h : call.pushes = some (sid, spec)) (J : SerdeJson) :
    ∃ k, handleToolsCall J call.env call.params =
      .op (.storeUpsert (specKey sid) (J.toString spec)) k := by
  obtain ⟨env, params⟩ := call
  simp only [pushes, Option.bind_eq_bind, Option.bind_eq_some_iff] at h
  obtain ⟨params, rfl, name, hname, hargs⟩ := h
  split_ifs at hargs with hspec
  subst hspec
  cases hn : toolName params with
  | error e => simp [hn, Except.toOption] at hname
  | ok name =>
      obtain rfl : name = "spectty_spec" := by simpa [hn, Except.toOption] using hname
      cases ha : specArguments (params.get "arguments") with
      | error e => simp [ha, Except.toOption] at hargs
      | ok arguments =>
          obtain rfl : arguments = (sid, spec) := by simpa [ha, Except.toOption] using hargs
          simp only [handleToolsCall, hn, if_true, specttySpecEffect, withArguments, ha]
          exact ⟨_, rfl⟩

-- ============================================================================
-- The agent and the gate
-- ============================================================================

/-- A document of another kind is never the contract. -/
theorem storeKey_ne_specKey {key : String} (h : ∃ sid, key = approvalKey sid ∨ key = diffKey sid) :
    storeKey key ≠ storeKey (specKey sessionId) := by
  obtain ⟨sid, rfl | rfl⟩ := h
  · exact storeKey_topicKey_ne (by decide) _ _
  · exact storeKey_topicKey_ne (by decide) _ _

theorem content_eq_of_storeKey_eq {w : World} {key key' : String}
    (h : storeKey key = storeKey key') : w.content key = w.content key' := by
  rw [World.content, h, World.content]

/-- A step of a call that does not open the gate keeps it closed. -/
theorem GateClosed.step {w w' : World} {e : Event Sys} {call : ToolCall}
    (h : GateClosed J sessionId w) (hcall : ¬ call.OpensGate sessionId)
    (hop : call.MayPerform J e.op) (hstep : World.step w e w') : GateClosed J sessionId w' := by
  by_cases hsame : w'.content (specKey sessionId) = w.content (specKey sessionId)
  · intro c hc
    rw [readsSpec_iff, hsame, ← readsSpec_iff] at hc
    exact h c hc
  · -- the step wrote the contract, so it is the call's push
    obtain ⟨key, payload, hkey, hop'⟩ : ∃ key payload,
        storeKey key = storeKey (specKey sessionId) ∧ e.op = .storeUpsert key payload := by
      by_contra hno
      exact hsame (World.step_content hstep fun k payload hk hne => hno ⟨k, payload, hne, hk⟩)
    rw [hop'] at hop
    obtain hother | ⟨sid, spec, hpushes, rfl, rfl⟩ := hop
    · exact absurd hkey (storeKey_ne_specKey hother)
    · obtain ⟨o, r⟩ := e
      simp only at hop'
      subst hop'
      intro c hc
      rw [readsSpec_iff, ← content_eq_of_storeKey_eq hkey] at hc
      rw [← content_eq_of_storeKey_eq hkey, ← content_eq_of_storeKey_eq hkey] at hsame
      obtain hw | ⟨hw, -⟩ := World.step_upsert_content hstep
      · rw [hw, Option.bind_some, specOf, SerdeJson.fromStr_toString, Option.bind_some] at hc
        by_contra hopen
        exact hcall ⟨sid, spec, c, hpushes, hkey, hc, by simpa using hopen⟩
      · exact absurd hw hsame

/-- A call that opens the gate can be served, and then the gate is open. -/
theorem ToolCall.OpensGate.reaches {call : ToolCall} (h : call.OpensGate sessionId)
    (pre post : List ToolCall) (w : World) :
    ∃ w' p c, Prog.Reaches World.step w (toolCalls J (pre ++ call :: post)) w' p ∧
      ReadsSpec J sessionId w' c ∧ c.mayBeginEdits = true := by
  obtain ⟨sid, spec, c, hpushes, hkey, hdecode, hopen⟩ := h
  obtain ⟨k, hpush⟩ := call.push hpushes J
  obtain ⟨w₁, ⟨⟩, hpre⟩ :=
    Prog.exists_reaches_ret _ (World.handler_step World.noFaults) (toolCalls J pre) w
  have hreach : ∃ p, Prog.Reaches World.step w (toolCalls J (pre ++ call :: post))
      (w₁.write (specKey sid) (J.toString spec)) p := by
    rw [toolCalls_append, toolCalls, hpush]
    exact ⟨_, (hpre.bind _).trans (.op (World.step_write _ _ _) .refl)⟩
  obtain ⟨p, hp⟩ := hreach
  refine ⟨_, p, c, hp, ?_, hopen⟩
  rw [readsSpec_iff, ← content_eq_of_storeKey_eq hkey, World.content_write]
  simpa [specOf] using hdecode

/-- Tool calls keep a closed gate closed, from every store and at every
    moment, exactly if none pushes a contract that opens it. -/
theorem gate_stays_closed (J : SerdeJson) (sessionId : String) (calls : List ToolCall) :
    (∀ w w' p, GateClosed J sessionId w → Prog.Reaches World.step w (toolCalls J calls) w' p →
      GateClosed J sessionId w') ↔
    ∀ call ∈ calls, ¬ call.OpensGate sessionId := by
  constructor
  · intro h call hmem hopens
    obtain ⟨pre, post, rfl⟩ := List.append_of_mem hmem
    obtain ⟨w', p, c, hr, hc, hopen⟩ := hopens.reaches (J := J) pre post .initial
    have hinit : GateClosed J sessionId .initial := by
      intro c hc
      rw [readsSpec_iff] at hc
      cases hc
    rw [h _ _ _ hinit hr c hc] at hopen
    cases hopen
  · intro h w w' p hclosed hr
    refine hr.invariant (P := fun o => ∃ call ∈ calls, call.MayPerform J o) ?_
      (allOps_toolCalls J calls) hclosed
    rintro s o r s' ⟨call, hmem, hop⟩ hs hstep
    exact hs.step (h call hmem) hop hstep

/-- A push that carries its own approval. -/
def selfApproved : ToolCall where
  env := ⟨0, 0⟩
  params := some (.obj [("name", .str "spectty_spec"),
    ("arguments", .obj [("session_id", .str "1"),
      ("spec", .obj [("tasks", .arr []), ("approval", .str "Approved")])])])

/-- It opens the gate of an empty store. -/
theorem gate_opened_by_push :
    GateClosed .compact "1" .initial ∧
      ∃ w p c, Prog.Reaches World.step .initial (toolCalls .compact [selfApproved]) w p ∧
        ReadsSpec .compact "1" w c ∧ c.mayBeginEdits = true := by
  refine ⟨fun c hc => ?_, ?_⟩
  · rw [readsSpec_iff] at hc
    cases hc
  · have hopens : selfApproved.OpensGate "1" := ⟨_, _, _, rfl, rfl, rfl, rfl⟩
    exact hopens.reaches [] [] .initial

-- ============================================================================
-- The user and the gate
-- ============================================================================

/-- The pane presents the gate. -/
def SpecPane.presentsGate (spec : SpecContract) : Bool := spec.approval = .pending

/-- The decision shows at the gate: in the contract, and, for an approval, in
    what the contract allows and the pane presents. -/
structure ShowsDecision (decision : ApprovalDecision) (c : SpecContract) : Prop where
  approval : c.approval = decision.toApprovalState
  opens : decision = .approve → c.mayBeginEdits = true
  allows : decision = .approve → ∀ taskId,
    c.applyProgress taskId .inProgress ≠ .error .gateNotApproved
  hides : decision = .approve → SpecPane.presentsGate c = false

/-- The decision is the contract's approval: the rest follows. -/
theorem showsDecision_iff {decision : ApprovalDecision} {c : SpecContract} :
    ShowsDecision decision c ↔ c.approval = decision.toApprovalState := by
  refine ⟨ShowsDecision.approval, fun h => ?_⟩
  have hopens : decision = .approve → c.mayBeginEdits = true := by
    rintro rfl
    simp [SpecContract.mayBeginEdits, h, ApprovalDecision.toApprovalState]
  refine ⟨h, hopens, fun hd taskId hrefused => ?_, fun hd => ?_⟩
  · rw [SpecContract.applyProgress_gate, hopens hd] at hrefused
    cases hrefused
  · subst hd
    simp [SpecPane.presentsGate, h, ApprovalDecision.toApprovalState]

/-- The operation does not write the session's contract. -/
def LeavesSpec (sessionId : String) (o : Op) : Prop :=
  ∀ key payload, o = .storeUpsert key payload → storeKey key ≠ storeKey (specKey sessionId)

/-- Any number of steps of anything, none a push of the session's contract. -/
def WithoutPush (sessionId : String) : World → World → Prop :=
  Relation.ReflTransGen fun w w' => ∃ e : Event Sys, World.step w e w' ∧ LeavesSpec sessionId e.op

/-- Without a push the contract stays. -/
theorem WithoutPush.readsSpec {w w' : World} {c : SpecContract}
    (h : WithoutPush sessionId w w') : ReadsSpec J sessionId w' c ↔ ReadsSpec J sessionId w c := by
  induction h with
  | refl => rfl
  | tail _ hstep ih =>
      obtain ⟨e, hstep, hkey⟩ := hstep
      rw [readsSpec_iff, World.step_content hstep hkey, ← readsSpec_iff]
      exact ih

/-- A run that pushes nothing is such a sequence of steps. -/
theorem withoutPush_of_reaches {α : Type} {w w' : World} {p p' : Prog Sys α}
    (hr : Prog.Reaches World.step w p w' p')
    (hp : Prog.AllOps (LeavesSpec sessionId) p) : WithoutPush sessionId w w' := by
  refine hr.invariant (I := WithoutPush sessionId w) ?_ hp .refl
  intro s o r s' ho hs hstep
  exact hs.tail ⟨_, hstep, ho⟩

/-- Resolving an approval pushes nothing. -/
theorem leavesSpec_approvePrompt (J : SerdeJson) (sessionId sid actionId : String)
    (decision : ApprovalDecision) :
    Prog.AllOps (LeavesSpec sessionId) (approvePrompt J sid actionId decision) := by
  refine allOps_approvePrompt ?_ ?_ actionId decision
  · rintro key payload ⟨⟩
  · rintro _ key payload ⟨rfl, rfl⟩
    exact storeKey_ne_specKey ⟨sid, Or.inl rfl⟩

/-- A decision, and whatever follows without a push, leaves the contract. -/
theorem readsSpec_after_decision {actionId : String} {decision : ApprovalDecision}
    {w w' w'' : World} {es : List (Event Sys)} {v : Except String Bool} {c : SpecContract}
    (hx : Prog.Exec World.step w (approvePrompt J sessionId actionId decision) es w' v)
    (hquiet : WithoutPush sessionId w' w'') :
    ReadsSpec J sessionId w'' c ↔ ReadsSpec J sessionId w c := by
  rw [hquiet.readsSpec]
  exact (withoutPush_of_reaches hx.reaches (leavesSpec_approvePrompt J _ _ _ _)).readsSpec

/-- After a decision that took effect, and until the next push, `get_spec`
    reads a contract that shows the decision exactly if the contract did so
    before it. -/
theorem decision_reaches_gate {actionId : String} {decision : ApprovalDecision} {w w' : World}
    {es : List (Event Sys)} {c : SpecContract} (hspec : ReadsSpec J sessionId w c)
    (hx : Prog.Exec World.step w (approvePrompt J sessionId actionId decision) es w' (.ok true)) :
    (∀ w'', WithoutPush sessionId w' w'' →
      ∃ c', ReadsSpec J sessionId w'' c' ∧ ShowsDecision decision c') ↔
    c.approval = decision.toApprovalState := by
  simp only [showsDecision_iff]
  constructor
  · intro h
    obtain ⟨c', hc', hshows⟩ := h w' .refl
    rw [readsSpec_after_decision hx .refl, readsSpec_iff] at hc'
    rw [readsSpec_iff, hc'] at hspec
    rw [← Option.some.inj hspec]
    exact hshows
  · intro hc w'' hquiet
    exact ⟨c, (readsSpec_after_decision hx hquiet).mpr hspec, hc⟩

/-- A decision on the pending request of its action. -/
theorem exec_approvePrompt {actionId content : String} {decision : ApprovalDecision} {w : World}
    {r : ApprovalRequest} (hcontent : w.content (approvalKey sessionId) = some content)
    (hr : addressed J actionId (.ok (some content)) = some r) :
    ∃ es w', Prog.Exec World.step w (approvePrompt J sessionId actionId decision) es w'
      (.ok true) := by
  unfold approvePrompt
  rw [resolveApprovalImpl_eq]
  let payload := J.toString (r.resolve decision.toApprovalState).encode
  refine ⟨[⟨.storeGet (approvalKey sessionId), .ok (some content)⟩,
    ⟨.storeUpsert (approvalKey sessionId) payload, .ok ()⟩],
    w.write (approvalKey sessionId) payload, .op (World.step_read hcontent) ?_⟩
  simp only [hr]
  exact .op (World.step_write _ _ _) .ret

/-- A contract with the given approval and a pending request, on session 1. -/
def gateWorld (approval : ApprovalState) : World :=
  (World.initial.write (specKey "1") (SerdeJson.compact.toString
    (.obj [("tasks", .arr []), ("approval", approval.encode)]))).write (approvalKey "1")
    (SerdeJson.compact.toString
      (ApprovalRequest.encode ⟨"deploy", "", none, [], none⟩))

theorem readsSpec_gateWorld (approval : ApprovalState) :
    ReadsSpec .compact "1" (gateWorld approval) ⟨"", none, [], [], approval, [], false⟩ := by
  rw [readsSpec_iff]
  have hother : (gateWorld approval).content (specKey "1") = _ :=
    World.content_write_other (storeKey_ne_specKey ⟨"1", Or.inl rfl⟩)
  rw [hother, World.content_write, Option.bind_some, specOf, SerdeJson.fromStr_toString]
  cases approval <;> rfl

theorem exec_gateWorld (approval : ApprovalState) (decision : ApprovalDecision) :
    ∃ es w, Prog.Exec World.step (gateWorld approval)
      (approvePrompt .compact "1" "deploy" decision) es w (.ok true) := by
  refine exec_approvePrompt (World.content_write ..) (r := ⟨"deploy", "", none, [], none⟩) ?_
  simp [addressed, Except.toOption, ApprovalRequest.isPending]

/-- An approval of an approved contract. -/
theorem decision_reaches_approved :
    ∃ es w c, Prog.Exec World.step (gateWorld .approved)
        (approvePrompt .compact "1" "deploy" .approve) es w (.ok true) ∧
      ReadsSpec .compact "1" w c ∧ ShowsDecision .approve c := by
  obtain ⟨es, w, hx⟩ := exec_gateWorld .approved .approve
  obtain ⟨c, hc, hshows⟩ :=
    (decision_reaches_gate (readsSpec_gateWorld .approved) hx).mpr rfl w .refl
  exact ⟨es, w, c, hx, hc, hshows⟩

/-- An approval of a pending contract leaves the gate closed. -/
theorem decision_misses_gate :
    ∃ es w c, Prog.Exec World.step (gateWorld .pending)
        (approvePrompt .compact "1" "deploy" .approve) es w (.ok true) ∧
      ReadsSpec .compact "1" w c ∧ ¬ ShowsDecision .approve c ∧ c.mayBeginEdits = false := by
  obtain ⟨es, w, hx⟩ := exec_gateWorld .pending .approve
  refine ⟨es, w, _, hx, (readsSpec_after_decision hx .refl).mpr (readsSpec_gateWorld .pending), ?_,
    rfl⟩
  rw [showsDecision_iff]
  decide

end

end Spectty
