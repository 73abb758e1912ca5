/-
  Spectty.Ui.Decisions

  The plan approval gate, from the request that the pane reads to the decision that
  is written: the spec pane, the commands that it invokes, and the application's main
  thread that runs them, one access of the store at a time.

  Meanwhile the agents may change the store in any way, and the answers of the reads
  arrive in any order.  `decision_law` says of each decision that is written which request
  its command had read, which click it comes from, and what that click was shown;
  `decided_once` that it stands until the agent writes again.
-/

import Spectty.Ui.Panes
import Spectty.Approval.Sequential
import Spectty.Lib.JsonText

namespace Spectty.Ui

open Spectty.Core
open Spectty.Adapters
open Spectty.Approval
open Spectty.Commands
open Spectty.Lib

-- ============================================================================
-- The gate
-- ============================================================================

/-- An `approve_prompt` that was invoked. -/
structure Prompt where
  sessionId : SessionId
  actionId : String
  decision : ApprovalDecision
deriving DecidableEq

namespace Pane

/-- The request that the gate resolves through: one without a resolution. -/
def pendingRequest (pane : Pane) : Option Sourced :=
  (pane.held .approval).filter fun v => ((v.value.get "resolution").getD .null).isNull

/-- The gate is on show. -/
def gateVisible (pane : Pane) : Bool :=
  (pane.held .spec).any fun v => (v.value.get "approval").bind Json.asStr = some "Pending"

/-- A click on a button of the gate, which is disabled without a request. -/
def decide (pane : Pane) (decision : ApprovalDecision) : Option Prompt :=
  if pane.gateVisible then do
    let v ← pane.pendingRequest
    let actionId ← (v.value.get "action_id").bind Json.asStr
    return { sessionId := pane.sessionId, actionId, decision }
  else none

end Pane

/-- The step brings the answer of a `get_approval`. -/
def PaneStep.isApproval : PaneStep → Bool
  | .resolve read _ => read.kind = .getApproval
  | _ => false

/-- The pane, the store, and what is on its way between them.  `answers` are those of
    `get_approval` that have not arrived; `running` is the prompt that the main thread is
    at, with what is left of its command. -/
structure Desk where
  pane : Pane
  world : World
  answers : List (PaneRead × Option ApprovalRequest)
  prompts : List Prompt
  running : Option (Prompt × Prog Sys (Except String Bool))

/-- A step of the pane; an answer of `get_approval`, and its arrival; a click; the start
    of a command, and one step of it; and whatever the agents do. -/
inductive DeskStep where
  | pane (step : PaneStep)
  | answer (read : PaneRead) (faults : World.Faults)
  | arrive (read : PaneRead) (request : Option ApprovalRequest)
  | click (decision : ApprovalDecision)
  | begin (prompt : Prompt)
  | main (faults : World.Faults)
  | outside (world : World)

namespace Desk

section

variable (J : SerdeJson)

/-- A new pane over the store as it is. -/
def start (id : SessionId) (world : World) : Desk where
  pane := .mount id
  world := world
  answers := []
  prompts := []
  running := none

/-- The main thread goes one step on. -/
def main (desk : Desk) (faults : World.Faults) : Desk :=
  match desk.running with
  | none => desk
  | some (_, .ret _) => { desk with running := none }
  | some (prompt, .op o k) =>
      { desk with
        world := (World.handler faults o desk.world).2
        running := some (prompt, k (World.handler faults o desk.world).1) }

/-- The command `get_approval`. -/
def answer (desk : Desk) (read : PaneRead) (faults : World.Faults) : Desk :=
  match (Prog.interp (World.handler faults) (getApprovalImpl J read.sessionId) desk.world).1 with
  | .ok request =>
      { desk with answers := desk.answers ++ [(read, request)] }
  | .error _ => desk

/-- One step. -/
def next (desk : Desk) : DeskStep → Desk
  | .pane step =>
      if step.isApproval then desk
      else { desk with pane := desk.pane.step .specPane step }
  | .answer read faults =>
      if read.kind = .getApproval ∧ read ∈ desk.pane.inFlight then desk.answer J read faults
      else desk
  | .arrive read request =>
      if (read, request) ∈ desk.answers then
        { desk with
          pane := desk.pane.step .specPane
            (.resolve read ((request.map ApprovalRequest.encode).getD .null))
          answers := desk.answers.erase (read, request) }
      else desk
  | .click decision =>
      { desk with prompts := desk.prompts ++ (desk.pane.decide decision).toList }
  | .begin prompt =>
      if desk.running.isNone ∧ prompt ∈ desk.prompts then
        { desk with
          prompts := desk.prompts.erase prompt
          running := some (prompt,
            approvePrompt J prompt.sessionId prompt.actionId prompt.decision) }
      else desk
  | .main faults => desk.main faults
  | .outside world => { desk with world := world }

/-- The desk after some steps. -/
def after (id : SessionId) (world : World) (steps : List DeskStep) : Desk :=
  Machine.run (next J) (start id world) steps

end

end Desk

-- ============================================================================
-- What a click was shown
-- ============================================================================

section

variable (J : SerdeJson) (id : SessionId) (world : World)

/-- The document is the request that was stored for its session when one of the steps
    read it. -/
def Fetched (steps : List DeskStep) (v : Sourced) : Prop :=
  ∃ pre read faults post content request,
    steps = pre ++ .answer read faults :: post ∧
      (Desk.after J id world pre).world.content (approvalKey v.source) = some content ∧
      approvalOf J content = some request ∧ v.value = request.encode

/-- One of the steps is the click that invoked the prompt, on a pane that held `v`. -/
def Clicked (steps : List DeskStep) (prompt : Prompt) (v : Sourced) : Prop :=
  ∃ pre post, steps = pre ++ .click prompt.decision :: post ∧
    (Desk.after J id world pre).pane.decide prompt.decision = some prompt ∧
    (Desk.after J id world pre).pane.pendingRequest = some v ∧ Fetched J id world pre v

/-- What is left of a prompt's command when its read has given `r`: a write of the
    addressed request, if there is one. -/
def afterRead (prompt : Prompt) (r : Except String (Option String)) :
    Prog Sys (Except String Bool) :=
  match addressed J prompt.actionId r with
  | some request =>
      .op (.storeUpsert (approvalKey prompt.sessionId)
        (J.toString (request.resolve prompt.decision.toApprovalState).encode)) fun r =>
          .ret (((r.map fun _ => true).mapError mapHttpErr).mapError PersistenceError.message)
  | none =>
      .ret (((r.map fun _ => false).mapError mapHttpErr).mapError PersistenceError.message)

/-- The last step of the main thread was the read of the prompt's command, which answered
    the request. -/
def ReadBy (steps : List DeskStep) (prompt : Prompt) (request : ApprovalRequest) : Prop :=
  ∃ pre faults post content,
    steps = pre ++ .main faults :: post ∧ (∀ faults', .main faults' ∉ post) ∧
      (Desk.after J id world pre).running =
        some (prompt, approvePrompt J prompt.sessionId prompt.actionId prompt.decision) ∧
      (World.handler faults (.storeGet (approvalKey prompt.sessionId))
        (Desk.after J id world pre).world).1 = .ok (some content) ∧
      approvalOf J content = some request

/-- Where a command stands: before its read, before its write of the addressed request,
    which it has read, or at its end. -/
inductive Stage (prompt : Prompt) (read : ApprovalRequest → Prop) :
    Prog Sys (Except String Bool) → Prop
  | reading :
      Stage prompt read (approvePrompt J prompt.sessionId prompt.actionId prompt.decision)
  | writing (request : ApprovalRequest) (hid : request.actionId = prompt.actionId)
      (hpending : request.isPending = true) (hread : read request)
      (k : Except String Unit → Prog Sys (Except String Bool)) (hk : ∀ r, ∃ a, k r = .ret a) :
      Stage prompt read (.op (.storeUpsert (approvalKey prompt.sessionId)
        (J.toString (request.resolve prompt.decision.toApprovalState).encode)) k)
  | returned (a : Except String Bool) : Stage prompt read (.ret a)

/-- An update that changes the request that is held. -/
def PaneUpdate.ofApproval (value : Sourced) : PaneUpdate → Prop
  | .set slot v => slot = .approval ∧ v = some value
  | .hydrate slot v => slot = .approval ∧ v = value

/-- The requests that a pane holds, and those that are queued, satisfy `P`. -/
structure HoldsOnly (P : Sourced → Prop) (pane : Pane) : Prop where
  held : ∀ v, pane.held .approval = some v → P v
  pending : ∀ update ∈ pane.pending, ∀ v, update.ofApproval v → P v

/-- All that is held, queued or on its way was fetched, and all that was invoked was
    clicked. -/
structure Accounted (steps : List DeskStep) (desk : Desk) : Prop where
  pane : HoldsOnly (Fetched J id world steps) desk.pane
  answers : ∀ read request, (read, some request) ∈ desk.answers →
    Fetched J id world steps ⟨request.encode, read.sessionId⟩
  prompts : ∀ prompt ∈ desk.prompts, ∃ v, Clicked J id world steps prompt v
  running : ∀ prompt p, desk.running = some (prompt, p) →
    (∃ v, Clicked J id world steps prompt v) ∧
      Stage J prompt (ReadBy J id world steps prompt) p

end

-- ============================================================================
-- The pane
-- ============================================================================

section

variable {J : SerdeJson} {id : SessionId} {world : World} {steps rest : List DeskStep}
  {desk : Desk} {v : Sourced} {prompt : Prompt} {c : DeskStep} {faults : World.Faults}
  {prev : Held} {update : PaneUpdate} {pane : Pane} {kind : PaneKind}

theorem Fetched.append (h : Fetched J id world steps v) : Fetched J id world (steps ++ rest) v := by
  obtain ⟨pre, read, faults, post, content, request, rfl, hfetched⟩ := h
  exact ⟨pre, read, faults, post ++ rest, content, request, by simp, hfetched⟩

theorem ReadBy.append {request : ApprovalRequest} (h : ReadBy J id world steps prompt request)
    (hrest : ∀ faults, .main faults ∉ rest) : ReadBy J id world (steps ++ rest) prompt request := by
  obtain ⟨pre, faults, post, content, rfl, hpost, hread⟩ := h
  refine ⟨pre, faults, post ++ rest, content, by simp, fun faults' hmem => ?_, hread⟩
  rcases List.mem_append.mp hmem with hold | hnew
  · exact hpost faults' hold
  · exact hrest faults' hnew

theorem Stage.mono {read read' : ApprovalRequest → Prop} {p : Prog Sys (Except String Bool)}
    (h : Stage J prompt read p) (hread : ∀ request, read request → read' request) :
    Stage J prompt read' p := by
  cases h with
  | reading => exact .reading
  | writing request hid hpending hrequest k hk =>
      exact .writing request hid hpending (hread request hrequest) k hk
  | returned a => exact .returned a

theorem Clicked.append (h : Clicked J id world steps prompt v) :
    Clicked J id world (steps ++ rest) prompt v := by
  obtain ⟨pre, post, rfl, hclicked⟩ := h
  exact ⟨pre, post ++ rest, by simp, hclicked⟩

/-- What is held of requests was held, or an update brings it. -/
theorem apply_approval (h : prev.apply update .approval = some v) :
    prev .approval = some v ∨ update.ofApproval v := by
  cases update with
  | set slot value =>
      by_cases hslot : slot = .approval
      · subst hslot
        rw [Held.apply, Function.update_self] at h
        exact Or.inr ⟨rfl, h⟩
      · rw [Held.apply, Function.update_of_ne (Ne.symm hslot)] at h
        exact Or.inl h
  | hydrate slot value =>
      rw [Held.apply] at h
      split at h
      · by_cases hslot : slot = .approval
        · subst hslot
          rw [Function.update_self] at h
          exact Or.inr ⟨rfl, Option.some.inj h⟩
        · rw [Function.update_of_ne (Ne.symm hslot)] at h
          exact Or.inl h
      · exact Or.inl h

theorem foldl_apply_approval {updates : List PaneUpdate}
    (h : updates.foldl Held.apply prev .approval = some v) :
    prev .approval = some v ∨ ∃ update ∈ updates, update.ofApproval v := by
  induction updates generalizing prev with
  | nil => exact Or.inl h
  | cons update updates ih =>
      rcases ih h with hprev | ⟨later, hmem, hlater⟩
      · rcases apply_approval hprev with hprev | hnow
        · exact Or.inl hprev
        · exact Or.inr ⟨update, by simp, hnow⟩
      · exact Or.inr ⟨later, by simp [hmem], hlater⟩

/-- Only the answer of a `get_approval` brings a request. -/
theorem ofApproval_update {readKind : ReadKind} {result : Sourced}
    (h : update ∈ readKind.update result) (hv : update.ofApproval v) :
    readKind = .getApproval ∧ v = result ∧ result.value.isNull = false := by
  cases readKind with
  | getApproval =>
      cases hnull : result.value.isNull with
      | true =>
          simp only [ReadKind.update, hnull, if_true, Option.mem_some_iff] at h
          subst h
          exact absurd hv.2 (by simp)
      | false =>
          simp only [ReadKind.update, hnull, Bool.false_eq_true, if_false,
            Option.mem_some_iff] at h
          subst h
          exact ⟨rfl, (Option.some.inj hv.2).symm, rfl⟩
  | getSpec =>
      obtain ⟨-, heq⟩ := Option.ite_none_right_eq_some.mp h
      cases Option.some.inj heq
      exact absurd hv.1 (by simp)
  | getDiffExplanation =>
      obtain ⟨-, heq⟩ := Option.ite_none_right_eq_some.mp h
      cases Option.some.inj heq
      exact absurd hv.1 (by simp)
  | refresh =>
      obtain ⟨-, heq⟩ := Option.ite_none_right_eq_some.mp h
      cases Option.some.inj heq
      exact absurd hv.1 (by simp)

/-- No event brings one. -/
theorem not_ofApproval_handle {sessionIdRef : SessionId} {event : PaneEvent}
    (h : update ∈ (kind.handle sessionIdRef event).1) : ¬ update.ofApproval v := by
  have hset : ∀ slot value, slot ≠ Slot.approval → update = .set slot value →
      ¬ update.ofApproval v := by
    rintro slot value hslot rfl ⟨happroval, -⟩
    exact hslot happroval
  unfold PaneKind.handle at h
  split at h
  · split at h
    · exact hset _ _ (by simp) (List.mem_singleton.mp h)
    · simp at h
  · split at h <;> simp at h
  · split at h
    · exact hset _ _ (by simp) (List.mem_singleton.mp h)
    · simp at h
  · simp at h
  · simp at h

theorem HoldsOnly.mono {P Q : Sourced → Prop} (h : HoldsOnly P pane) (hPQ : ∀ v, P v → Q v) :
    HoldsOnly Q pane where
  held := fun v hv => hPQ v (h.held v hv)
  pending := fun update hmem v hv => hPQ v (h.pending update hmem v hv)

theorem HoldsOnly.runEffect {P : Sourced → Prop} (h : HoldsOnly P pane) :
    HoldsOnly P (pane.runEffect kind) where
  held := by simpa using h.held
  pending := by simpa using h.pending

/-- A step of the pane holds what was held, and what an answer brings. -/
theorem HoldsOnly.step {P : Sourced → Prop} {step : PaneStep} (h : HoldsOnly P pane)
    (hstep : ∀ read result, step = .resolve read result → read.kind = .getApproval →
      result.isNull = false → P ⟨result, read.sessionId⟩) :
    HoldsOnly P (pane.step kind step) := by
  cases step with
  | render sessionId =>
      have heffect : HoldsOnly P (pane.runEffect kind) := h.runEffect
      refine ⟨fun v hv => ?_, fun update hmem => absurd hmem List.not_mem_nil⟩
      rcases foldl_apply_approval hv with hheld | ⟨update, hmem, hv⟩
      · exact heffect.held v hheld
      · exact heffect.pending update hmem v hv
  | runEffect => exact h.runEffect
  | resolve read result =>
      rw [Pane.step]
      split
      case isFalse => exact h
      case isTrue =>
          refine ⟨h.held, fun update hmem v hv => ?_⟩
          rcases List.mem_append.mp hmem with hold | hnew
          · exact h.pending update hold v hv
          · split at hnew
            · obtain ⟨hkind, rfl, hnull⟩ := ofApproval_update (Option.mem_toList.mp hnew) hv
              exact hstep read result rfl hkind hnull
            · simp at hnew
  | event effect event =>
      rw [Pane.step]
      split
      case isFalse => exact h
      case isTrue =>
          refine ⟨h.held, fun update hmem v hv => ?_⟩
          rcases List.mem_append.mp hmem with hold | hnew
          · exact h.pending update hold v hv
          · exact absurd hv (not_ofApproval_handle hnew)

-- ============================================================================
-- The command
-- ============================================================================

theorem approvePrompt_eq (J : SerdeJson) (prompt : Prompt) :
    approvePrompt J prompt.sessionId prompt.actionId prompt.decision =
      .op (.storeGet (approvalKey prompt.sessionId)) (afterRead J prompt) := by
  rw [approvePrompt, resolveApprovalImpl_eq]
  simp only [Prog.op_bind]
  congr 1
  funext r
  unfold afterRead
  cases addressed J prompt.actionId r <;> rfl

theorem stage_afterRead (prompt : Prompt) {read : ApprovalRequest → Prop}
    {r : Except String (Option String)}
    (hread : ∀ content request, r = .ok (some content) → approvalOf J content = some request →
      read request) : Stage J prompt read (afterRead J prompt r) := by
  unfold afterRead
  cases haddressed : addressed J prompt.actionId r with
  | none => exact .returned _
  | some request =>
      obtain ⟨content, hcontent, hrequest, hid, hpending⟩ := addressed_eq_some haddressed
      exact .writing request hid hpending (hread content request hcontent hrequest) _
        fun r => ⟨_, rfl⟩

/-- What a read answers is stored. -/
theorem content_of_storeGet {key content : String}
    (h : (World.handler faults (.storeGet key) world).1 = .ok (some content)) :
    world.content key = some content := by
  cases hget : faults.get with
  | some msg => simp [World.handler, hget] at h
  | none => simpa [World.handler, hget] using h

/-- A step of the main thread: nothing runs, it reads, it writes the decision, the write
    is refused, or the command is over. -/
inductive MainStep (J : SerdeJson) (faults : World.Faults)
    (read : Prompt → ApprovalRequest → Prop) (desk : Desk) : Desk → Prop
  | idle (hrunning : desk.running = none) : MainStep J faults read desk desk
  | read (prompt : Prompt)
      (hrunning : desk.running =
        some (prompt, approvePrompt J prompt.sessionId prompt.actionId prompt.decision)) :
      MainStep J faults read desk
        { desk with
          running := some (prompt, afterRead J prompt
            (World.handler faults (.storeGet (approvalKey prompt.sessionId)) desk.world).1) }
  | write (prompt : Prompt) (request : ApprovalRequest) (a : Except String Bool)
      (k : Except String Unit → Prog Sys (Except String Bool))
      (hrunning : desk.running = some (prompt, .op (.storeUpsert (approvalKey prompt.sessionId)
        (J.toString (request.resolve prompt.decision.toApprovalState).encode)) k))
      (hid : request.actionId = prompt.actionId) (hpending : request.isPending = true)
      (hread : read prompt request) :
      MainStep J faults read desk
        { desk with
          world := desk.world.write (approvalKey prompt.sessionId)
            (J.toString (request.resolve prompt.decision.toApprovalState).encode)
          running := some (prompt, .ret a) }
  | refused (prompt : Prompt) (a : Except String Bool) (p : Prog Sys (Except String Bool))
      (hrunning : desk.running = some (prompt, p)) :
      MainStep J faults read desk { desk with running := some (prompt, .ret a) }
  | returned : MainStep J faults read desk { desk with running := none }

theorem mainStep {read : Prompt → ApprovalRequest → Prop}
    (hstage : ∀ prompt p, desk.running = some (prompt, p) → Stage J prompt (read prompt) p)
    (faults : World.Faults) : MainStep J faults read desk (desk.main faults) := by
  cases hrunning : desk.running with
  | none =>
      have hnext : desk.main faults = desk := by simp [Desk.main, hrunning]
      rw [hnext]
      exact .idle hrunning
  | some entry =>
      obtain ⟨prompt, p⟩ := entry
      cases hstage prompt p hrunning with
      | reading =>
          have hnext : desk.main faults =
              { desk with
                running := some (prompt, afterRead J prompt
                  (World.handler faults (.storeGet (approvalKey prompt.sessionId))
                    desk.world).1) } := by
            rw [approvePrompt_eq] at hrunning
            cases hget : faults.get <;> simp [Desk.main, hrunning, World.handler, hget]
          rw [hnext]
          exact .read prompt hrunning
      | writing request hid hpending hread k hk =>
          cases hput : faults.upsert with
          | some msg =>
              obtain ⟨a, ha⟩ := hk (.error msg)
              have hnext : desk.main faults =
                  { desk with running := some (prompt, .ret a) } := by
                simp [Desk.main, hrunning, World.handler, hput, ha]
              rw [hnext]
              exact .refused prompt a _ hrunning
          | none =>
              obtain ⟨a, ha⟩ := hk (.ok ())
              have hnext : desk.main faults =
                  { desk with
                    world := desk.world.write (approvalKey prompt.sessionId)
                      (J.toString (request.resolve prompt.decision.toApprovalState).encode)
                    running := some (prompt, .ret a) } := by
                simp [Desk.main, hrunning, World.handler, hput, ha]
              rw [hnext]
              exact .write prompt request a k hrunning hid hpending hread
      | returned a =>
          have hnext : desk.main faults = { desk with running := none } := by
            simp [Desk.main, hrunning]
          rw [hnext]
          exact .returned

-- ============================================================================
-- A run
-- ============================================================================

theorem after_concat : Desk.after J id world (steps ++ [c]) =
    (Desk.after J id world steps).next J c := Machine.run_concat

/-- What is accounted for stays so when nothing is added. -/
theorem Accounted.append (h : Accounted J id world steps desk)
    (hrest : ∀ faults, .main faults ∉ rest) : Accounted J id world (steps ++ rest) desk where
  pane := h.pane.mono fun _ hv => hv.append
  answers := fun read request hmem => (h.answers read request hmem).append
  prompts := fun prompt hmem => (h.prompts prompt hmem).imp fun _ hv => hv.append
  running := fun prompt p hrunning =>
    ⟨(h.running prompt p hrunning).1.imp fun _ hv => hv.append,
      (h.running prompt p hrunning).2.mono fun _ hread => hread.append hrest⟩

/-- The answer of a `get_approval` is what was stored. -/
theorem fetched_answer {read : PaneRead} {request : ApprovalRequest}
    (h : (Prog.interp (World.handler faults) (getApprovalImpl J read.sessionId)
      (Desk.after J id world steps).world).1 = .ok (some request)) :
    Fetched J id world (steps ++ [.answer read faults]) ⟨request.encode, read.sessionId⟩ := by
  rw [interp_getApprovalImpl] at h
  cases hget : faults.get with
  | some msg => simp [hget] at h
  | none =>
      rw [hget] at h
      obtain ⟨content, hcontent, hrequest⟩ := Option.bind_eq_some_iff.mp (Except.ok.inj h)
      exact ⟨steps, read, faults, [], content, request, rfl, hcontent, hrequest, rfl⟩

/-- What a click says of the pane. -/
theorem decide_eq_some {decision : ApprovalDecision} (h : pane.decide decision = some prompt) :
    pane.gateVisible = true ∧ prompt.sessionId = pane.sessionId ∧ prompt.decision = decision ∧
      ∃ v, pane.pendingRequest = some v ∧
        (v.value.get "action_id").bind Json.asStr = some prompt.actionId := by
  unfold Pane.decide at h
  split at h
  case isFalse => cases h
  case isTrue hvisible =>
      obtain ⟨v, hv, h⟩ := Option.bind_eq_some_iff.mp h
      obtain ⟨actionId, haction, h⟩ := Option.bind_eq_some_iff.mp h
      obtain rfl := Option.some.inj h
      exact ⟨hvisible, rfl, rfl, v, hv, haction⟩

theorem held_of_pendingRequest (h : pane.pendingRequest = some v) :
    pane.held .approval = some v ∧ ((v.value.get "resolution").getD .null).isNull = true :=
  Option.filter_eq_some_iff.mp h

/-- A click of the gate. -/
theorem clicked_decide {decision : ApprovalDecision}
    (h : Accounted J id world steps (Desk.after J id world steps))
    (hdecide : (Desk.after J id world steps).pane.decide decision = some prompt) :
    ∃ v, Clicked J id world (steps ++ [.click decision]) prompt v := by
  obtain ⟨-, -, rfl, v, hv, -⟩ := decide_eq_some hdecide
  have hheld := (held_of_pendingRequest hv).1
  exact ⟨v, steps, [], rfl, hdecide, hv, h.pane.held v hheld⟩

/-- A step of the main thread invokes nothing, and what a command is to write it has read. -/
theorem Accounted.main (h : Accounted J id world steps (Desk.after J id world steps))
    (faults : World.Faults) :
    Accounted J id world (steps ++ [.main faults]) ((Desk.after J id world steps).main faults) := by
  have hclicked : ∀ prompt p, (Desk.after J id world steps).running = some (prompt, p) →
      ∃ v, Clicked J id world (steps ++ [.main faults]) prompt v := by
    intro prompt p hrunning
    exact (h.running prompt p hrunning).1.imp fun _ hv => hv.append
  have hmain := mainStep (fun prompt p hrunning => (h.running prompt p hrunning).2) faults
  -- the pane and what is on its way are as before
  have hframe : ∀ desk' : Desk, desk'.pane = (Desk.after J id world steps).pane →
      desk'.answers = (Desk.after J id world steps).answers →
      desk'.prompts = (Desk.after J id world steps).prompts →
      (∀ prompt p, desk'.running = some (prompt, p) →
        (∃ v, Clicked J id world (steps ++ [.main faults]) prompt v) ∧
          Stage J prompt (ReadBy J id world (steps ++ [.main faults]) prompt) p) →
      Accounted J id world (steps ++ [.main faults]) desk' := by
    intro desk' hpane hanswers hprompts hrunning
    refine ⟨?_, fun read request hmem => ?_, fun prompt hmem => ?_, hrunning⟩
    · rw [hpane]
      exact h.pane.mono fun _ hv => hv.append
    · exact (h.answers read request (hanswers ▸ hmem)).append
    · exact (h.prompts prompt (hprompts ▸ hmem)).imp fun _ hv => hv.append
  generalize (Desk.after J id world steps).main faults = desk' at hmain ⊢
  cases hmain with
  | idle hrunning =>
      refine hframe _ rfl rfl rfl fun prompt p hnow => ?_
      rw [hrunning] at hnow
      cases hnow
  | read prompt hrunning =>
      refine hframe _ rfl rfl rfl fun prompt' p' hnow => ?_
      obtain ⟨rfl, rfl⟩ := Prod.mk.inj (Option.some.inj hnow)
      refine ⟨hclicked prompt _ hrunning, stage_afterRead prompt fun content request hr hof => ?_⟩
      exact ⟨steps, faults, [], content, rfl, fun _ => List.not_mem_nil, hrunning, hr, hof⟩
  | write prompt request a k hrunning =>
      refine hframe _ rfl rfl rfl fun prompt' p' hnow => ?_
      obtain ⟨rfl, rfl⟩ := Prod.mk.inj (Option.some.inj hnow)
      exact ⟨hclicked prompt _ hrunning, .returned a⟩
  | refused prompt a p hrunning =>
      refine hframe _ rfl rfl rfl fun prompt' p' hnow => ?_
      obtain ⟨rfl, rfl⟩ := Prod.mk.inj (Option.some.inj hnow)
      exact ⟨hclicked prompt p hrunning, .returned a⟩
  | returned => exact hframe _ rfl rfl rfl fun _ _ hnow => nomatch hnow

/-- Each step keeps the account. -/
theorem Accounted.next (h : Accounted J id world steps (Desk.after J id world steps))
    (c : DeskStep) :
    Accounted J id world (steps ++ [c]) ((Desk.after J id world steps).next J c) := by
  by_cases hmain : ∃ faults, c = .main faults
  · obtain ⟨faults, rfl⟩ := hmain
    exact h.main faults
  have hkeep : Accounted J id world (steps ++ [c]) (Desk.after J id world steps) :=
    h.append fun faults hmem => hmain ⟨faults, (List.mem_singleton.mp hmem).symm⟩
  cases c with
  | pane step =>
      rw [Desk.next]
      split
      case isTrue => exact hkeep
      case isFalse hother =>
          refine { hkeep with pane := hkeep.pane.step fun read result hstep hkind _ => ?_ }
          subst hstep
          exact absurd (by simpa [PaneStep.isApproval] using hkind) hother
  | answer read faults =>
      rw [Desk.next]
      split
      case isFalse => exact hkeep
      case isTrue =>
          unfold Desk.answer
          split
          case h_2 => exact hkeep
          case h_1 request hanswer =>
              refine { hkeep with answers := fun read' request' hmem => ?_ }
              rcases List.mem_append.mp hmem with hold | hnew
              · exact hkeep.answers read' request' hold
              · obtain ⟨rfl, rfl⟩ := Prod.mk.inj (List.mem_singleton.mp hnew)
                exact fetched_answer hanswer
  | arrive read request =>
      rw [Desk.next]
      split
      case isFalse => exact hkeep
      case isTrue hmem =>
          have hpane : HoldsOnly (Fetched J id world (steps ++ [.arrive read request]))
              ((Desk.after J id world steps).pane.step .specPane
                (.resolve read ((request.map ApprovalRequest.encode).getD .null))) := by
            refine hkeep.pane.step fun read' result hstep _ hnull => ?_
            obtain ⟨rfl, rfl⟩ := PaneStep.resolve.inj hstep
            cases request with
            | none => simp [Json.isNull] at hnull
            | some request => exact hkeep.answers read request hmem
          refine { hkeep with pane := hpane, answers := fun read' request' hmem' => ?_ }
          exact hkeep.answers read' request' (List.mem_of_mem_erase hmem')
  | click decision =>
      refine { hkeep with prompts := fun prompt hmem => ?_ }
      rcases List.mem_append.mp hmem with hold | hnew
      · exact hkeep.prompts prompt hold
      · exact clicked_decide h (Option.mem_toList.mp hnew)
  | begin prompt =>
      rw [Desk.next]
      split
      case isFalse => exact hkeep
      case isTrue hbegin =>
          refine { hkeep with
            prompts := fun prompt' hmem => hkeep.prompts prompt' (List.mem_of_mem_erase hmem)
            running := fun prompt' p hrunning => ?_ }
          obtain ⟨rfl, rfl⟩ := Prod.mk.inj (Option.some.inj hrunning)
          exact ⟨hkeep.prompts prompt hbegin.2, .reading⟩
  | main faults => exact absurd ⟨faults, rfl⟩ hmain
  | outside world' => exact { hkeep with }

theorem accounted_after (steps : List DeskStep) :
    Accounted J id world steps (Desk.after J id world steps) := by
  induction steps using List.reverseRecOn with
  | nil =>
      constructor
      case pane => exact ⟨by simp [Desk.after, Desk.start, Pane.mount], by
        simp [Desk.after, Desk.start, Pane.mount]⟩
      case answers => simp [Desk.after, Desk.start]
      case prompts => simp [Desk.after, Desk.start]
      case running => simp [Desk.after, Desk.start]
  | append_singleton steps c ih =>
      rw [after_concat]
      exact ih.next c

-- ============================================================================
-- What a decision comes from
-- ============================================================================

/-- The step of the pane, if the step is one, fits. -/
def Desk.Fits (desk : Desk) : DeskStep → Prop
  | .pane step => desk.pane.Fits step
  | .arrive read request =>
      desk.pane.Fits (.resolve read ((request.map ApprovalRequest.encode).getD .null))
  | _ => True

/-- Where each step fits, the pane holds what is of its session. -/
theorem owned_after
    (h : Machine.Along (Desk.next J) Desk.Fits (.start id world) steps) :
    Pane.Owned (Desk.after J id world steps).pane := by
  induction steps using List.reverseRecOn with
  | nil => exact ⟨by simp [Desk.after, Desk.start, Pane.mount], by
      simp [Desk.after, Desk.start, Pane.mount]⟩
  | append_singleton steps c ih =>
      obtain ⟨hsteps, hfits⟩ := Machine.along_concat.mp h
      have howned := ih hsteps
      rw [after_concat]
      cases c with
      | pane step =>
          rw [Desk.next]
          split
          · exact howned
          · exact (Pane.owned_step_iff howned step).mpr hfits
      | arrive read request =>
          rw [Desk.next]
          split
          · have harrive : Pane.Owned ((Desk.after J id world steps).pane.step .specPane
                (.resolve read ((request.map ApprovalRequest.encode).getD .null))) :=
              (Pane.owned_step_iff howned _).mpr hfits
            exact harrive
          · exact howned
      | answer read faults =>
          rw [Desk.next]
          split
          · unfold Desk.answer
            split <;> exact howned
          · exact howned
      | click decision => exact howned
      | begin prompt =>
          rw [Desk.next]
          split <;> exact howned
      | main faults =>
          show Pane.Owned ((Desk.after J id world steps).main faults).pane
          unfold Desk.main
          split <;> exact howned
      | outside world => exact howned

theorem get_encode_resolution (request : ApprovalRequest) :
    request.encode.get "resolution" =
      some ((request.resolution.map ApprovalState.encode).getD .null) := by
  obtain ⟨actionId, description, riskLevel, options, resolution⟩ := request
  cases riskLevel <;>
    simp [ApprovalRequest.encode, ApprovalRequest.members, List.lookup_cons]

theorem get_encode_actionId (request : ApprovalRequest) :
    request.encode.get "action_id" = some (.str request.actionId) := by
  simp [ApprovalRequest.encode, ApprovalRequest.members]

/-- The request that a click was shown, which was pending when it was read. -/
theorem Clicked.shown (h : Clicked J id world steps prompt v) :
    ∃ shown : ApprovalRequest, v.value = shown.encode ∧ shown.actionId = prompt.actionId ∧
      shown.isPending = true := by
  obtain ⟨pre, post, -, hdecide, hv, -, -, -, -, -, shown, -, -, -, hvalue⟩ := h
  obtain ⟨-, -, -, v', hv', haction⟩ := decide_eq_some hdecide
  obtain rfl := Option.some.inj (hv'.symm.trans hv)
  have hnull := (held_of_pendingRequest hv).2
  rw [hvalue] at haction hnull
  rw [get_encode_actionId] at haction
  rw [get_encode_resolution] at hnull
  refine ⟨shown, hvalue, Option.some.inj haction, ?_⟩
  cases hresolution : shown.resolution with
  | none => simp [ApprovalRequest.isPending, hresolution]
  | some state =>
      cases state <;> simp [hresolution, ApprovalState.encode, Json.isNull] at hnull

/-- Where each step fits, it was a request of the prompt's session. -/
theorem Clicked.source (h : Clicked J id world steps prompt v)
    (hfits : Machine.Along (Desk.next J) Desk.Fits (.start id world) steps) :
    v.source = prompt.sessionId := by
  obtain ⟨pre, post, rfl, hdecide, hv, -⟩ := h
  have howned := owned_after (hfits.of_prefix (List.prefix_append pre _))
  obtain ⟨-, hsession, -⟩ := decide_eq_some hdecide
  rw [hsession]
  exact howned.held .approval v (held_of_pendingRequest hv).1

end

/-- A decision that is written: it resolves a pending request of the prompt's action, which
    the prompt's command read in the step of the main thread before; the prompt comes from a
    click, at which the pane showed a pending request of that action; and this was a request
    of the prompt's own session if each step fitted. -/
structure Decision (J : SerdeJson) (id : SessionId) (world : World) (steps : List DeskStep)
    (world' : World) (prompt : Prompt) (request shown : ApprovalRequest) (v : Sourced) :
    Prop where
  written : world' = (Desk.after J id world steps).world.write (approvalKey prompt.sessionId)
    (J.toString (request.resolve prompt.decision.toApprovalState).encode)
  read : ReadBy J id world steps prompt request
  addressed : request.actionId = prompt.actionId ∧ request.isPending = true
  clicked : Clicked J id world steps prompt v
  shown : v.value = shown.encode ∧ shown.actionId = prompt.actionId ∧ shown.isPending = true
  own : Machine.Along (Desk.next J) Desk.Fits (.start id world) steps →
    v.source = prompt.sessionId

/-- In every run, a step of the main thread leaves the store as it is or writes the
    decision of a click. -/
theorem decision_law (J : SerdeJson) (id : SessionId) (world : World) (steps : List DeskStep)
    (faults : World.Faults) :
    ((Desk.after J id world steps).main faults).world = (Desk.after J id world steps).world ∨
      ∃ prompt request shown v, Decision J id world steps
        ((Desk.after J id world steps).main faults).world prompt request shown v := by
  have haccount : Accounted J id world steps _ := accounted_after steps
  have hmain := mainStep (fun prompt p hrunning => (haccount.running prompt p hrunning).2) faults
  generalize hdesk : (Desk.after J id world steps).main faults = desk' at hmain ⊢
  clear hdesk
  cases hmain with
  | idle => exact Or.inl rfl
  | read => exact Or.inl rfl
  | refused => exact Or.inl rfl
  | returned => exact Or.inl rfl
  | write prompt request a k hrunning hid hpending hread =>
      obtain ⟨⟨v, hclicked⟩, -⟩ := haccount.running prompt _ hrunning
      obtain ⟨shown, hshown⟩ := hclicked.shown
      exact Or.inr ⟨prompt, request, shown, v, rfl, hread, ⟨hid, hpending⟩, hclicked, hshown,
        hclicked.source⟩

-- ============================================================================
-- How long a decision stands
-- ============================================================================

section

variable {J : SerdeJson} {id : SessionId} {world : World} {steps : List DeskStep}
  {desk desk' : Desk} {prompt : Prompt} {c : DeskStep} {faults : World.Faults} {key : String}

/-- The document is not pending, and no command is about to write it. -/
structure Decided (J : SerdeJson) (key : String) (desk : Desk) : Prop where
  resolved : ∀ content request, desk.world.content key = some content →
    approvalOf J content = some request → request.isPending = false
  quiet : ∀ prompt key' payload k, desk.running = some (prompt, .op (.storeUpsert key' payload) k) →
    storeKey key' ≠ storeKey key

/-- A step of the outside leaves the document as it is. -/
def Desk.Leaves (key : String) (desk : Desk) : DeskStep → Prop
  | .outside world => world.content key = desk.world.content key
  | _ => True

/-- The main thread does not touch a document that is decided. -/
theorem Decided.main {read : Prompt → ApprovalRequest → Prop} (h : Decided J key desk)
    (hmain : MainStep J faults read desk desk') :
    Decided J key desk' ∧ desk'.world.content key = desk.world.content key := by
  cases hmain with
  | idle => exact ⟨h, rfl⟩
  | refused prompt a p hrunning =>
      exact ⟨{ h with quiet := fun _ _ _ _ hnow => nomatch hnow }, rfl⟩
  | returned => exact ⟨{ h with quiet := fun _ _ _ _ hnow => nomatch hnow }, rfl⟩
  | read prompt hrunning =>
      refine ⟨{ h with quiet := fun prompt' key' payload k hnow hkey => ?_ }, rfl⟩
      have hafter := (Prod.mk.inj (Option.some.inj hnow)).2
      unfold afterRead at hafter
      cases haddressed : addressed J prompt.actionId
          (World.handler faults (.storeGet (approvalKey prompt.sessionId)) desk.world).1 with
      | none =>
          rw [haddressed] at hafter
          cases hafter
      | some request =>
          obtain ⟨content, hcontent, hrequest, -, hpending⟩ := addressed_eq_some haddressed
          rw [haddressed] at hafter
          cases hafter
          have hstored : desk.world.content key = some content := by
            rw [World.content, ← hkey]
            exact content_of_storeGet hcontent
          have hresolved := h.resolved content request hstored hrequest
          rw [hpending] at hresolved
          cases hresolved
  | write prompt request a k hrunning hid hpending hread =>
      have hne := h.quiet prompt _ _ k hrunning
      have hcontent : (desk.world.write (approvalKey prompt.sessionId)
          (J.toString (request.resolve prompt.decision.toApprovalState).encode)).content key =
            desk.world.content key := World.content_write_other hne
      refine ⟨⟨fun content request hnow => ?_, fun _ _ _ _ hnow => nomatch hnow⟩, hcontent⟩
      exact h.resolved content request (hcontent.symm.trans hnow)

/-- The document that a command has written is decided. -/
theorem decided_of_written {request : ApprovalRequest} {decision : ApprovalState}
    {a : Except String Bool} (hrunning : desk.running = some (prompt, .ret a))
    (hcontent : desk.world.content key = some (J.toString (request.resolve decision).encode)) :
    Decided J key desk where
  resolved := by
    intro content request' hstored hof
    obtain rfl := Option.some.inj (hcontent.symm.trans hstored)
    rw [approvalOf_encode] at hof
    obtain rfl := Option.some.inj hof
    exact request.isPending_resolve decision
  quiet := by
    intro prompt' key' payload k hnow
    cases hrunning.symm.trans hnow

/-- Nothing but the outside changes a document that is decided. -/
theorem Decided.next {read : Prompt → ApprovalRequest → Prop} (h : Decided J key desk)
    (hstage : ∀ prompt p, desk.running = some (prompt, p) → Stage J prompt (read prompt) p)
    (hleaves : desk.Leaves key c) :
    Decided J key (desk.next J c) ∧
      (desk.next J c).world.content key = desk.world.content key := by
  cases c with
  | pane step =>
      rw [Desk.next]
      split
      · exact ⟨h, rfl⟩
      · exact ⟨{ h with }, rfl⟩
  | answer read faults =>
      rw [Desk.next]
      split
      · unfold Desk.answer
        split
        · exact ⟨{ h with }, rfl⟩
        · exact ⟨h, rfl⟩
      · exact ⟨h, rfl⟩
  | arrive read request =>
      rw [Desk.next]
      split
      · exact ⟨{ h with }, rfl⟩
      · exact ⟨h, rfl⟩
  | click decision => exact ⟨{ h with }, rfl⟩
  | begin prompt =>
      rw [Desk.next]
      split
      · refine ⟨{ h with quiet := fun prompt' key' payload k hnow => ?_ }, rfl⟩
        rw [approvePrompt_eq] at hnow
        cases hnow
      · exact ⟨h, rfl⟩
  | main faults => exact h.main (mainStep hstage faults)
  | outside world' =>
      refine ⟨⟨fun content request hnow => ?_, h.quiet⟩, hleaves⟩
      exact h.resolved content request (hleaves.symm.trans hnow)

theorem decided_run (h : Decided J key (Desk.after J id world steps)) (rest : List DeskStep)
    (hleaves : Machine.Along (Desk.next J) (Desk.Leaves key) (Desk.after J id world steps) rest) :
    (Desk.after J id world (steps ++ rest)).world.content key =
      (Desk.after J id world steps).world.content key := by
  suffices hboth : Decided J key (Desk.after J id world (steps ++ rest)) ∧
      (Desk.after J id world (steps ++ rest)).world.content key =
        (Desk.after J id world steps).world.content key from hboth.2
  induction rest using List.reverseRecOn with
  | nil =>
      rw [List.append_nil]
      exact ⟨h, rfl⟩
  | append_singleton rest c ih =>
      obtain ⟨hrest, hlast⟩ := Machine.along_concat.mp hleaves
      obtain ⟨hdecided, hcontent⟩ := ih hrest
      have haccount : Accounted J id world (steps ++ rest) _ := accounted_after (steps ++ rest)
      have hleaf : (Desk.after J id world (steps ++ rest)).Leaves key c := by
        rw [Desk.after, Machine.run_append]
        exact hlast
      rw [← List.append_assoc, after_concat, ← hcontent]
      exact hdecided.next (fun prompt p hrunning => (haccount.running prompt p hrunning).2) hleaf

end

/-- A step of the main thread that changes an approval document writes the decision of a
    click.  The sidecar reads that decision from it, for that action only; and until the
    agents change it the document stays as it was written, whatever was and is clicked and
    run. -/
theorem decided_once (J : SerdeJson) (id : SessionId) (world : World) (steps : List DeskStep)
    (faults : World.Faults) (key : String)
    (hchanged : (Desk.after J id world (steps ++ [.main faults])).world.content key ≠
      (Desk.after J id world steps).world.content key) :
    ∃ prompt v content, Clicked J id world steps prompt v ∧
      (Desk.after J id world (steps ++ [.main faults])).world.content key = some content ∧
      (∀ actionId, Mcp.resolutionOf J content actionId =
        if prompt.actionId = actionId then some prompt.decision.toApprovalState.wire else none) ∧
      ∀ rest, Machine.Along (Desk.next J) (Desk.Leaves key)
          (Desk.after J id world (steps ++ [.main faults])) rest →
        (Desk.after J id world (steps ++ .main faults :: rest)).world.content key =
          some content := by
  have haccount : Accounted J id world steps _ := accounted_after steps
  have hmain := mainStep (fun prompt p hrunning => (haccount.running prompt p hrunning).2) faults
  have hafter : Desk.after J id world (steps ++ [.main faults]) =
      (Desk.after J id world steps).main faults := after_concat
  generalize hdesk : (Desk.after J id world steps).main faults = desk' at hmain hafter
  clear hdesk
  rw [hafter] at hchanged
  cases hmain with
  | idle => exact absurd rfl hchanged
  | read => exact absurd rfl hchanged
  | refused => exact absurd rfl hchanged
  | returned => exact absurd rfl hchanged
  | write prompt request a k hrunning hid hpending hread =>
      obtain ⟨⟨v, hclicked⟩, -⟩ := haccount.running prompt _ hrunning
      have hkey : storeKey (approvalKey prompt.sessionId) = storeKey key := by
        by_contra hne
        exact hchanged (World.content_write_other hne)
      have hcontent : (Desk.after J id world (steps ++ [.main faults])).world.content key =
          some (J.toString (request.resolve prompt.decision.toApprovalState).encode) := by
        rw [hafter, World.content, ← hkey]
        exact World.content_write ..
      have hdecided : Decided J key (Desk.after J id world (steps ++ [.main faults])) :=
        decided_of_written (by rw [hafter]) hcontent
      refine ⟨prompt, v, J.toString (request.resolve prompt.decision.toApprovalState).encode,
        hclicked, hcontent, fun actionId => ?_, fun rest hleaves => ?_⟩
      · rw [resolutionOf_encode]
        simp [hid, ApprovalRequest.resolve]
      · rw [List.append_cons, decided_run hdecided rest hleaves]
        exact hcontent

-- A plan that is approved, and a second click.
section

variable (J : SerdeJson)

def planRequest : ApprovalRequest where
  actionId := "plan"
  description := ""
  riskLevel := none
  options := []
  resolution := none

/-- The store with the request. -/
def planWorld : World := World.initial.write (approvalKey "1") (J.toString planRequest.encode)

/-- The pane that has read the plan. -/
def planPane : Pane :=
  Machine.run (Pane.step .specPane) (.mount "1")
    [.runEffect, .resolve ⟨.getSpec, "1", 1⟩
      (.obj [("tasks", .arr []), ("approval", .str "Pending")])]

def planRead : PaneRead := ⟨.getApproval, "1", 1⟩

/-- From the first render to the read of the command. -/
def planSteps : List DeskStep :=
  [.pane .runEffect, .pane (.resolve ⟨.getSpec, "1", 1⟩
      (.obj [("tasks", .arr []), ("approval", .str "Pending")])),
    .answer planRead World.noFaults, .arrive planRead (some planRequest), .pane (.render "1"),
    .click .approve, .begin ⟨"1", "plan", .approve⟩, .main World.noFaults]

theorem content_planWorld :
    (planWorld J).content (approvalKey "1") = some (J.toString planRequest.encode) :=
  World.content_write ..

theorem after_planSteps :
    ∃ pane, Desk.after J "1" (planWorld J) planSteps =
      { pane, world := planWorld J, answers := [], prompts := [],
        running := some (⟨"1", "plan", .approve⟩,
          afterRead J ⟨"1", "plan", .approve⟩ (.ok (some (J.toString planRequest.encode)))) } := by
  have hcontent := content_planWorld J
  have hflight : planRead.kind = .getApproval ∧ planRead ∈ planPane.inFlight := by decide
  have hanswer : (Desk.mk planPane (planWorld J) [] [] none).next J
      (.answer planRead World.noFaults) =
        { pane := planPane, world := planWorld J, answers := [(planRead, some planRequest)],
          prompts := [], running := none } := by
    rw [Desk.next, if_pos hflight, Desk.answer, interp_getApprovalImpl]
    simp [planRead, hcontent, World.noFaults]
  have hback : Machine.run (Desk.next J)
      { pane := planPane, world := planWorld J, answers := [(planRead, some planRequest)],
        prompts := [], running := none } [.arrive planRead (some planRequest), .pane (.render "1"),
          .click .approve, .begin ⟨"1", "plan", .approve⟩] =
        { pane := Machine.run (Pane.step .specPane) planPane
            [.resolve planRead planRequest.encode, .render "1"],
          world := planWorld J, answers := [], prompts := [],
          running := some (⟨"1", "plan", .approve⟩, approvePrompt J "1" "plan" .approve) } := rfl
  have hmain : ∀ pane, (Desk.mk pane (planWorld J) [] [] (some (⟨"1", "plan", .approve⟩,
      approvePrompt J "1" "plan" .approve))).main World.noFaults =
        { pane, world := planWorld J, answers := [], prompts := [],
          running := some (⟨"1", "plan", .approve⟩, afterRead J ⟨"1", "plan", .approve⟩
            (.ok (some (J.toString planRequest.encode)))) } := by
    intro pane
    have happrove := approvePrompt_eq J ⟨"1", "plan", .approve⟩
    simp only at happrove
    rw [happrove]
    simp [Desk.main, World.handler, World.noFaults, hcontent]
  refine ⟨Machine.run (Pane.step .specPane) planPane
    [.resolve planRead planRequest.encode, .render "1"], ?_⟩
  have hsplit : Desk.after J "1" (planWorld J) planSteps =
      (Machine.run (Desk.next J) ((Desk.mk planPane (planWorld J) [] [] none).next J
        (.answer planRead World.noFaults)) [.arrive planRead (some planRequest),
          .pane (.render "1"), .click .approve, .begin ⟨"1", "plan", .approve⟩]).main
        World.noFaults := rfl
  rw [hsplit, hanswer, hback]
  exact hmain _

/-- The next step of the main thread writes the decision. -/
theorem changed_planSteps :
    (Desk.after J "1" (planWorld J) (planSteps ++ [.main World.noFaults])).world.content
        (approvalKey "1") ≠
      (Desk.after J "1" (planWorld J) planSteps).world.content (approvalKey "1") := by
  have hcontent := content_planWorld J
  obtain ⟨pane, hafter⟩ := after_planSteps J
  have haddressed : addressed J "plan" (.ok (some (J.toString planRequest.encode))) =
      some planRequest := by
    simp [addressed, Except.toOption, planRequest, ApprovalRequest.isPending]
  rw [after_concat, hafter]
  intro hsame
  have hwritten : some (J.toString (planRequest.resolve .approved).encode) =
      some (J.toString planRequest.encode) := by
    rw [← hcontent, ← hsame]
    simp [Desk.next, Desk.main, afterRead, haddressed, World.handler, World.noFaults,
      ApprovalDecision.toApprovalState]
  have hread := congrArg (Option.bind · (approvalOf J)) hwritten
  simp [planRequest, ApprovalRequest.resolve] at hread

end

/-- The click that comes second is without effect. -/
theorem decided_once_second_click :
    ∃ prompt v content, Clicked SerdeJson.compact "1" (planWorld SerdeJson.compact) planSteps
        prompt v ∧
      (∀ actionId, Mcp.resolutionOf SerdeJson.compact content actionId =
        if prompt.actionId = actionId then some prompt.decision.toApprovalState.wire else none) ∧
      (Desk.after SerdeJson.compact "1" (planWorld SerdeJson.compact)
        (planSteps ++ .main World.noFaults :: [.click .reject, .main World.noFaults,
          .begin ⟨"1", "plan", .reject⟩, .main World.noFaults])).world.content (approvalKey "1") =
        some content := by
  obtain ⟨prompt, v, content, hclicked, -, hread, hstays⟩ :=
    decided_once SerdeJson.compact "1" (planWorld SerdeJson.compact) planSteps World.noFaults
      (approvalKey "1") (changed_planSteps SerdeJson.compact)
  refine ⟨prompt, v, content, hclicked, hread, hstays _ ?_⟩
  exact Machine.along_cons.mpr ⟨trivial, Machine.along_cons.mpr ⟨trivial,
    Machine.along_cons.mpr ⟨trivial, Machine.along_cons.mpr ⟨trivial, Machine.along_nil⟩⟩⟩⟩

end Spectty.Ui
