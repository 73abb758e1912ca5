/-
  Spectty.Approval.Concurrent

  Any number of `spectty_approval` and `approve_prompt` calls on one session's
  approval document, interleaved at every store access.

  The resolver reads the document and later writes it back whole, and the
  poller matches a decision to its request by the action id alone.  So a
  decision can reach another request of the same id (`ApprovalSound` fails)
  and a write can bury a newer request (`PendingKept` fails).  The two
  theorems say on which runs they hold: `approval_sound` when registrations
  stay clear of decisions and polls in progress for another request of the
  same id, `pending_kept` when no decision is written over another id.
-/

import Spectty.Approval.Calls
import Spectty.Lib.JsonText

namespace Spectty.Approval

open Spectty.Core
open Spectty.Adapters
open Spectty.Commands
open Spectty.Mcp
open Spectty.Lib
open Spectty.Lib.Serde

variable {ι : Type} [DecidableEq ι] {sessionId : String}

section

variable (J : SerdeJson) (calls : ι → Call sessionId)

/-- The threads of the calls over a world. -/
def callPool (w : World) : Pool ι World Sys CallResult where
  shared := w
  threads := fun i => (calls i).program J

/-- Where call `i` stands after a trace. -/
def callPhase (tr : List (Moment ι World Sys)) (i : ι) : Option Phase :=
  Pool.phase (fun i => (calls i).protocol J sessionId) (fun _ => .fresh) i tr

/-- Call `i` read the request `r` in its own read step. -/
def ReadRequest (J : SerdeJson) (sessionId : String) (tr : List (Moment ι World Sys)) (i : ι)
    (r : ApprovalRequest) : Prop :=
  ∃ content, ⟨.storeGet (approvalKey sessionId), .ok (some content)⟩ ∈ Pool.eventsOf i tr ∧
    approvalOf J content = some r

/-- The request has exactly the fields the call registers. -/
structure Matches (call : ApprovalCall) (r : ApprovalRequest) : Prop where
  actionId : r.actionId = call.actionId
  description : r.description = call.description
  riskLevel : r.riskLevel = call.riskLevel
  options : call.options = .arr (r.options.map .str)

/-- The user decided `decision` on the request the call registered. -/
def Justified (tr : List (Moment ι World Sys)) (call : ApprovalCall) (decision : String) : Prop :=
  ∃ j actionId d r, calls j = .prompt actionId d ∧ decision = d.toApprovalState.wire ∧
    ReadRequest J sessionId tr j r ∧ Matches call r

/-- Every decision returned was decided on the request that gets it. -/
def ApprovalSound (tr : List (Moment ι World Sys)) (P : Pool ι World Sys CallResult) : Prop :=
  ∀ i call decision, (calls i).registers = some call →
    P.threads i = .ret (.approval (.ok (resolvedResult decision))) →
    Justified J calls tr call decision

/-- The document under the session's key is the one `call` registers. -/
def Registered (J : SerdeJson) (sessionId : String) (w : World) (call : ApprovalCall) : Prop :=
  w.content (approvalKey sessionId) = some (J.toString call.pending)

/-- The step is a registration, and it is stored. -/
def StoresRegistration (m : Moment ι World Sys) (call : ApprovalCall) : Prop :=
  (calls m.thread).registers = some call ∧
    (∃ payload, m.event.op = .storeUpsert (approvalKey sessionId) payload) ∧
    Registered J sessionId m.after call

/-- A registration is stored only while no other request of its action id is
    about to be resolved or waits for a decision. -/
def ClearRegistration (tr : List (Moment ι World Sys)) (m : Moment ι World Sys) : Prop :=
  ∀ call, StoresRegistration J calls m call →
    (∀ j r, callPhase J calls tr j = some (.holding r) → r.actionId = call.actionId →
      Matches call r) ∧
    ∀ i other q, i ≠ m.thread → (calls i).registers = some other →
      callPhase J calls tr i = some q → q.isPolling → other.actionId = call.actionId →
      other.pending = call.pending

/-- The stored document carries the action id, to either of its readers. -/
def Carries (content actionId : String) : Prop :=
  actionIdOf J content = some actionId ∨
    ∃ r, approvalOf J content = some r ∧ r.actionId = actionId

/-- A document that may answer the call: its own registration, or that
    registration resolved by a decision on it. -/
def Answers (tr : List (Moment ι World Sys)) (call : ApprovalCall) (content : String) : Prop :=
  content = J.toString call.pending ∨
    ∃ j actionId d r, calls j = .prompt actionId d ∧
      ReadRequest J sessionId tr j r ∧ Matches call r ∧
      content = J.toString (r.resolve d.toApprovalState).encode

/-- What holds between the phases of the calls, the trace and the store. -/
structure Inv (q : ι → Phase) (tr : List (Moment ι World Sys)) (w : World) : Prop where
  /-- A held request was read, pending. -/
  read : ∀ j r, q j = .holding r → ReadRequest J sessionId tr j r ∧ r.isPending = true
  /-- A held request of a polling call's action id is that call's. -/
  held : ∀ i call n f j r, (calls i).registers = some call → q i = .polling (n + 1) f →
    q j = .holding r → r.actionId = call.actionId → Matches call r
  /-- The stored document, if it carries a polling call's action id, answers
      that call. -/
  stored : ∀ i call n f content, (calls i).registers = some call → q i = .polling (n + 1) f →
    w.content (approvalKey sessionId) = some content → Carries J content call.actionId →
    Answers J calls tr call content
  /-- A decision read by a call was decided on its request. -/
  decided : ∀ i call decision, (calls i).registers = some call → q i = .decided decision →
    Justified J calls tr call decision

end

variable {J : SerdeJson} {calls : ι → Call sessionId}

-- ============================================================================
-- Documents
-- ============================================================================

theorem matches_of_requested {call : ApprovalCall} {r : ApprovalRequest}
    (h : requested call = some r) : Matches call r := by
  obtain ⟨options, hoptions, rfl⟩ := Option.map_eq_some_iff.mp h
  exact ⟨rfl, rfl, rfl, vec_string_eq_some.mp hoptions⟩

theorem carries_pending {call : ApprovalCall} {actionId : String} :
    Carries J (J.toString call.pending) actionId ↔ call.actionId = actionId := by
  constructor
  · rintro (h | ⟨r, hr, hid⟩)
    · rw [actionIdOf_pending] at h
      exact Option.some.inj h
    · rw [approvalOf_pending] at hr
      rw [← requested_actionId hr, hid]
  · rintro rfl
    exact Or.inl (actionIdOf_pending J call)

theorem carries_encode {r : ApprovalRequest} {actionId : String} :
    Carries J (J.toString r.encode) actionId ↔ r.actionId = actionId := by
  constructor
  · rintro (h | ⟨r', hr, hid⟩)
    · rw [actionIdOf_encode] at h
      exact Option.some.inj h
    · rw [approvalOf_encode] at hr
      obtain rfl := Option.some.inj hr
      exact hid
  · rintro rfl
    exact Or.inl (actionIdOf_encode J r)

-- ============================================================================
-- The trace only grows
-- ============================================================================

variable {tr : List (Moment ι World Sys)} {m : Moment ι World Sys} {q : ι → Phase} {w : World}

theorem mem_eventsOf_concat {i : ι} {e : Event Sys} (h : e ∈ Pool.eventsOf i tr) :
    e ∈ Pool.eventsOf i (tr ++ [m]) := by
  by_cases hi : m.thread = i
  · subst hi
    rw [Pool.eventsOf_concat_self]
    exact List.mem_append_left _ h
  · rw [Pool.eventsOf_concat_of_ne hi]
    exact h

theorem ReadRequest.mono {j : ι} {r : ApprovalRequest}
    (h : ReadRequest J sessionId tr j r) :
    ReadRequest J sessionId (tr ++ [m]) j r := by
  obtain ⟨content, hmem, hr⟩ := h
  exact ⟨content, mem_eventsOf_concat hmem, hr⟩

theorem Justified.mono {call : ApprovalCall} {decision : String}
    (h : Justified J calls tr call decision) : Justified J calls (tr ++ [m]) call decision := by
  obtain ⟨j, actionId, d, r, hj, hd, hread, hmatch⟩ := h
  exact ⟨j, actionId, d, r, hj, hd, hread.mono, hmatch⟩

theorem Answers.mono {call : ApprovalCall} {content : String}
    (h : Answers J calls tr call content) : Answers J calls (tr ++ [m]) call content := by
  rcases h with h | ⟨j, actionId, d, r, hj, hread, hmatch, hcontent⟩
  · exact Or.inl h
  · exact Or.inr ⟨j, actionId, d, r, hj, hread.mono, hmatch, hcontent⟩

theorem Inv.mono (h : Inv J calls q tr w) : Inv J calls q (tr ++ [m]) w where
  read := fun j r hj => ⟨(h.read j r hj).1.mono, (h.read j r hj).2⟩
  held := h.held
  stored := fun i call n f content hi hq hcontent hcarries =>
    (h.stored i call n f content hi hq hcontent hcarries).mono
  decided := fun i call decision hi hq => (h.decided i call decision hi hq).mono

-- ============================================================================
-- One step
-- ============================================================================

/-- A document that answers the call decides it only as the user did. -/
theorem Answers.justified {call : ApprovalCall} {content decision : String}
    (h : Answers J calls tr call content)
    (hres : resolutionOf J content call.actionId = some decision) :
    Justified J calls tr call decision := by
  rcases h with rfl | ⟨j, actionId, d, r, hj, hread, hmatch, rfl⟩
  · rw [resolutionOf_pending] at hres
    cases hres
  · rw [resolutionOf_encode, ApprovalRequest.resolve_actionId, if_pos hmatch.actionId] at hres
    exact ⟨j, actionId, d, r, hj, (Option.some.inj hres).symm, hread, hmatch⟩

/-- A pending request read from a document that answers the call is the
    call's. -/
theorem Answers.matches {call : ApprovalCall} {content : String} {r : ApprovalRequest}
    (h : Answers J calls tr call content) (hr : approvalOf J content = some r)
    (hpending : r.isPending = true) : Matches call r := by
  rcases h with rfl | ⟨j, actionId, d, r', hj, hread, hmatch, rfl⟩
  · rw [approvalOf_pending] at hr
    exact matches_of_requested hr
  · rw [approvalOf_encode] at hr
    obtain rfl := Option.some.inj hr
    cases hpending

theorem Inv.poll {i : ι} {call : ApprovalCall} {left failures : Nat}
    {r : Except String (Option String)} (h : Inv J calls q tr w)
    (hi : (calls i).registers = some call) (hq : q i = .polling (left + 1) failures)
    (hr : ∀ v, r = .ok v → v = w.content (approvalKey sessionId)) :
    Inv J calls (Function.update q i (afterPoll J call.actionId left failures r)) tr w where
  read := by
    intro j request hj
    replace hj := Pool.of_update_eq hj afterPoll_ne_holding
    exact h.read j request hj
  held := by
    intro i' call' n f j request hi' hpoll hj
    replace hj := Pool.of_update_eq hj afterPoll_ne_holding
    by_cases hii : i' = i
    · subst hii
      exact h.held i' call' left failures j request hi' hq hj
    · rw [Function.update_of_ne hii] at hpoll
      exact h.held i' call' n f j request hi' hpoll hj
  stored := by
    intro i' call' n f content hi' hpoll
    by_cases hii : i' = i
    · subst hii
      exact h.stored i' call' left failures content hi' hq
    · rw [Function.update_of_ne hii] at hpoll
      exact h.stored i' call' n f content hi' hpoll
  decided := by
    intro i' call' decision hi' hdec
    by_cases hii : i' = i
    · subst hii
      rw [Function.update_self] at hdec
      obtain rfl : call = call' := Option.some.inj (hi.symm.trans hi')
      obtain ⟨content, hok, hres⟩ := afterPoll_eq_decided hdec
      have hcontent := (hr _ hok).symm
      have hcarries : Carries J content call.actionId :=
        Or.inl (actionIdOf_of_resolutionOf J hres)
      exact (h.stored i' call left failures content hi hq hcontent hcarries).justified hres
    · rw [Function.update_of_ne hii] at hdec
      exact h.decided i' call' decision hi' hdec

theorem Inv.readStep {i : ι} {actionId : String} {decision : ApprovalDecision}
    {r : Except String (Option String)} (h : Inv J calls q tr w)
    (hi : calls i = .prompt actionId decision)
    (hr : ∀ v, r = .ok v → v = w.content (approvalKey sessionId))
    (hmem : ⟨.storeGet (approvalKey sessionId), r⟩ ∈ Pool.eventsOf i tr) :
    Inv J calls (Function.update q i (afterRead J actionId r)) tr w where
  read := by
    intro j request hj
    by_cases hji : j = i
    · subst hji
      rw [Function.update_self] at hj
      obtain ⟨content, rfl, happroval, -, hpending⟩ := afterRead_eq_holding hj
      exact ⟨⟨content, hmem, happroval⟩, hpending⟩
    · rw [Function.update_of_ne hji] at hj
      exact h.read j request hj
  held := by
    intro i' call' n f j request hi' hpoll hj hid
    replace hpoll := Pool.of_update_eq hpoll (afterRead_ne.1 _ _)
    by_cases hji : j = i
    · subst hji
      rw [Function.update_self] at hj
      obtain ⟨content, hok, happroval, -, hpending⟩ := afterRead_eq_holding hj
      have hcarries : Carries J content call'.actionId := Or.inr ⟨request, happroval, hid⟩
      exact (h.stored i' call' n f content hi' hpoll (hr _ hok).symm hcarries).matches
        happroval hpending
    · rw [Function.update_of_ne hji] at hj
      exact h.held i' call' n f j request hi' hpoll hj hid
  stored := by
    intro i' call' n f content hi' hpoll
    replace hpoll := Pool.of_update_eq hpoll (afterRead_ne.1 _ _)
    exact h.stored i' call' n f content hi' hpoll
  decided := by
    intro i' call' d hi' hdec
    replace hdec := Pool.of_update_eq hdec (afterRead_ne.2 _)
    exact h.decided i' call' d hi' hdec

theorem Inv.write {i : ι} {actionId : String} {decision : ApprovalDecision}
    {request : ApprovalRequest} {w' : World} (h : Inv J calls q tr w)
    (hi : calls i = .prompt actionId decision) (hq : q i = .holding request)
    (hw : w'.content (approvalKey sessionId) =
        some (J.toString (request.resolve decision.toApprovalState).encode) ∨
      w'.content (approvalKey sessionId) = w.content (approvalKey sessionId)) :
    Inv J calls (Function.update q i .over) tr w' where
  read := by
    intro j r hj
    replace hj := Pool.of_update_eq hj (by simp)
    exact h.read j r hj
  held := by
    intro i' call' n f j r hi' hpoll hj
    replace hpoll := Pool.of_update_eq hpoll (by simp)
    replace hj := Pool.of_update_eq hj (by simp)
    exact h.held i' call' n f j r hi' hpoll hj
  stored := by
    intro i' call' n f content hi' hpoll hcontent hcarries
    replace hpoll := Pool.of_update_eq hpoll (by simp)
    rcases hw with hw | hw
    · rw [hw] at hcontent
      obtain rfl := Option.some.inj hcontent
      have hid := carries_encode.mp hcarries
      rw [ApprovalRequest.resolve_actionId] at hid
      exact Or.inr ⟨i, actionId, decision, request, hi, (h.read i request hq).1,
        h.held i' call' n f i request hi' hpoll hq hid, rfl⟩
    · rw [hw] at hcontent
      exact h.stored i' call' n f content hi' hpoll hcontent hcarries
  decided := by
    intro i' call' d hi' hdec
    replace hdec := Pool.of_update_eq hdec (by simp)
    exact h.decided i' call' d hi' hdec

theorem Inv.register {i : ι} {env : Env} {call : ApprovalCall} {r : Except String Unit}
    {w' : World} (h : Inv J calls q tr w) (hi : (calls i).registers = some call)
    (hw : Registered J sessionId w' call ∨
      w'.content (approvalKey sessionId) = w.content (approvalKey sessionId) ∧
        ∃ msg, r = .error msg)
    (hclear : Registered J sessionId w' call →
      (∀ j request, q j = .holding request → request.actionId = call.actionId →
        Matches call request) ∧
      ∀ i' other, i' ≠ i → (calls i').registers = some other → (q i').isPolling →
        other.actionId = call.actionId → other.pending = call.pending) :
    Inv J calls (Function.update q i (afterRegister env r)) tr w' where
  read := by
    intro j request hj
    replace hj := Pool.of_update_eq hj (afterRegister_ne.1 _)
    exact h.read j request hj
  held := by
    intro i' call' n f j request hi' hpoll hj hid
    replace hj := Pool.of_update_eq hj (afterRegister_ne.1 _)
    by_cases hii : i' = i
    · subst hii
      obtain rfl : call = call' := Option.some.inj (hi.symm.trans hi')
      rw [Function.update_self] at hpoll
      have hok := afterRegister_eq_polling hpoll
      have hstored : Registered J sessionId w' call := by
        rcases hw with hw | ⟨-, msg, hmsg⟩
        · exact hw
        · rw [hok] at hmsg
          cases hmsg
      exact (hclear hstored).1 j request hj hid
    · rw [Function.update_of_ne hii] at hpoll
      exact h.held i' call' n f j request hi' hpoll hj hid
  stored := by
    intro i' call' n f content hi' hpoll hcontent hcarries
    rcases hw with hw | ⟨hw, msg, rfl⟩
    · have hpending := hw
      rw [Registered, hcontent] at hpending
      obtain rfl := Option.some.inj hpending
      by_cases hii : i' = i
      · subst hii
        obtain rfl : call = call' := Option.some.inj (hi.symm.trans hi')
        exact Or.inl rfl
      · rw [Function.update_of_ne hii] at hpoll
        have hid : call'.actionId = call.actionId := (carries_pending.mp hcarries).symm
        have hpolling : (q i').isPolling := by
          rw [hpoll]
          trivial
        exact Or.inl (by rw [(hclear hw).2 i' call' hii hi' hpolling hid])
    · rw [hw] at hcontent
      replace hpoll := Pool.of_update_eq hpoll (by simp [afterRegister])
      exact h.stored i' call' n f content hi' hpoll hcontent hcarries
  decided := by
    intro i' call' d hi' hdec
    replace hdec := Pool.of_update_eq hdec (afterRegister_ne.2 _)
    exact h.decided i' call' d hi' hdec

/-- Every access of every call keeps the invariant, if its registrations are
    clear. -/
theorem Inv.step {q' : Phase} (hphase : ∀ i, callPhase J calls tr i = some (q i))
    (h : Inv J calls q tr m.before) (hclear : ClearRegistration J calls tr m)
    (hprot : (calls m.thread).protocol J sessionId (q m.thread) m.event = some q')
    (hstep : World.step m.before m.event m.after) :
    Inv J calls (Function.update q m.thread q') (tr ++ [m]) m.after := by
  obtain ⟨i, e, w, w'⟩ := m
  have hmem : e ∈ Pool.eventsOf i (tr ++ [(⟨i, e, w, w'⟩ : Moment ι World Sys)]) := by
    rw [show i = (⟨i, e, w, w'⟩ : Moment ι World Sys).thread from rfl, Pool.eventsOf_concat_self]
    simp
  have hmono := h.mono (m := ⟨i, e, w, w'⟩)
  have hkind := Call.step_of_protocol hprot
  simp only at hkind hstep hmono hmem ⊢
  generalize hq : q i = qi at hkind
  cases hkind with
  | register hreg =>
      refine hmono.register hreg (World.step_upsert_content hstep) fun hstored => ?_
      obtain ⟨hheld, hpolls⟩ := hclear _ ⟨hreg, ⟨_, rfl⟩, hstored⟩
      refine ⟨fun j request hj => hheld j request (by rw [hphase j, hj]), ?_⟩
      intro i' other hne hother hpolling
      exact hpolls i' other (q i') hne hother (hphase i') hpolling
  | poll hreg =>
      obtain ⟨hget, rfl⟩ := hstep
      exact hmono.poll hreg hq hget
  | read hprompt =>
      obtain ⟨hget, rfl⟩ := hstep
      exact hmono.readStep hprompt hget hmem
  | write hprompt =>
      refine hmono.write hprompt hq ?_
      rcases World.step_upsert_content hstep with hw | ⟨hw, -⟩
      · exact Or.inl hw
      · exact Or.inr hw

-- ============================================================================
-- Runs
-- ============================================================================

variable {P : Pool ι World Sys CallResult}

/-- In every run whose registrations are clear, a decision reaches only the
    request it was made on. -/
theorem approval_sound (hr : Pool.Run World.step (callPool J calls w) tr P)
    (hclear : Pool.Steps (ClearRegistration J calls) tr) : ApprovalSound J calls tr P := by
  have hinit : Inv J calls (fun _ => .fresh) [] w :=
    ⟨by simp, by simp, by simp, by simp⟩
  obtain ⟨q, -, hfollows, hinv⟩ :=
    hr.coupled (fun i => (calls i).follows) hinit
      (fun q tr m q' hphase h hC hprot hstep => h.step hphase hC hprot hstep) hclear
  intro i call decision hreg hret
  have hdecided : q i = .decided decision := by
    have hpost := hfollows i
    rw [hret] at hpost
    exact hpost decision rfl
  exact hinv.decided i call decision hreg hdecided

-- ============================================================================
-- A race
-- ============================================================================

section

variable (J)

/-- The arguments of a request on session 1. -/
def raceArguments (actionId description : String) : Json :=
  .obj [("session_id", .str "1"), ("action_id", .str actionId), ("description", .str description)]

/-- The request they make. -/
def raceCall (actionId description : String) : ApprovalCall where
  sessionId := "1"
  actionId := actionId
  arguments := raceArguments actionId description

theorem race_ofSession {actionId description : String} :
    ∀ call, approvalArguments (some (raceArguments actionId description)) = .ok call →
      call.sessionId = "1" := by
  intro call h
  obtain ⟨hargs, hsession, -⟩ := approvalArguments_eq_ok.mp h
  rw [← Option.some.inj hargs] at hsession
  exact (Json.str.inj (Option.some.inj hsession)).symm

theorem approvalArguments_race {actionId description : String} (h : actionId ≠ "") :
    approvalArguments (some (raceArguments actionId description)) =
      .ok (raceCall actionId description) :=
  approvalArguments_eq_ok.mpr ⟨rfl, rfl, (by decide : "1" ≠ ""), rfl, h⟩

/-- The threads of the race. -/
inductive Racer where
  | first
  | user
  | second
deriving DecidableEq

theorem Call.registers_race {actionId description : String} (h : actionId ≠ "") :
    (Call.approval ⟨0, 1⟩ (some (raceArguments actionId description)) race_ofSession).registers =
      some (raceCall actionId description) := by
  simp [Call.registers, approvalArguments_race h, Except.toOption]

/-- Two requests on session 1, and an approval of the first. -/
def raceCalls (actionId : String) : Racer → Call "1"
  | .first => .approval ⟨0, 1⟩ (some (raceArguments "deploy" "staging")) race_ofSession
  | .user => .prompt "deploy" .approve
  | .second => .approval ⟨0, 1⟩ (some (raceArguments actionId "production")) race_ofSession

/-- The first request, as the application reads it. -/
def raceRequest : ApprovalRequest where
  actionId := "deploy"
  description := "staging"
  riskLevel := none
  options := []
  resolution := none

theorem requested_race : requested (raceCall "deploy" "staging") = some raceRequest := by decide

theorem addressed_race :
    addressed J "deploy" (.ok (some (J.toString (raceCall "deploy" "staging").pending))) =
      some raceRequest := by
  simp only [addressed, Except.toOption, Option.join_some, Option.bind_eq_bind, Option.bind_some,
    approvalOf_pending, requested_race]
  rfl

/-- The first request registers, the approval reads it, the second request
    registers, the approval writes. -/
theorem race_run {actionId : String} (h : actionId ≠ "") :
    ∃ tr P, Pool.Run World.step (callPool J (raceCalls actionId) .initial) tr P ∧
      P.threads .second = awaiting J (raceCall actionId "production") 1 0 ∧
      P.shared.content (approvalKey "1") =
        some (J.toString (raceRequest.resolve .approved).encode) ∧
      (∀ content, ⟨.storeGet (approvalKey "1"), .ok (some content)⟩ ∈ Pool.eventsOf Racer.user tr →
        content = J.toString (raceCall "deploy" "staging").pending) ∧
      ∃ pre m m', tr = pre ++ [m, m'] ∧
        StoresRegistration J (raceCalls actionId) m (raceCall actionId "production") ∧
        m'.thread = .user := by
  have hsecond : (raceCalls actionId .second).program J = _ :=
    Call.program_approval (approvalArguments_race h)
  have h0 : Pool.Run World.step (callPool J (raceCalls actionId) .initial) []
      ⟨.initial, fun i => (raceCalls actionId i).program J⟩ := .nil
  have h1 := h0.next .first (Call.program_approval (approvalArguments_race (by decide)))
    (World.step_write _ _ _) rfl
  have h2 := h1.next .user (Call.program_prompt J "1" "deploy" .approve)
    (World.step_read (World.content_write ..)) rfl
  rw [addressed_race] at h2
  have h3 := h2.next .second hsecond (World.step_write _ _ _) rfl
  have h4 := h3.next .user rfl (World.step_write _ _ _) rfl
  refine ⟨_, _, h4, rfl, World.content_write .., ?_, ⟨[_, _], _, _, rfl, ⟨?_, ⟨_, rfl⟩, ?_⟩, rfl⟩⟩
  · intro content hmem
    simpa [Pool.eventsOf] using hmem
  · exact Call.registers_race h
  · exact World.content_write ..

end

/-- The first registration of a run is clear. -/
theorem clearRegistration_nil : ClearRegistration J calls [] m := by
  intro call _
  refine ⟨fun j r hj => ?_, fun i other q _ _ hq hpolling => ?_⟩
  · cases hj
  · obtain rfl := Option.some.inj hq
    cases hpolling

/-- A request of another action id is registered while the first one is being approved; the
    first one gets the approval. -/
theorem approval_sound_resolved :
    ∃ tr P, Pool.Run World.step (callPool .compact (raceCalls "cleanup") .initial) tr P ∧
      P.threads .first = .ret (.approval (.ok (resolvedResult "Approved"))) ∧
      P.threads .second = awaiting .compact (raceCall "cleanup" "production") 1 0 ∧
      ApprovalSound .compact (raceCalls "cleanup") tr P := by
  have hsecond : (raceCalls "cleanup" .second).program .compact = _ :=
    Call.program_approval (approvalArguments_race (by decide))
  have h0 : Pool.Run World.step (callPool .compact (raceCalls "cleanup") .initial) []
      ⟨.initial, fun i => (raceCalls "cleanup" i).program .compact⟩ := .nil
  have h1 := h0.next .first (Call.program_approval (approvalArguments_race (by decide)))
    (World.step_write _ _ _) rfl
  have h2 := h1.next .user (Call.program_prompt .compact "1" "deploy" .approve)
    (World.step_read (World.content_write ..)) rfl
  rw [addressed_race] at h2
  have h3 := h2.next .second hsecond (World.step_write _ _ _) rfl
  have h4 := h3.next .user rfl (World.step_write _ _ _) rfl
  have h5 := h4.next .first (p := .ret (.approval (.ok (resolvedResult "Approved"))))
    (awaiting_succ .compact (raceCall "deploy" "staging") 0 0)
    (World.step_read (World.content_write ..)) (by
      simp only [Option.bind_some, resolutionOf_encode]
      rfl)
  refine ⟨_, _, h5, rfl, rfl, approval_sound h5 ?_⟩
  simp only [Pool.steps_concat]
  refine ⟨⟨⟨⟨⟨Pool.steps_nil _, clearRegistration_nil⟩, ?_⟩, ?registration⟩, ?_⟩, ?_⟩
  case registration =>
    rintro call ⟨hreg, -⟩
    obtain rfl := Option.some.inj ((Call.registers_race (by decide)).symm.trans hreg)
    constructor
    · -- what the user holds is the first request
      intro j r hr hid
      cases j <;>
        simp [callPhase, Pool.phase, Pool.eventsOf, Prog.Protocol.run, raceCalls, Call.protocol,
          approvalArguments_race, approvalProtocol, afterRegister, promptProtocol, afterRead,
          addressed_race] at hr
      subst hr
      exact absurd hid (by decide)
    · -- and the first request waits for its own action id
      intro i other q hne hother _ _ hid
      cases i with
      | first =>
          obtain rfl := Option.some.inj ((Call.registers_race (by decide)).symm.trans hother)
          exact absurd hid (by decide)
      | user => cases hother
      | second => exact absurd rfl hne
  · rintro call ⟨hreg, -⟩
    cases hreg
  · rintro call ⟨hreg, -⟩
    cases hreg
  · rintro call ⟨-, ⟨payload, hop⟩, -⟩
    cases hop

/-- A second request of the same action id gets the approval of the first. -/
theorem approval_sound_race :
    ∃ tr P, Pool.Run World.step (callPool .compact (raceCalls "deploy") .initial) tr P ∧
      ¬ ApprovalSound .compact (raceCalls "deploy") tr P := by
  obtain ⟨tr, P, hr, hwait, hcontent, hread, -⟩ := race_run .compact (show "deploy" ≠ "" by decide)
  obtain ⟨w, t⟩ := P
  have hpoll : Pool.Run World.step (callPool .compact (raceCalls "deploy") .initial) _ _ :=
    hr.next .second (p := .ret (.approval (.ok (resolvedResult "Approved"))))
      (hwait.trans (awaiting_succ ..)) (World.step_read hcontent) (by
        simp only [Option.bind_some, resolutionOf_encode]
        rfl)
  refine ⟨_, _, hpoll, ?_⟩
  intro hsound
  have hreg : (raceCalls "deploy" .second).registers = some (raceCall "deploy" "production") :=
    Call.registers_race (by decide)
  have hret :
      Function.update t .second (.ret (.approval (.ok (resolvedResult "Approved")))) .second =
      .ret (.approval (.ok (resolvedResult "Approved"))) := Function.update_self ..
  obtain ⟨j, actionId, d, r, hj, -, ⟨content, hmem, hr⟩, hmatch⟩ := hsound .second _ _ hreg hret
  cases j with
  | user =>
      rw [Pool.eventsOf_concat_of_ne (show Racer.second ≠ .user by decide)] at hmem
      rw [hread content hmem, approvalOf_pending, requested_race] at hr
      obtain rfl := Option.some.inj hr
      exact absurd hmatch.description (by decide)
  | _ => cases hj

-- ============================================================================
-- No registration is lost
-- ============================================================================

section

variable (J calls)

/-- Since the last registration was stored, the stored document has kept its
    action id. -/
def PendingKept (tr : List (Moment ι World Sys)) (w : World) : Prop :=
  ∀ pre m post call, tr = pre ++ m :: post → StoresRegistration J calls m call →
    (∀ m' ∈ post, ∀ other, ¬ StoresRegistration J calls m' other) →
    (w.content (approvalKey sessionId)).bind (actionIdOf J) = some call.actionId

/-- A decision that is written meets, in the store, the action id it was made
    for. -/
def DecisionMeetsRequest (tr : List (Moment ι World Sys)) (m : Moment ι World Sys) : Prop :=
  ∀ r, callPhase J calls tr m.thread = some (.holding r) →
    m.after.content (approvalKey sessionId) ≠ m.before.content (approvalKey sessionId) →
    ∃ content, m.before.content (approvalKey sessionId) = some content ∧
      Carries J content r.actionId

end

/-- A document carries no other action id than the one a value reader sees. -/
theorem Carries.eq {content actionId actionId' : String} (h : Carries J content actionId)
    (hid : actionIdOf J content = some actionId') : actionId = actionId' := by
  rcases h with h | ⟨r, hr, rfl⟩
  · rw [hid] at h
    exact (Option.some.inj h).symm
  · exact actionIdOf_of_approvalOf J hr hid

/-- A step that stores no registration keeps the action id, if a decision it
    writes meets its request. -/
theorem actionId_step {q' : Phase} {actionId : String}
    (hphase : ∀ i, callPhase J calls tr i = some (q i))
    (hmeets : DecisionMeetsRequest J calls tr m)
    (hprot : (calls m.thread).protocol J sessionId (q m.thread) m.event = some q')
    (hstep : World.step m.before m.event m.after)
    (hno : ∀ call, ¬ StoresRegistration J calls m call)
    (hid : (m.before.content (approvalKey sessionId)).bind (actionIdOf J) = some actionId) :
    (m.after.content (approvalKey sessionId)).bind (actionIdOf J) = some actionId := by
  by_cases hsame :
      m.after.content (approvalKey sessionId) = m.before.content (approvalKey sessionId)
  · rw [hsame]
    exact hid
  · obtain ⟨i, e, w, w'⟩ := m
    have hkind := Call.step_of_protocol hprot
    simp only at hkind hstep hsame hid ⊢
    generalize hq : q i = qi at hkind
    cases hkind with
    | register hreg =>
        rcases World.step_upsert_content hstep with hw | ⟨hw, -⟩
        · exact absurd ⟨hreg, ⟨_, rfl⟩, hw⟩ (hno _)
        · exact absurd hw hsame
    | poll hreg =>
        obtain ⟨-, rfl⟩ := hstep
        exact absurd rfl hsame
    | read hprompt =>
        obtain ⟨-, rfl⟩ := hstep
        exact absurd rfl hsame
    | @write _ _ request _ hprompt =>
        obtain ⟨content, hcontent, hcarries⟩ :=
          hmeets request (by rw [← hq]; exact hphase i) hsame
        simp only at hcontent
        rw [hcontent, Option.bind_some] at hid
        rcases World.step_upsert_content hstep with hw | ⟨hw, -⟩
        · rw [hw, Option.bind_some, actionIdOf_encode, ApprovalRequest.resolve_actionId,
            hcarries.eq hid]
        · exact absurd hw hsame

theorem PendingKept.step {q' : Phase} (h : PendingKept J calls tr m.before)
    (hphase : ∀ i, callPhase J calls tr i = some (q i))
    (hmeets : DecisionMeetsRequest J calls tr m)
    (hprot : (calls m.thread).protocol J sessionId (q m.thread) m.event = some q')
    (hstep : World.step m.before m.event m.after) :
    PendingKept J calls (tr ++ [m]) m.after := by
  intro pre m' post call hsplit hstores hlater
  rcases Pool.concat_eq_append_cons hsplit with ⟨-, rfl, -⟩ | ⟨post', rfl, htr⟩
  · rw [hstores.2.2, Option.bind_some, actionIdOf_pending]
  · have hbefore := h pre m' post' call htr hstores fun m'' hmem =>
      hlater m'' (List.mem_append_left _ hmem)
    exact actionId_step hphase hmeets hprot hstep (hlater m (by simp)) hbefore

/-- In every run whose decisions meet their requests, no registration is
    lost: the stored document keeps its action id until the next one. -/
theorem pending_kept (hr : Pool.Run World.step (callPool J calls w) tr P)
    (hmeets : Pool.Steps (DecisionMeetsRequest J calls) tr) :
    PendingKept J calls tr P.shared := by
  have hinit : PendingKept J calls [] w := by
    intro pre m post call h
    simp at h
  obtain ⟨q, -, -, hkept⟩ :=
    hr.coupled (I := fun _ => PendingKept J calls) (fun i => (calls i).follows) hinit
      (fun q tr m q' hphase h hC hprot hstep => h.step hphase hC hprot hstep) hmeets
  exact hkept

/-- One request, registered and approved. -/
theorem pending_kept_resolved :
    ∃ tr P, Pool.Run World.step (callPool .compact (raceCalls "cleanup") .initial) tr P ∧
      tr.length = 3 ∧ PendingKept .compact (raceCalls "cleanup") tr P.shared := by
  have h0 : Pool.Run World.step (callPool .compact (raceCalls "cleanup") .initial) []
      ⟨.initial, fun i => (raceCalls "cleanup" i).program .compact⟩ := .nil
  have h1 := h0.next .first (Call.program_approval (approvalArguments_race (by decide)))
    (World.step_write _ _ _) rfl
  have h2 := h1.next .user (Call.program_prompt .compact "1" "deploy" .approve)
    (World.step_read (World.content_write ..)) rfl
  rw [addressed_race] at h2
  have h3 := h2.next .user rfl (World.step_write _ _ _) rfl
  refine ⟨_, _, h3, rfl, pending_kept h3 ?_⟩
  simp only [Pool.steps_concat]
  refine ⟨⟨⟨Pool.steps_nil _, ?_⟩, ?_⟩, ?_⟩
  · intro r hr
    cases hr
  · intro r hr hne
    exact absurd rfl hne
  · intro r hr hne
    simp [callPhase, Pool.phase, Pool.eventsOf, Prog.Protocol.run, raceCalls, Call.protocol,
      promptProtocol, afterRead, addressed_race] at hr
    subst hr
    exact ⟨_, World.content_write .., carries_pending.mpr rfl⟩

/-- An approval of the first request overwrites the second. -/
theorem pending_kept_race :
    ∃ tr P, Pool.Run World.step (callPool .compact (raceCalls "cleanup") .initial) tr P ∧
      ¬ PendingKept .compact (raceCalls "cleanup") tr P.shared := by
  obtain ⟨tr, P, hr, -, hcontent, -, pre, m, m', rfl, hstores, hthread⟩ :=
    race_run .compact (show "cleanup" ≠ "" by decide)
  refine ⟨_, _, hr, ?_⟩
  intro hkept
  have hid := hkept pre m [m'] _ rfl hstores (by
    rintro m'' hm'' other ⟨hreg, -⟩
    obtain rfl := List.mem_singleton.mp hm''
    rw [hthread] at hreg
    cases hreg)
  rw [hcontent, Option.bind_some, actionIdOf_encode] at hid
  exact absurd hid (by decide)

end Spectty.Approval
