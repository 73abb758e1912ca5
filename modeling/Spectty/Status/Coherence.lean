/-
  Spectty.Status.Coherence

  The status the UI shows against the one the registry stores.

  Two loops emit `status_changed`: a session's signal loop, for a change it
  made in the registry, and its approval poll loop, for a pending request,
  with the registry as it was.  `status_coherent` says on which runs the two
  statuses agree: those in which an approval is only surfaced for a session
  that awaits input already (or is gone, or whose next event is due).
-/

import Spectty.Status.Trace
import Spectty.Gate
import Spectty.Approval.Visible

namespace Spectty.Status

open Spectty.Core
open Spectty.Adapters
open Spectty.Commands
open Spectty.Mcp
open Spectty.Lib

-- ============================================================================
-- The threads
-- ============================================================================

/-- What a thread of the application or of the sidecar does. -/
inductive Role where
  | signals (id : SessionId) (runner : AgentRunner) (hooksActive : Bool) (exitCodeOnEof : Int)
      (hookReader : StateFileReader) (startedAt : Timestamp) (ticks : List Tick)
  | approvals (id : SessionId) (contentHash : String → Nat) (ticks : Nat)
  | prompt (id : SessionId) (actionId : String) (decision : ApprovalDecision)
  | tool (call : ToolCall)
  | close (id : SessionId)

namespace Role

/-- The session whose signal loop the thread is. -/
def signalsOf : Role → Option SessionId
  | .signals id _ _ _ _ _ _ => some id
  | _ => none

/-- The thread's program. -/
def program (J : SerdeJson) : Role → Prog Sys Unit
  | .signals id runner hooksActive exitCodeOnEof hookReader startedAt ticks =>
      runSignalLoop J runner id hooksActive exitCodeOnEof hookReader startedAt ticks
  | .approvals id contentHash ticks => approvalPollLoop J contentHash id ticks
  | .prompt id actionId decision => do
      let _ ← approvePrompt J id actionId decision
      return ()
  | .tool call => do
      let _ ← handleToolsCall J call.env call.params
      return ()
  | .close id => do
      let _ ← Sys.removeSession id
      return ()

/-- The operations of the threads that are no signal loop: they observe
    nothing, and announce nothing but awaited input. -/
def background : Op → Bool
  | .applyObserved _ _ _ => false
  | .emit event => event.status = .awaitingInput
  | _ => true

/-- The protocol of the thread. -/
def protocol : Role → Prog.Protocol Sys SignalPhase
  | .signals id runner _ _ _ _ _ => signalProtocol runner id false
  | _ => fun q e => if background e.op then some q else none

/-- Every thread that is no signal loop runs in the background. -/
theorem allOps_background (J : SerdeJson) {role : Role} (h : role.signalsOf = none) :
    Prog.AllOps (background · = true) (role.program J) := by
  cases role with
  | signals id runner hooksActive exitCodeOnEof hookReader startedAt ticks => cases h
  | approvals id contentHash ticks =>
      refine allOps_approvalPollLoop ?_ ?_ ticks
      · rfl
      · intro event h
        simp [background, h]
  | prompt id actionId decision =>
      refine Prog.AllOps.bind (allOps_approvePrompt ?_ ?_ actionId decision) fun _ => trivial
      · rfl
      · exact fun _ => rfl
  | tool call =>
      refine ((call.allOps J).mono fun o ho => ?_).bind fun _ => trivial
      cases o <;> first | rfl | cases ho
  | close id => exact ⟨rfl, fun _ => trivial⟩

/-- Every thread keeps to its protocol. -/
theorem follows (J : SerdeJson) (role : Role) :
    Prog.Follows role.protocol (.quiet none) (role.program J) fun _ q => q.IsQuiet := by
  cases role with
  | signals id runner hooksActive exitCodeOnEof hookReader startedAt ticks =>
      exact follows_signalLoop (fun h => by cases h) _ none
  | _ =>
      exact ((allOps_background J rfl).follows (SignalPhase.quiet none)).mono
        fun _ q hq => by rw [hq]; trivial

end Role

/-- The threads of the application: one signal loop at most for a session. -/
structure Deployment (ι : Type) where
  roles : ι → Role
  single : ∀ i j id, (roles i).signalsOf = some id → (roles j).signalsOf = some id → i = j

-- ============================================================================
-- The shown status
-- ============================================================================

/-- The status of the last event of a session, or the registered one. -/
def shownStatus (registered : Option AgentStatus) (id : SessionId) (emitted : List StatusChanged) :
    Option AgentStatus :=
  ((emitted.reverse.find? (·.sessionId = id)).map (·.status)).or registered

theorem shownStatus_concat_self {registered : Option AgentStatus} {emitted : List StatusChanged}
    (event : StatusChanged) :
    shownStatus registered event.sessionId (emitted ++ [event]) = some event.status := by
  simp [shownStatus]

theorem shownStatus_concat_of_ne {registered : Option AgentStatus} {id : SessionId}
    {emitted : List StatusChanged} {event : StatusChanged} (h : event.sessionId ≠ id) :
    shownStatus registered id (emitted ++ [event]) = shownStatus registered id emitted := by
  simp [shownStatus, h]

section

variable {ι : Type} [DecidableEq ι] (J : SerdeJson) (d : Deployment ι)

/-- The threads over a world in which nothing has been announced. -/
def Deployment.pool (w : World) : Pool ι World Sys Unit where
  shared := { w with emitted := [] }
  threads := fun i => (d.roles i).program J

/-- Where thread `i` stands after a trace. -/
def Deployment.phase (tr : List (Moment ι World Sys)) (i : ι) : Option SignalPhase :=
  Pool.phase (fun i => (d.roles i).protocol) (fun _ => .quiet none) i tr

/-- An approval is surfaced only for a session that awaits input, is gone, or
    whose signal loop has an event due. -/
def SurfacesAwaited (tr : List (Moment ι World Sys)) (m : Moment ι World Sys) : Prop :=
  ∀ event, (d.roles m.thread).signalsOf = none → m.event.op = .emit event →
    m.before.status event.sessionId = some .awaitingInput ∨
    m.before.status event.sessionId = none ∨
    ∃ i status, (d.roles i).signalsOf = some event.sessionId ∧
      d.phase tr i = some (.announcing status)

/-- The shown status of every session is the stored one, when its signal loop
    is not about to emit. -/
def Coherent (w : World) (P : Pool ι World Sys Unit) : Prop :=
  ∀ id status, P.shared.status id = some status →
    (∀ i, (d.roles i).signalsOf = some id → ∀ event k, P.threads i ≠ .op (.emit event) k) →
    shownStatus (w.status id) id P.shared.emitted = some status

/-- What holds between the phases, the registry and the events. -/
structure CoherenceInv (registered : SessionId → Option AgentStatus) (q : ι → SignalPhase)
    (w : World) : Prop where
  /-- The event due is that of the stored status. -/
  due : ∀ id s i s', w.status id = some s → (d.roles i).signalsOf = some id →
    (q i).due = some s' → s' = s
  /-- With none due, the shown status is the stored one. -/
  shown : ∀ id s, w.status id = some s →
    (∀ i, (d.roles i).signalsOf = some id → (q i).due = none) →
    shownStatus (registered id) id w.emitted = some s

end

section

variable {ι : Type} [DecidableEq ι] {J : SerdeJson} {d : Deployment ι}
  {registered : SessionId → Option AgentStatus} {q q' : ι → SignalPhase} {w w' : World}

omit [DecidableEq ι] in
/-- A step that moves no event and keeps or drops each stored status. -/
theorem CoherenceInv.step_le (h : CoherenceInv d registered q w)
    (hdue : ∀ i, (q' i).due = (q i).due)
    (hstatus : ∀ id, w'.status id = w.status id ∨ w'.status id = none)
    (hemitted : w'.emitted = w.emitted) : CoherenceInv d registered q' w' := by
  have hback : ∀ id s, w'.status id = some s → w.status id = some s := by
    intro id s hs
    rcases hstatus id with hle | hle
    · rw [← hle]
      exact hs
    · rw [hle] at hs
      cases hs
  refine ⟨fun id s i s' hs hi hd => ?_, fun id s hs hnone => ?_⟩
  · rw [hdue] at hd
    exact h.due id s i s' (hback id s hs) hi hd
  · rw [hemitted]
    exact h.shown id s (hback id s hs) fun i hi => by rw [← hdue]; exact hnone i hi

/-- An observation that moves the stored status makes its event due. -/
theorem CoherenceInv.step_change {id : SessionId} {j : ι} {s' : AgentStatus} {qj : SignalPhase}
    (h : CoherenceInv d registered q w) (hj : (d.roles j).signalsOf = some id)
    (hafter : w'.status id = some s') (hother : ∀ id', id' ≠ id → w'.status id' = w.status id')
    (hemitted : w'.emitted = w.emitted) (hdue : qj.due = some s') :
    CoherenceInv d registered (Function.update q j qj) w' := by
  have hne : ∀ {i id'}, (d.roles i).signalsOf = some id' → id' ≠ id → i ≠ j := by
    rintro i id' hi hid rfl
    rw [hj] at hi
    exact hid (Option.some.inj hi).symm
  refine ⟨fun id' s i t hs hi hd => ?_, fun id' s hs hnone => ?_⟩
  · by_cases hid : id' = id
    · subst hid
      obtain rfl := d.single i j id' hi hj
      rw [Function.update_self, hdue] at hd
      rw [hafter] at hs
      rw [← Option.some.inj hd, Option.some.inj hs]
    · rw [Function.update_of_ne (hne hi hid)] at hd
      rw [hother id' hid] at hs
      exact h.due id' s i t hs hi hd
  · by_cases hid : id' = id
    · subst hid
      have hquiet := hnone j hj
      rw [Function.update_self, hdue] at hquiet
      cases hquiet
    · rw [hemitted]
      rw [hother id' hid] at hs
      refine h.shown id' s hs fun i hi => ?_
      have hquiet := hnone i hi
      rw [Function.update_of_ne (hne hi hid)] at hquiet
      exact hquiet

/-- The due event is emitted. -/
theorem CoherenceInv.step_announce {id : SessionId} {j : ι} {event : StatusChanged}
    {qj : SignalPhase} (h : CoherenceInv d registered q w) (hj : (d.roles j).signalsOf = some id)
    (hid : event.sessionId = id) (hdue : (q j).due = some event.status) (hquiet : qj.due = none)
    (hstatus : ∀ id, w'.status id = w.status id) (hemitted : w'.emitted = w.emitted ++ [event]) :
    CoherenceInv d registered (Function.update q j qj) w' := by
  subst hid
  refine ⟨fun id' s i t hs hi hd => ?_, fun id' s hs hnone => ?_⟩
  · by_cases hij : i = j
    · subst hij
      rw [Function.update_self, hquiet] at hd
      cases hd
    · rw [Function.update_of_ne hij] at hd
      rw [hstatus] at hs
      exact h.due id' s i t hs hi hd
  · rw [hstatus] at hs
    rw [hemitted]
    by_cases hid' : event.sessionId = id'
    · subst hid'
      rw [shownStatus_concat_self, h.due _ s j _ hs hj hdue]
    · rw [shownStatus_concat_of_ne hid']
      refine h.shown id' s hs fun i hi => ?_
      have hij : i ≠ j := by
        rintro rfl
        rw [hj] at hi
        exact hid' (Option.some.inj hi)
      have hnot := hnone i hi
      rw [Function.update_of_ne hij] at hnot
      exact hnot

omit [DecidableEq ι] in
/-- An approval is surfaced for a session that awaits input, is gone, or has
    an event due. -/
theorem CoherenceInv.step_surface {event : StatusChanged} (h : CoherenceInv d registered q w)
    (hdue : ∀ i, (q' i).due = (q i).due) (hawaiting : event.status = .awaitingInput)
    (hsurfaces : w.status event.sessionId = some .awaitingInput ∨
      w.status event.sessionId = none ∨
      ∃ i status, (d.roles i).signalsOf = some event.sessionId ∧ (q i).due = some status)
    (hstatus : ∀ id, w'.status id = w.status id) (hemitted : w'.emitted = w.emitted ++ [event]) :
    CoherenceInv d registered q' w' := by
  refine ⟨fun id s i t hs hi hd => ?_, fun id s hs hnone => ?_⟩
  · rw [hdue] at hd
    rw [hstatus] at hs
    exact h.due id s i t hs hi hd
  · rw [hstatus] at hs
    rw [hemitted]
    by_cases hid : event.sessionId = id
    · subst hid
      rw [shownStatus_concat_self, hawaiting]
      rcases hsurfaces with hst | hst | ⟨i, status, hi, hd⟩
      · rw [← hst, hs]
      · rw [hst] at hs
        cases hs
      · have hquiet := hnone i hi
        rw [hdue, hd] at hquiet
        cases hquiet
    · rw [shownStatus_concat_of_ne hid]
      exact h.shown id s hs fun i hi => by rw [← hdue]; exact hnone i hi

/-- Moving a thread between phases with the same event due moves no event. -/
theorem due_update {j : ι} {qj : SignalPhase} (h : qj.due = (q j).due) (i : ι) :
    (Function.update q j qj i).due = (q i).due := by
  by_cases hij : i = j
  · subst hij
    rw [Function.update_self, h]
  · rw [Function.update_of_ne hij]

/-- Every operation of a signal loop keeps the invariant. -/
theorem CoherenceInv.step_signals {id : SessionId} {runner : AgentRunner} {j : ι}
    {qj : SignalPhase} {e : Event Sys} (h : CoherenceInv d registered q w)
    (hj : (d.roles j).signalsOf = some id) (hkind : SignalStep runner id false (q j) e qj)
    (hstep : World.step w e w') : CoherenceInv d registered (Function.update q j qj) w' := by
  generalize hq : q j = q₀ at hkind
  cases hkind with
  | look =>
      obtain ⟨rfl, -⟩ := World.step_getSession hstep
      exact h.step_le (due_update (by rw [hq]; rfl)) (fun _ => Or.inl rfl) rfl
  | apply hguard =>
      rcases World.step_applyObserved hstep with ⟨rfl, rfl⟩ | ⟨s, -, -, rfl, hafter⟩
      · exact h.step_le (due_update (by rw [hq]; rfl)) (fun _ => Or.inl rfl) rfl
      · refine h.step_change hj hafter (fun id' hid => ?_) (World.step_emitted hstep ?_) rfl
        · exact World.step_status hstep (by simpa [World.touchesStatus] using Ne.symm hid)
        · rintro event ⟨⟩
  | announce =>
      obtain ⟨hemitted, hsessions⟩ := World.step_emit hstep
      refine h.step_announce hj rfl (by rw [hq]; rfl) rfl (fun id' => ?_) hemitted
      rw [World.status, hsessions, World.status]

omit [DecidableEq ι] in
/-- Every operation of another thread keeps it, if approvals surface for
    awaited input only. -/
theorem CoherenceInv.step_background {e : Event Sys} (h : CoherenceInv d registered q w)
    (hdue : ∀ i, (q' i).due = (q i).due) (hop : Role.background e.op = true)
    (hsurfaces : ∀ event, e.op = .emit event →
      w.status event.sessionId = some .awaitingInput ∨ w.status event.sessionId = none ∨
      ∃ i status, (d.roles i).signalsOf = some event.sessionId ∧ (q i).due = some status)
    (hstep : World.step w e w') : CoherenceInv d registered q' w' := by
  by_cases hemit : ∃ event, e.op = .emit event
  · obtain ⟨event, he⟩ := hemit
    obtain ⟨o, r⟩ := e
    simp only at he
    subst he
    obtain ⟨hemitted, hsessions⟩ := World.step_emit hstep
    refine h.step_surface hdue (by simpa [Role.background] using hop) (hsurfaces event rfl)
      (fun id => ?_) hemitted
    rw [World.status, hsessions, World.status]
  · refine h.step_le hdue (fun id => World.step_status_le hstep ?_)
      (World.step_emitted hstep fun event he => hemit ⟨event, he⟩)
    cases ho : e.op with
    | applyObserved source id' observed =>
        rw [ho] at hop
        cases hop
    | _ => rfl

theorem CoherenceInv.step {tr : List (Moment ι World Sys)} {m : Moment ι World Sys}
    {qj : SignalPhase} (hphase : ∀ i, d.phase tr i = some (q i))
    (h : CoherenceInv d registered q m.before) (hsurfaces : SurfacesAwaited d tr m)
    (hprot : (d.roles m.thread).protocol (q m.thread) m.event = some qj)
    (hstep : World.step m.before m.event m.after) :
    CoherenceInv d registered (Function.update q m.thread qj) m.after := by
  cases hj : (d.roles m.thread).signalsOf with
  | some id =>
      cases hrole : d.roles m.thread with
      | signals id' runner hooksActive exitCodeOnEof hookReader startedAt ticks =>
          rw [hrole] at hprot hj
          obtain rfl := Option.some.inj hj
          exact h.step_signals (by rw [hrole]; rfl) (signalStep_of_protocol hprot) hstep
      | _ =>
          rw [hrole] at hj
          cases hj
  | none =>
      have hback : Role.background m.event.op = true ∧ qj = q m.thread := by
        cases hrole : d.roles m.thread with
        | signals id' runner hooksActive exitCodeOnEof hookReader startedAt ticks =>
            rw [hrole] at hj
            cases hj
        | _ =>
            rw [hrole] at hprot
            simp only [Role.protocol] at hprot
            split_ifs at hprot with hop
            exact ⟨hop, (Option.some.inj hprot).symm⟩
      obtain ⟨hop, rfl⟩ := hback
      refine h.step_background (due_update rfl) hop (fun event he => ?_) hstep
      rcases hsurfaces event hj he with hst | hst | ⟨i, status, hi, hannouncing⟩
      · exact Or.inl hst
      · exact Or.inr (Or.inl hst)
      · rw [hphase] at hannouncing
        exact Or.inr (Or.inr ⟨i, status, hi, by rw [Option.some.inj hannouncing]; rfl⟩)

-- ============================================================================
-- Runs
-- ============================================================================

/-- In every run whose approvals surface for awaited input only, the UI shows
    what the registry stores. -/
theorem status_coherent {P : Pool ι World Sys Unit} {tr : List (Moment ι World Sys)}
    (hr : Pool.Run World.step (d.pool J w) tr P)
    (hsurfaces : Pool.Steps (SurfacesAwaited d) tr) : Coherent d w P := by
  have hinit : CoherenceInv d w.status (fun _ => .quiet none) { w with emitted := [] } := by
    refine ⟨fun id s i s' _ _ hd => ?_, fun id s hs _ => ?_⟩
    · cases hd
    · exact hs
  obtain ⟨q, -, hfollows, hinv⟩ :=
    hr.coupled (I := fun q _ w' => CoherenceInv d w.status q w')
      (fun i => (d.roles i).follows J) hinit
      (fun q tr m q' hphase h hC hprot hstep => h.step hphase hC hprot hstep) hsurfaces
  intro id status hstatus hnot
  refine hinv.shown id status hstatus fun i hi => ?_
  cases hrole : d.roles i with
  | signals id' runner hooksActive exitCodeOnEof hookReader startedAt ticks =>
      have hthread := hfollows i
      rw [hrole] at hthread
      have hdue := due_of_follows hthread
      cases hq : (q i).due with
      | none => rfl
      | some s =>
          rw [hq] at hdue
          obtain ⟨k, hk⟩ := hdue
          exact absurd hk (hnot i hi _ k)
  | _ =>
      rw [hrole] at hi
      cases hi

end

-- ============================================================================
-- A surfaced approval
-- ============================================================================

/-- The threads of a spawned session, without the agent's. -/
inductive Spawned where
  | signals
  | approvals
deriving DecidableEq

/-- The loops of session 1, over one round of the approval poll. -/
def spawned : Deployment Spawned where
  roles := fun
    | .signals => .signals "1" claudeCodeRunner true 0 (.new "/run" "1") 0 []
    | .approvals => .approvals "1" (fun _ => 0) 1
  single := by
    intro i j id hi hj
    cases i <;> cases j <;> first | rfl | (cases hi; done) | cases hj

/-- A pending request without options. -/
def pendingText : String := SerdeJson.compact.toString (Approval.optionsCall (.arr [])).pending

/-- Session 1 with this status and a pending request. -/
def surfacingWorld (status : AgentStatus) : World :=
  (World.ofSession ⟨"1", "", ⟨"claude-code", none, .cooperative⟩, status, "", 0⟩).write
    (approvalKey "1") pendingText

/-- The event the pending request is surfaced by. -/
def surfacedEvent : StatusChanged where
  sessionId := "1"
  status := .awaitingInput
  quickActions := []

/-- The approval poll reads the request and surfaces it. -/
theorem spawned_approvals :
    ∃ k, (spawned.roles .approvals).program .compact = .op (.storeGet (approvalKey "1")) k ∧
      ∃ k', k (.ok (some pendingText)) = .op (.emit surfacedEvent) k' ∧ k' () = .ret () := by
  have hevent : ∀ updatedAt, approvalStatusFromChange .compact
      ⟨approvalKey "1", pendingText, updatedAt⟩ = some surfacedEvent := by
    intro updatedAt
    have hseen := Approval.approvalStatusFromChange_pending (J := .compact)
      (show (Approval.optionsCall (.arr [])).sessionId ≠ "" by decide) updatedAt
    exact hseen
  simp only [spawned, Role.program, approvalPollLoop]
  rw [runPollLoop_succ]
  refine ⟨_, rfl, ?_⟩
  simp only [PortPollReader.observed, PortPollReader.stamp, PortPollReader.new, SpecBus.decide,
    SpecBus.isNewer, SpecBus.new, Prod.map, Function.comp_apply, if_true, Option.elim_some, hevent]
  exact ⟨_, rfl, rfl⟩

/-- The pending request is surfaced, whatever the stored status. -/
theorem surfacing_run (status : AgentStatus) :
    ∃ tr P, Pool.Run World.step (spawned.pool .compact (surfacingWorld status)) tr P ∧
      (∀ i, P.threads i = .ret ()) ∧ P.shared.status "1" = some status ∧
      P.shared.emitted = [surfacedEvent] ∧
      (status = .awaitingInput → Pool.Steps (SurfacesAwaited spawned) tr) := by
  obtain ⟨k, hk, k', hk', hret⟩ := spawned_approvals
  let w : World := { surfacingWorld status with emitted := [] }
  have hstart : Pool.Run World.step (spawned.pool .compact (surfacingWorld status)) []
      ⟨w, fun i => (spawned.roles i).program .compact⟩ := .nil
  have hread := hstart.next .approvals hk (World.step_read (World.content_write ..)) hk'
  have hemit := hread.next .approvals rfl (World.step_emission _ _) hret
  refine ⟨_, _, hemit, fun i => ?_, rfl, rfl, ?_⟩
  · cases i <;> rfl
  · rintro rfl
    simp only [Pool.steps_concat]
    refine ⟨⟨Pool.steps_nil _, ?_⟩, ?_⟩
    · rintro event - ⟨⟩
    · rintro event - ⟨⟩
      exact Or.inl rfl

/-- For a session that awaits input, the two statuses agree. -/
theorem status_coherent_awaiting :
    ∃ tr P, Pool.Run World.step (spawned.pool .compact (surfacingWorld .awaitingInput)) tr P ∧
      P.shared.emitted = [surfacedEvent] ∧
      Coherent spawned (surfacingWorld .awaitingInput) P := by
  obtain ⟨tr, P, hr, -, -, hemitted, hsurfaces⟩ := surfacing_run .awaitingInput
  exact ⟨tr, P, hr, hemitted, status_coherent hr (hsurfaces rfl)⟩

/-- For an idle session, the UI shows awaited input, with every thread done. -/
theorem status_incoherent_idle :
    ∃ tr P, Pool.Run World.step (spawned.pool .compact (surfacingWorld .idle)) tr P ∧
      (∀ i, P.threads i = .ret ()) ∧ ¬ Coherent spawned (surfacingWorld .idle) P := by
  obtain ⟨tr, P, hr, hdone, hstatus, hemitted, -⟩ := surfacing_run .idle
  refine ⟨tr, P, hr, hdone, fun hcoherent => ?_⟩
  have hshown := hcoherent "1" .idle hstatus fun i _ event k hk => by
    rw [hdone] at hk
    cases hk
  rw [hemitted] at hshown
  cases hshown

end Spectty.Status
