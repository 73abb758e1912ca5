/-
  Spectty.Status.Rounds

  The signal loop, round by round.

  What the loop carries from one round to the next depends on its inputs
  alone (`SignalState.next`); what a round does to the world is
  `signalRound`.  `signalLoop_cons` puts the loop in that form.

  `signalProtocol` says which operations the loop performs and in which
  order: observations of its own session, each followed by the event of the
  status it answered, if any.  `follows_signalLoop` shows that the loop keeps
  to it, for every runner and every list of rounds.
-/

import Spectty.SessionRuntime

namespace Spectty.Status

open Spectty.Core
open Spectty.Adapters
open Spectty.Lib

-- ============================================================================
-- Rounds
-- ============================================================================

section

variable (J : SerdeJson) (runner : AgentRunner) (id : SessionId)

/-- What is carried after a round. -/
def SignalState.next (st : SignalState) (tick : Tick) : SignalState :=
  match tick.outcome with
  | .slice bytes =>
      { producer := st.producer.ingest bytes
        lastByteAt := tick.now
        hookReader := (st.hookReader.poll J tick.stateFile).2 }
  | .timeout => { st with hookReader := (st.hookReader.poll J tick.stateFile).2 }
  | .disconnected => st

/-- What is carried after some rounds. -/
def SignalState.after (st : SignalState) (ticks : List Tick) : SignalState :=
  ticks.foldl (SignalState.next J) st

/-- The signal a round scrapes: active after a slice, quiescent otherwise. -/
def SignalState.signal (st : SignalState) (tick : Tick) : OutputSignal :=
  match tick.outcome with
  | .slice bytes => (st.producer.ingest bytes).snapshot tick.now 0 true
  | _ =>
      st.producer.snapshot st.lastByteAt (Timestamp.elapsedMsUntil st.lastByteAt tick.now) false

/-- The signal with the exit code, at the end of the output. -/
def SignalState.exitSignal (st : SignalState) (exitCodeOnEof : Int) (tick : Tick) : OutputSignal :=
  (st.producer.markExit exitCodeOnEof).snapshot tick.now
    (Timestamp.elapsedMsUntil st.lastByteAt tick.now) false

/-- Drive a hook event, if there is one. -/
def driveHook : Option HookEvent → Prog Sys Unit
  | none => return ()
  | some hookEvent => applyAndEmit runner id .hook (eventToObserved hookEvent)

/-- What a round does to the world: the hook first, then the scraped signal. -/
def signalRound (hooksActive : Bool) (st : SignalState) (tick : Tick) : Prog Sys Unit := do
  driveHook runner id (st.hookReader.poll J tick.stateFile).1
  emitScrapingGuarded runner id (SignalState.signal st tick) hooksActive

variable {J runner id}

theorem emitHookIfPresent_eq (hookReader : StateFileReader) (stateFile : Option String) :
    emitHookIfPresent J runner id hookReader stateFile =
      driveHook runner id (hookReader.poll J stateFile).1 >>= fun _ =>
        .ret (hookReader.poll J stateFile).2 := by
  unfold emitHookIfPresent
  rcases hookReader.poll J stateFile with ⟨_ | hookEvent, hookReader'⟩ <;> rfl

/-- A round, then the rest of the loop. -/
theorem signalLoop_cons {hooksActive : Bool} {exitCodeOnEof : Int} {st : SignalState} {tick : Tick}
    (h : tick.outcome ≠ .disconnected) (ticks : List Tick) :
    signalLoop J runner id hooksActive exitCodeOnEof st (tick :: ticks) =
      signalRound J runner id hooksActive st tick >>= fun _ =>
        signalLoop J runner id hooksActive exitCodeOnEof (SignalState.next J st tick) ticks := by
  rw [signalLoop]
  cases htick : tick.outcome with
  | slice bytes =>
      simp only [signalStep, ingestArm, emitHookIfPresent_eq, signalRound, SignalState.signal,
        SignalState.next, htick, Prog.bind_assoc]
      rfl
  | timeout =>
      simp only [signalStep, quiesceArm, emitHookIfPresent_eq, signalRound, SignalState.signal,
        SignalState.next, htick, Prog.bind_assoc]
      rfl
  | disconnected => exact absurd htick h

/-- The closing of the channel ends the loop, with two scraped signals. -/
theorem signalLoop_eof {hooksActive : Bool} {exitCodeOnEof : Int} {st : SignalState} {tick : Tick}
    (h : tick.outcome = .disconnected) (ticks : List Tick) :
    signalLoop J runner id hooksActive exitCodeOnEof st (tick :: ticks) =
      emitOnChange runner id (SignalState.signal st tick) >>= fun _ =>
        emitOnChange runner id (SignalState.exitSignal st exitCodeOnEof tick) := by
  rw [signalLoop, h]
  simp only [signalStep, eofArm, SignalState.signal, SignalState.exitSignal, h]

/-- Rounds without a disconnect, then the rest of the loop. -/
theorem signalLoop_append {hooksActive : Bool} {exitCodeOnEof : Int} {ticks : List Tick}
    (h : ∀ tick ∈ ticks, tick.outcome ≠ .disconnected) (st : SignalState) (rest : List Tick) :
    signalLoop J runner id hooksActive exitCodeOnEof st (ticks ++ rest) =
      signalLoop J runner id hooksActive exitCodeOnEof st ticks >>= fun _ =>
        signalLoop J runner id hooksActive exitCodeOnEof (SignalState.after J st ticks) rest := by
  induction ticks generalizing st with
  | nil => rfl
  | cons tick ticks ih =>
      have htick : tick.outcome ≠ .disconnected := h tick (by simp)
      rw [List.cons_append, signalLoop_cons htick, signalLoop_cons htick, Prog.bind_assoc]
      congr 1
      funext _
      exact ih (fun t ht => h t (by simp [ht])) _

end

-- ============================================================================
-- The protocol
-- ============================================================================

/-- Where the loop stands between two operations. -/
inductive SignalPhase where
  /-- No event is due.  `found` is what a look at the session gave, if that
      was the last operation. -/
  | quiet (found : Option (Option AgentStatus))
  /-- The event of this status is due. -/
  | announcing (status : AgentStatus)
deriving DecidableEq

/-- No event is due. -/
def SignalPhase.IsQuiet : SignalPhase → Prop
  | .quiet _ => True
  | .announcing _ => False

/-- The status whose event is due. -/
def SignalPhase.due : SignalPhase → Option AgentStatus
  | .quiet _ => none
  | .announcing status => some status

/-- The phase after an observation. -/
def afterApply : Option AgentStatus → SignalPhase
  | none => .quiet none
  | some status => .announcing status

section

variable (runner : AgentRunner) (id : SessionId) (guarded : Bool)

/-- The event of a status. -/
def statusEvent (status : AgentStatus) : StatusChanged where
  sessionId := id
  status := status
  quickActions := runner.quickActions status

/-- The operations of the loop.  When `guarded`, a scraped observation comes
    right after a look that does not suppress it. -/
def signalProtocol : Prog.Protocol Sys SignalPhase := fun q e =>
  match q, e with
  | .quiet _, ⟨.getSession id', r⟩ =>
      if id' = id then some (.quiet (some (r.map (·.status)))) else none
  | .quiet found, ⟨.applyObserved source id' observed, r⟩ =>
      if id' = id ∧
          (guarded = true → source = .hook ∨ found.map (suppressed · observed) = some false) then
        some (afterApply r)
      else none
  | .announcing status, ⟨.emit event, _⟩ =>
      if event = statusEvent runner id status then some (.quiet none) else none
  | _, _ => none

/-- The operations of the loop, one case for each. -/
inductive SignalStep : SignalPhase → Event Sys → SignalPhase → Prop where
  | look {found : Option (Option AgentStatus)} {r : Option Session} :
      SignalStep (.quiet found) ⟨.getSession id, r⟩ (.quiet (some (r.map (·.status))))
  | apply {found : Option (Option AgentStatus)} {source : ObservationSource} {observed : Observed}
      {r : Option AgentStatus} :
      (guarded = true → source = .hook ∨ found.map (suppressed · observed) = some false) →
      SignalStep (.quiet found) ⟨.applyObserved source id observed, r⟩ (afterApply r)
  | announce {status : AgentStatus} {r : Unit} :
      SignalStep (.announcing status) ⟨.emit (statusEvent runner id status), r⟩ (.quiet none)

variable {runner id guarded}

theorem signalStep_of_protocol {q q' : SignalPhase} {e : Event Sys}
    (h : signalProtocol runner id guarded q e = some q') : SignalStep runner id guarded q e q' := by
  unfold signalProtocol at h
  split at h
  · split at h
    · rename_i hid
      subst hid
      obtain rfl := Option.some.inj h
      exact .look
    · cases h
  · split at h
    · rename_i hid
      obtain ⟨rfl, hguard⟩ := hid
      obtain rfl := Option.some.inj h
      exact .apply hguard
    · cases h
  · split at h
    · rename_i hevent
      subst hevent
      obtain rfl := Option.some.inj h
      exact .announce
    · cases h
  · cases h

-- ============================================================================
-- The loop keeps to it
-- ============================================================================

theorem follows_applyAndEmit {source : ObservationSource} {observed : Observed}
    {found : Option (Option AgentStatus)}
    (h : guarded = true → source = .hook ∨ found.map (suppressed · observed) = some false) :
    Prog.Follows (signalProtocol runner id guarded) (.quiet found)
      (applyAndEmit runner id source observed) fun _ q => q.IsQuiet := by
  intro r
  refine ⟨afterApply r, if_pos ⟨rfl, h⟩, ?_⟩
  cases r with
  | none => trivial
  | some status =>
      intro u
      exact ⟨.quiet none, if_pos rfl, trivial⟩

theorem follows_driveHook (event : Option HookEvent) (found : Option (Option AgentStatus)) :
    Prog.Follows (signalProtocol runner id guarded) (.quiet found) (driveHook runner id event)
      fun _ q => q.IsQuiet := by
  cases event with
  | none => trivial
  | some hookEvent => exact follows_applyAndEmit fun _ => Or.inl rfl

theorem follows_emitOnChange (hguard : guarded = false) (signal : OutputSignal)
    (found : Option (Option AgentStatus)) :
    Prog.Follows (signalProtocol runner id guarded) (.quiet found)
      (emitOnChange runner id signal) fun _ q => q.IsQuiet := by
  rw [emitOnChange_eq]
  cases runner.detectStatus signal with
  | none => trivial
  | some observed => exact follows_applyAndEmit fun h => by rw [hguard] at h; cases h

theorem follows_emitScrapingGuarded {hooksActive : Bool}
    (hguard : guarded = true → hooksActive = true)
    (signal : OutputSignal) (found : Option (Option AgentStatus)) :
    Prog.Follows (signalProtocol runner id guarded) (.quiet found)
      (emitScrapingGuarded runner id signal hooksActive) fun _ q => q.IsQuiet := by
  unfold emitScrapingGuarded
  split
  · rename_i hactive
    refine follows_emitOnChange ?_ signal found
    cases guarded with
    | false => rfl
    | true =>
        rw [hguard rfl] at hactive
        cases hactive
  · cases runner.detectStatus signal with
    | none => trivial
    | some observed =>
        intro (r : Option Session)
        have hlook : signalProtocol runner id guarded (.quiet found) ⟨.getSession id, r⟩ =
            some (.quiet (some (r.map (·.status)))) := if_pos rfl
        refine ⟨_, hlook, ?_⟩
        show Prog.Follows _ _ (if suppressed (r.map (·.status)) observed then _ else _) _
        split_ifs with hopen
        · trivial
        · refine follows_applyAndEmit fun _ => Or.inr ?_
          simpa using hopen

theorem follows_signalRound {hooksActive : Bool} (hguard : guarded = true → hooksActive = true)
    (st : SignalState) (tick : Tick) (found : Option (Option AgentStatus)) :
    Prog.Follows (signalProtocol runner id guarded) (.quiet found)
      (signalRound J runner id hooksActive st tick) fun _ q => q.IsQuiet := by
  refine (follows_driveHook _ found).bind fun _ q hq => ?_
  cases q with
  | quiet found => exact follows_emitScrapingGuarded hguard _ found
  | announcing status => cases hq

/-- The loop keeps to its protocol, and returns with no event due.  It keeps
    to the guarded one when hooks are active, up to the end of the output. -/
theorem follows_signalLoop {J : SerdeJson} {hooksActive : Bool} {exitCodeOnEof : Int}
    {ticks : List Tick}
    (hguard : guarded = true →
      hooksActive = true ∧ ∀ tick ∈ ticks, tick.outcome ≠ .disconnected)
    (st : SignalState) (found : Option (Option AgentStatus)) :
    Prog.Follows (signalProtocol runner id guarded) (.quiet found)
      (signalLoop J runner id hooksActive exitCodeOnEof st ticks) fun _ q => q.IsQuiet := by
  induction ticks generalizing st found with
  | nil => trivial
  | cons tick ticks ih =>
      by_cases htick : tick.outcome = .disconnected
      · have hoff : guarded = false := by
          cases hg : guarded with
          | false => rfl
          | true => exact absurd htick ((hguard hg).2 tick (by simp))
        rw [signalLoop_eof htick]
        refine (follows_emitOnChange hoff _ found).bind fun _ q hq => ?_
        cases q with
        | quiet found => exact follows_emitOnChange hoff _ found
        | announcing status => cases hq
      · rw [signalLoop_cons htick]
        refine (follows_signalRound (fun h => (hguard h).1) st tick found).bind fun _ q hq => ?_
        cases q with
        | quiet found =>
            exact ih (fun h => ⟨(hguard h).1, fun t ht => (hguard h).2 t (by simp [ht])⟩) _ found
        | announcing status => cases hq

end

-- ============================================================================
-- The event that is due
-- ============================================================================

/-- The thread's next operation is the event of the given status, or, for
    `none`, no event. -/
def Due (runner : AgentRunner) (id : SessionId) {α : Type} (p : Prog Sys α) :
    Option AgentStatus → Prop
  | none => ∀ event k, p ≠ .op (.emit event) k
  | some status => ∃ k, p = .op (.emit (statusEvent runner id status)) k

/-- The phase of a thread that keeps to the protocol says which event is due. -/
theorem due_of_follows {runner : AgentRunner} {id : SessionId} {guarded : Bool} {α : Type}
    {p : Prog Sys α} {q : SignalPhase}
    (h : Prog.Follows (signalProtocol runner id guarded) q p fun _ q => q.IsQuiet) :
    Due runner id p q.due := by
  cases q with
  | quiet found =>
      rintro event k rfl
      obtain ⟨q', hq', -⟩ := h ()
      cases hq'
  | announcing status =>
      cases p with
      | ret a => cases h
      | op o k =>
          have hstep : ∃ r q',
              signalProtocol runner id guarded (.announcing status) ⟨o, r⟩ = some q' := by
            cases o with
            | storeGet k => exact ⟨.ok none, _, (h (.ok none)).choose_spec.1⟩
            | storeUpsert k payload => exact ⟨.ok (), _, (h (.ok ())).choose_spec.1⟩
            | applyObserved source id observed => exact ⟨none, _, (h none).choose_spec.1⟩
            | getSession id => exact ⟨none, _, (h none).choose_spec.1⟩
            | removeSession id => exact ⟨none, _, (h none).choose_spec.1⟩
            | emit event => exact ⟨(), _, (h ()).choose_spec.1⟩
          obtain ⟨r, q', hq'⟩ := hstep
          have hkind := signalStep_of_protocol hq'
          cases hkind
          exact ⟨k, rfl⟩

-- ============================================================================
-- A pool with the loop of a session
-- ============================================================================

section

variable {ι : Type} [DecidableEq ι]

/-- The protocols of a pool whose thread `i` is a session's signal loop and
    whose other threads do not observe the session. -/
def loopProtocol (runner : AgentRunner) (id : SessionId) (guarded : Bool) (i j : ι) :
    Prog.Protocol Sys SignalPhase :=
  if j = i then signalProtocol runner id guarded
  else fun q e => if World.observesNot id e.op then some q else none

/-- The pool keeps to its protocols. -/
theorem follows_loopProtocol {J : SerdeJson} {runner : AgentRunner} {id : SessionId}
    {guarded : Bool} {i : ι} {hooksActive : Bool} {exitCodeOnEof : Int}
    {hookReader : StateFileReader} {startedAt : Timestamp} {ticks : List Tick}
    {P : Pool ι World Sys Unit}
    (hloop : P.threads i =
      runSignalLoop J runner id hooksActive exitCodeOnEof hookReader startedAt ticks)
    (hothers : ∀ j, j ≠ i → Prog.AllOps (World.observesNot id · = true) (P.threads j))
    (hguard : guarded = true →
      hooksActive = true ∧ ∀ tick ∈ ticks, tick.outcome ≠ .disconnected) (j : ι) :
    Prog.Follows (loopProtocol runner id guarded i j) (.quiet none) (P.threads j)
      fun _ q => q.IsQuiet := by
  unfold loopProtocol
  split_ifs with hj
  · subst hj
    rw [hloop]
    exact follows_signalLoop hguard _ none
  · exact ((hothers j hj).follows (SignalPhase.quiet none)).mono fun _ q hq => by rw [hq]; trivial

end

end Spectty.Status
