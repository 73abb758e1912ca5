/-
  Spectty.Status.IdleTimeout

  The signal loop of a generic session, without hooks.

  Each round makes one observation, which is a function of the clock and of the
  last slice (`idleObserved`).  `idleProtocol` numbers the rounds, so that a step
  of a run can be told to belong to one; `completes_idle` is the law for
  every interleaving, whatever the other threads do.
-/

import Spectty.Status.Terminal

namespace Spectty.Status

open Spectty.Core
open Spectty.Adapters
open Spectty.Lib

/-- When the last slice of some rounds came, the start when none did. -/
def lastSliceAt (startedAt : Timestamp) (ticks : List Tick) : Timestamp :=
  ticks.foldl
    (fun last tick =>
      match tick.outcome with
      | .slice _ => tick.now
      | _ => last)
    startedAt

/-- What the generic runner observes in a round after some others. -/
def idleObserved (idleTimeoutMs : Nat) (startedAt : Timestamp) (before : List Tick) (tick : Tick) :
    Observed :=
  match tick.outcome with
  | .slice _ => .working
  | _ =>
      if Timestamp.elapsedMsUntil (lastSliceAt startedAt before) tick.now ≥ idleTimeoutMs then
        .finished
      else .ready

/-- A quiet round, at least the timeout after the last slice. -/
structure TimedOut (idleTimeoutMs : Nat) (startedAt : Timestamp) (before : List Tick)
    (tick : Tick) : Prop where
  quiet : tick.outcome = .timeout
  idle : lastSliceAt startedAt before + idleTimeoutMs ≤ tick.now

-- ============================================================================
-- The clock
-- ============================================================================

section

variable {startedAt : Timestamp} {idleTimeoutMs : Nat} {before after : List Tick} {tick : Tick}

theorem lastSliceAt_concat (before : List Tick) (tick : Tick) :
    lastSliceAt startedAt (before ++ [tick]) =
      match tick.outcome with
      | .slice _ => tick.now
      | _ => lastSliceAt startedAt before := by
  unfold lastSliceAt
  rw [List.foldl_append]
  rfl

theorem lastSliceAt_mem : lastSliceAt startedAt before ∈ startedAt :: before.map (·.now) := by
  induction before using List.reverseRecOn with
  | nil => simp [lastSliceAt]
  | append_singleton before tick ih =>
      rw [lastSliceAt_concat, List.map_append, ← List.cons_append]
      cases tick.outcome with
      | slice bytes => exact List.mem_append_right _ (by simp)
      | timeout | disconnected => exact List.mem_append_left _ ih

/-- No slice came later than a round that follows it. -/
theorem lastSliceAt_le
    (hclock : (startedAt :: (before ++ tick :: after).map (·.now)).Pairwise (· ≤ ·)) :
    lastSliceAt startedAt before ≤ tick.now := by
  rw [List.map_append, ← List.cons_append, List.pairwise_append] at hclock
  exact hclock.2.2 _ lastSliceAt_mem _ (by simp)

/-- A session is observed finished in a timed out round only, and never failed. -/
theorem timedOut_of_finished (hopen : tick.outcome ≠ .disconnected)
    (hclock : (startedAt :: (before ++ tick :: after).map (·.now)).Pairwise (· ≤ ·))
    (h : idleObserved idleTimeoutMs startedAt before tick = .finished) :
    TimedOut idleTimeoutMs startedAt before tick := by
  have hle := lastSliceAt_le hclock
  unfold idleObserved at h
  cases houtcome : tick.outcome with
  | slice bytes => simp [houtcome] at h
  | disconnected => exact absurd houtcome hopen
  | timeout =>
      simp only [houtcome] at h
      split at h
      case isTrue hidle =>
        exact ⟨houtcome, Nat.add_le_of_le_sub' hle hidle⟩
      case isFalse => cases h

theorem idleObserved_ne_failed : idleObserved idleTimeoutMs startedAt before tick ≠ .failed := by
  unfold idleObserved
  split
  · simp
  · split <;> simp

end

-- ============================================================================
-- One observation a round
-- ============================================================================

/-- The rounds the loop is through, those to come, and the event that is due. -/
structure IdlePhase where
  before : List Tick
  rest : List Tick
  due : Option AgentStatus

section

variable (idleTimeoutMs : Nat) (startedAt : Timestamp) (id : SessionId)

/-- The operations of the loop: an observation a round, and the event of the
    status it answered. -/
def idleProtocol : Prog.Protocol Sys IdlePhase := fun q e =>
  match q, e with
  | ⟨before, tick :: rest, none⟩, ⟨.applyObserved _ id' observed, r⟩ =>
      if id' = id ∧ observed = idleObserved idleTimeoutMs startedAt before tick then
        some ⟨before ++ [tick], rest, r⟩
      else none
  | ⟨before, rest, some _⟩, ⟨.emit _, _⟩ => some ⟨before, rest, none⟩
  | _, _ => none

theorem idleProtocol_announce {before rest : List Tick} {status : AgentStatus}
    {event : StatusChanged} {r : Unit} :
    idleProtocol idleTimeoutMs startedAt id ⟨before, rest, some status⟩ ⟨.emit event, r⟩ =
      some ⟨before, rest, none⟩ := by
  cases rest <;> rfl

/-- The operations of the loop, one case for each. -/
inductive IdleStep : IdlePhase → Event Sys → IdlePhase → Prop where
  | observe {before rest : List Tick} {tick : Tick} {source : ObservationSource}
      {r : Option AgentStatus} :
      IdleStep ⟨before, tick :: rest, none⟩
        ⟨.applyObserved source id (idleObserved idleTimeoutMs startedAt before tick), r⟩
        ⟨before ++ [tick], rest, r⟩
  | announce {before rest : List Tick} {status : AgentStatus} {event : StatusChanged} {r : Unit} :
      IdleStep ⟨before, rest, some status⟩ ⟨.emit event, r⟩ ⟨before, rest, none⟩

variable {idleTimeoutMs startedAt id}

theorem idleStep_of_protocol {q q' : IdlePhase} {e : Event Sys}
    (h : idleProtocol idleTimeoutMs startedAt id q e = some q') :
    IdleStep idleTimeoutMs startedAt id q e q' := by
  unfold idleProtocol at h
  split at h
  · split at h
    · rename_i hcond
      obtain ⟨rfl, rfl⟩ := hcond
      obtain rfl := Option.some.inj h
      exact .observe
    · cases h
  · obtain rfl := Option.some.inj h
    exact .announce
  · cases h

variable {J : SerdeJson} {hookReader : StateFileReader} {exitCodeOnEof : Int}

theorem after_concat (st : SignalState) (ticks : List Tick) (tick : Tick) :
    SignalState.after J st (ticks ++ [tick]) =
      SignalState.next J (SignalState.after J st ticks) tick := by
  unfold SignalState.after
  rw [List.foldl_append]
  rfl

theorem lastByteAt_after (ticks : List Tick) :
    (SignalState.after J (.start startedAt hookReader) ticks).lastByteAt =
      lastSliceAt startedAt ticks := by
  induction ticks using List.reverseRecOn with
  | nil => rfl
  | append_singleton ticks tick ih =>
      rw [lastSliceAt_concat, after_concat, SignalState.next]
      cases tick.outcome with
      | slice bytes => rfl
      | timeout | disconnected => exact ih

/-- What the generic runner makes of the signal of a round. -/
theorem detectStatus_signal (before : List Tick) (tick : Tick) :
    (genericRunner idleTimeoutMs).detectStatus
        (SignalState.signal (SignalState.after J (.start startedAt hookReader) before) tick) =
      some (idleObserved idleTimeoutMs startedAt before tick) := by
  have hexit : (SignalState.after J (.start startedAt hookReader) before).producer.exitCode =
      none := exitCode_after before _
  have hlast : (SignalState.after J (.start startedAt hookReader) before).lastByteAt =
      lastSliceAt startedAt before := lastByteAt_after before
  unfold SignalState.signal idleObserved
  cases tick.outcome with
  | slice bytes =>
      simp [genericRunner, GenericRunner.detectStatus, OutputSignalProducer.snapshot, hexit]
  | timeout | disconnected =>
      simp only [genericRunner, GenericRunner.detectStatus, OutputSignalProducer.snapshot, hexit,
        hlast, Bool.false_eq_true, if_false]
      split <;> rfl

/-- Without a state file a round is one observation. -/
theorem signalRound_generic (before : List Tick) {tick : Tick} (hfile : tick.stateFile = none) :
    signalRound J (genericRunner idleTimeoutMs) id false
        (SignalState.after J (.start startedAt hookReader) before) tick =
      applyAndEmit (genericRunner idleTimeoutMs) id .scraping
        (idleObserved idleTimeoutMs startedAt before tick) := by
  rw [signalRound, hfile]
  show emitScrapingGuarded _ _ _ false = _
  rw [emitScrapingGuarded, if_pos rfl, emitOnChange_eq, detectStatus_signal]

theorem follows_idle {rest : List Tick}
    (h : ∀ tick ∈ rest, tick.outcome ≠ .disconnected ∧ tick.stateFile = none)
    (before : List Tick) :
    Prog.Follows (idleProtocol idleTimeoutMs startedAt id) ⟨before, rest, none⟩
      (signalLoop J (genericRunner idleTimeoutMs) id false exitCodeOnEof
        (SignalState.after J (.start startedAt hookReader) before) rest) fun _ _ => True := by
  induction rest generalizing before with
  | nil => trivial
  | cons tick rest ih =>
      obtain ⟨hopen, hfile⟩ := h tick (by simp)
      rw [signalLoop_cons hopen, signalRound_generic before hfile, ← after_concat]
      have hround : Prog.Follows (idleProtocol idleTimeoutMs startedAt id)
          ⟨before, tick :: rest, none⟩
          (applyAndEmit (genericRunner idleTimeoutMs) id .scraping
            (idleObserved idleTimeoutMs startedAt before tick))
          fun _ q => q = ⟨before ++ [tick], rest, none⟩ := by
        intro r
        refine ⟨⟨before ++ [tick], rest, r⟩, if_pos ⟨rfl, rfl⟩, ?_⟩
        cases r with
        | none => rfl
        | some status => exact fun _ => ⟨_, idleProtocol_announce _ _ _, rfl⟩
      refine hround.bind fun _ q hq => ?_
      rw [hq]
      exact ih (fun t ht => h t (by simp [ht])) (before ++ [tick])

end

-- ============================================================================
-- The law
-- ============================================================================

def isObservation : Op → Bool
  | .applyObserved _ _ _ => true
  | _ => false

section

variable {ι : Type} [DecidableEq ι]

/-- The rounds that thread `i` is through: it observes once in each. -/
def rounds (i : ι) (tr : List (Moment ι World Sys)) : Nat :=
  ((Pool.eventsOf i tr).filter fun e => isObservation e.op).length

/-- What a step of thread `i`, the loop of the session, does to its status: it
    makes it `completed` in a timed out round only, and never `error`. -/
structure CompletesIdle (idleTimeoutMs : Nat) (startedAt : Timestamp) (id : SessionId)
    (ticks : List Tick) (i : ι) (tr : List (Moment ι World Sys)) (m : Moment ι World Sys) :
    Prop where
  completed : m.thread = i → m.before.status id ≠ some .completed →
    m.after.status id = some .completed →
    ∃ before tick after, ticks = before ++ tick :: after ∧ before.length = rounds i tr ∧
      TimedOut idleTimeoutMs startedAt before tick
  error : m.thread = i → m.after.status id = some .error → m.before.status id = some .error

theorem observed_of_completed {s : AgentStatus} {observed : Observed}
    (hmoved : transition s observed ≠ s) (h : transition s observed = .completed) :
    observed = .finished := by
  cases s <;> cases observed <;> first | rfl | exact absurd rfl hmoved | cases h

theorem observed_of_error {s : AgentStatus} {observed : Observed}
    (hmoved : transition s observed ≠ s) (h : transition s observed = .error) :
    observed = .failed := by
  cases s <;> cases observed <;> first | rfl | exact absurd rfl hmoved | cases h

/-- The phase of the loop accounts for the rounds, and each step so far kept the law. -/
structure IdleInv (idleTimeoutMs : Nat) (startedAt : Timestamp) (id : SessionId)
    (ticks : List Tick) (i : ι) (q : ι → IdlePhase) (tr : List (Moment ι World Sys)) : Prop where
  split : ticks = (q i).before ++ (q i).rest
  rounds : (q i).before.length = rounds i tr
  law : Pool.Steps (CompletesIdle idleTimeoutMs startedAt id ticks i) tr

variable {idleTimeoutMs : Nat} {startedAt : Timestamp} {id : SessionId} {ticks : List Tick} {i : ι}
  {q : ι → IdlePhase} {q' : IdlePhase} {tr : List (Moment ι World Sys)} {m : Moment ι World Sys}

/-- A step that leaves the status alone keeps the law. -/
theorem completesIdle_of_eq (h : m.after.status id = m.before.status id) :
    CompletesIdle idleTimeoutMs startedAt id ticks i tr m where
  completed _ hbefore hafter := absurd (h ▸ hafter) hbefore
  error _ hafter := h ▸ hafter

theorem IdleInv.step_other (h : IdleInv idleTimeoutMs startedAt id ticks i q tr)
    (hi : m.thread ≠ i) :
    IdleInv idleTimeoutMs startedAt id ticks i (Function.update q m.thread q') (tr ++ [m]) := by
  have hlaw : CompletesIdle idleTimeoutMs startedAt id ticks i tr m :=
    ⟨fun heq => absurd heq hi, fun heq => absurd heq hi⟩
  refine ⟨?_, ?_, Pool.steps_concat.mpr ⟨h.law, hlaw⟩⟩
  · rw [Function.update_of_ne (Ne.symm hi)]
    exact h.split
  · rw [Function.update_of_ne (Ne.symm hi), Status.rounds, Pool.eventsOf_concat_of_ne hi]
    exact h.rounds

theorem rounds_concat_self (tr : List (Moment ι World Sys)) (m : Moment ι World Sys) :
    rounds m.thread (tr ++ [m]) =
      rounds m.thread tr + if isObservation m.event.op then 1 else 0 := by
  unfold rounds
  rw [Pool.eventsOf_concat_self, List.filter_append, List.length_append]
  cases hop : isObservation m.event.op <;> simp [hop]

/-- The loop's own step: an observation of the round it is in, or an event. -/
theorem IdleInv.step_self (hopen : ∀ tick ∈ ticks, tick.outcome ≠ .disconnected)
    (hclock : (startedAt :: ticks.map (·.now)).Pairwise (· ≤ ·))
    (h : IdleInv idleTimeoutMs startedAt id ticks m.thread q tr)
    (hkind : IdleStep idleTimeoutMs startedAt id (q m.thread) m.event q')
    (hstep : World.step m.before m.event m.after) :
    IdleInv idleTimeoutMs startedAt id ticks m.thread (Function.update q m.thread q')
      (tr ++ [m]) := by
  obtain ⟨hsplit, hrounds, hlaw⟩ := h
  have hcount := rounds_concat_self tr m
  obtain ⟨i, e, w, w'⟩ := m
  simp only at hsplit hrounds hkind hstep hlaw hcount ⊢
  generalize q i = qi at hsplit hrounds hkind
  cases hkind with
  | @observe before rest tick source r =>
      refine ⟨?_, ?_, Pool.steps_concat.mpr ⟨hlaw, ?_⟩⟩
      · rw [Function.update_self, hsplit, List.append_assoc]
        rfl
      · rw [Function.update_self, hcount, List.length_append]
        simp only at hrounds
        simp [isObservation, hrounds]
      · have hopen' : tick.outcome ≠ .disconnected := hopen tick (by simp [hsplit])
        rcases World.step_applyObserved hstep with ⟨-, rfl⟩ | ⟨s, hs, hmoved, -, hafter⟩
        · exact completesIdle_of_eq rfl
        · refine ⟨fun _ _ hcompleted => ?_, fun _ herror => ?_⟩
          · have hfinished := observed_of_completed hmoved
              (Option.some.inj (hafter.symm.trans hcompleted))
            exact ⟨before, tick, rest, hsplit, hrounds,
              timedOut_of_finished hopen' (hsplit ▸ hclock) hfinished⟩
          · have hfailed := observed_of_error hmoved (Option.some.inj (hafter.symm.trans herror))
            exact absurd hfailed idleObserved_ne_failed
  | announce =>
      refine ⟨?_, ?_, Pool.steps_concat.mpr ⟨hlaw, completesIdle_of_eq ?_⟩⟩
      · rw [Function.update_self]
        exact hsplit
      · rw [Function.update_self, hcount]
        exact hrounds
      · exact World.step_status hstep rfl

/-- The protocols of a pool whose thread `i` is the loop; the others may do
    anything. -/
def idleProtocols (idleTimeoutMs : Nat) (startedAt : Timestamp) (id : SessionId) (i j : ι) :
    Prog.Protocol Sys IdlePhase :=
  if j = i then idleProtocol idleTimeoutMs startedAt id else fun q _ => some q

/-- The signal loop of a generic session, before the end of the output and without
    hooks: it makes the session `completed` only in a round without output that comes at
    least the timeout after the last slice, and never `error`. -/
theorem completes_idle (J : SerdeJson) (idleTimeoutMs : Nat) (id : SessionId) (exitCodeOnEof : Int)
    (hookReader : StateFileReader) (startedAt : Timestamp) (ticks : List Tick) (i : ι)
    (P₀ P : Pool ι World Sys Unit) (tr : List (Moment ι World Sys))
    (hloop : P₀.threads i =
      runSignalLoop J (genericRunner idleTimeoutMs) id false exitCodeOnEof hookReader startedAt
        ticks)
    (hopen : ∀ tick ∈ ticks, tick.outcome ≠ .disconnected)
    (hfile : ∀ tick ∈ ticks, tick.stateFile = none)
    (hclock : (startedAt :: ticks.map (·.now)).Pairwise (· ≤ ·))
    (hr : Pool.Run World.step P₀ tr P) :
    Pool.Steps (CompletesIdle idleTimeoutMs startedAt id ticks i) tr := by
  have hfollows : ∀ j, Prog.Follows (idleProtocols idleTimeoutMs startedAt id i j)
      ⟨[], ticks, none⟩ (P₀.threads j) fun _ _ => True := by
    intro j
    unfold idleProtocols
    split
    case isTrue hj =>
      rw [hj, hloop]
      exact follows_idle (fun tick ht => ⟨hopen tick ht, hfile tick ht⟩) []
    case isFalse hj => exact Prog.follows_any _ _
  have hinit : IdleInv idleTimeoutMs startedAt id ticks i (fun _ => ⟨[], ticks, none⟩)
      ([] : List (Moment ι World Sys)) := ⟨rfl, rfl, Pool.steps_nil _⟩
  have hkeep : ∀ (q : ι → IdlePhase) (tr : List (Moment ι World Sys)) (m : Moment ι World Sys)
      (q' : IdlePhase), IdleInv idleTimeoutMs startedAt id ticks i q tr →
      idleProtocols idleTimeoutMs startedAt id i m.thread (q m.thread) m.event = some q' →
      World.step m.before m.event m.after →
      IdleInv idleTimeoutMs startedAt id ticks i (Function.update q m.thread q') (tr ++ [m]) := by
    intro q tr m q' h hprot hstep
    by_cases hi : m.thread = i
    · subst hi
      rw [idleProtocols, if_pos rfl] at hprot
      exact h.step_self hopen hclock (idleStep_of_protocol hprot) hstep
    · exact h.step_other hi
  obtain ⟨q, -, -, hinv⟩ := hr.coupled (C := fun _ _ => True)
    (I := fun q tr _ => IdleInv idleTimeoutMs startedAt id ticks i q tr) hfollows hinit
    (fun q tr m q' _ h _ hprot hstep => hkeep q tr m q' h hprot hstep) fun _ _ _ _ => trivial
  exact hinv.law

end

/-- A slice, and a quiet round four milliseconds later. -/
def sliceThenQuiet : List Tick := [⟨.slice [0x61], none, 1⟩, ⟨.timeout, none, 5⟩]

/-- The loop of a running generic session over those rounds, with a timeout of three
    milliseconds. -/
def idlePool : Pool Unit World Sys Unit where
  shared := .ofSession ⟨"1", "", ⟨"generic", none, .generic⟩, .running, "", 0⟩
  threads := fun _ =>
    runSignalLoop .compact (genericRunner 3) "1" false 0 (.new "/run" "1") 0 sliceThenQuiet

theorem idlePool_thread :
    ∃ k, idlePool.threads () = .op (.applyObserved .scraping "1" .working) k ∧
      ∃ k', k none = .op (.applyObserved .scraping "1" .finished) k' :=
  ⟨_, rfl, _, rfl⟩

theorem idlePool_apply :
    World.step idlePool.shared ⟨.applyObserved .scraping "1" .working, none⟩ idlePool.shared ∧
      ∃ w, World.step idlePool.shared ⟨.applyObserved .scraping "1" .finished, some .completed⟩ w ∧
        w.status "1" = some .completed := by
  refine ⟨⟨rfl, rfl⟩, _, ⟨rfl, rfl⟩, rfl⟩

/-- The slice leaves the session running, the quiet round completes it. -/
theorem completes_idle_quiet :
    ∃ tr P, Pool.Run World.step idlePool tr P ∧ P.shared.status "1" = some .completed ∧
      Pool.Steps (CompletesIdle 3 0 "1" sliceThenQuiet ()) tr := by
  obtain ⟨k, hk, k', hk'⟩ := idlePool_thread
  obtain ⟨hworking, w, hfinished, hcompleted⟩ := idlePool_apply
  have hstart : Pool.Run World.step idlePool [] ⟨idlePool.shared, idlePool.threads⟩ := .nil
  have hslice := hstart.next () hk hworking hk'
  have hrun := hslice.next () (Function.update_self ..) hfinished rfl
  exact ⟨_, _, hrun, hcompleted, completes_idle .compact 3 "1" 0 (.new "/run" "1") 0 sliceThenQuiet
    () _ _ _ rfl (by decide) (by decide) (by decide) hrun⟩

end Spectty.Status
