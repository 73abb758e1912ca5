/-
  Spectty.Status.Authority

  With hooks active, the changes of status that hooks own come from hook
  events (`hooks_are_authority`): for every runner, every list of rounds
  before the end of the output, and every interleaving with threads that do
  not observe the session (they may remove it).

  The guard reads the status and the observation is applied later.  What
  carries the proof is that the status read is still the stored one then, or
  the session is gone.
-/

import Spectty.Status.Rounds
import Spectty.Lib.JsonText

namespace Spectty.Status

open Spectty.Core
open Spectty.Adapters
open Spectty.Lib

variable {ι : Type} [DecidableEq ι]

/-- The guard suppresses every observation that would take an edge hooks
    own. -/
theorem suppressed_of_hookOwned {s : AgentStatus} {o : Observed} (hne : transition s o ≠ s)
    (howned : hookOwned s (transition s o) = true) : suppressed (some s) o = true := by
  cases s <;> cases o <;> first | rfl | exact absurd rfl hne | cases howned

/-- Every change along an edge hooks own is made by thread `i` applying a hook
    event. -/
def HooksOwn (id : SessionId) (i : ι) (tr : List (Moment ι World Sys)) : Prop :=
  ∀ m ∈ tr, ∀ s s', m.before.status id = some s → m.after.status id = some s' → s ≠ s' →
    hookOwned s s' = true →
    m.thread = i ∧ ∃ observed, m.event.op = .applyObserved .hook id observed

/-- What holds between the loop's phase and the stored status: what a look
    found is still stored, or the session is gone. -/
structure GuardInv (id : SessionId) (i : ι) (q : ι → SignalPhase)
    (tr : List (Moment ι World Sys)) (w : World) : Prop where
  found : ∀ status, q i = .quiet (some status) → w.status id = status ∨ w.status id = none
  owned : HooksOwn id i tr

variable {runner : AgentRunner} {id : SessionId} {i : ι}

omit [DecidableEq ι] in
theorem HooksOwn.concat {tr : List (Moment ι World Sys)} {m : Moment ι World Sys}
    (h : HooksOwn id i tr)
    (hm : ∀ s s', m.before.status id = some s → m.after.status id = some s' → s ≠ s' →
      hookOwned s s' = true →
      m.thread = i ∧ ∃ observed, m.event.op = .applyObserved .hook id observed) :
    HooksOwn id i (tr ++ [m]) := by
  intro m' hmem
  rcases List.mem_append.mp hmem with hmem | hmem
  · exact h m' hmem
  · obtain rfl := List.mem_singleton.mp hmem
    exact hm

omit [DecidableEq ι] in
/-- A step that keeps or drops the stored status takes no edge. -/
theorem HooksOwn.concat_of_le {tr : List (Moment ι World Sys)} {m : Moment ι World Sys}
    (h : HooksOwn id i tr)
    (hle : m.after.status id = m.before.status id ∨ m.after.status id = none) :
    HooksOwn id i (tr ++ [m]) := by
  refine h.concat fun s s' hs hs' hne _ => ?_
  rcases hle with hsame | hnone
  · rw [hsame, hs] at hs'
    exact absurd (Option.some.inj hs') hne
  · rw [hnone] at hs'
    cases hs'

/-- Every operation the protocols admit keeps the invariant. -/
theorem GuardInv.step {q : ι → SignalPhase} {q' : SignalPhase} {tr : List (Moment ι World Sys)}
    {m : Moment ι World Sys} (h : GuardInv id i q tr m.before)
    (hprot : loopProtocol runner id true i m.thread (q m.thread) m.event = some q')
    (hstep : World.step m.before m.event m.after) :
    GuardInv id i (Function.update q m.thread q') (tr ++ [m]) m.after := by
  by_cases hi : m.thread = i
  · obtain ⟨j, e, w, w'⟩ := m
    simp only at hi hprot hstep h ⊢
    subst hi
    rw [loopProtocol, if_pos rfl] at hprot
    have hkind := signalStep_of_protocol hprot
    generalize hq : q j = qj at hkind
    cases hkind with
    | look =>
        obtain ⟨rfl, hfound⟩ := World.step_getSession hstep
        refine ⟨fun status hs => ?_, h.owned.concat_of_le (Or.inl rfl)⟩
        rw [Function.update_self, hfound] at hs
        exact Or.inl (Option.some.inj (SignalPhase.quiet.inj hs))
    | @apply found source observed r hguard =>
        refine ⟨fun status hs => ?_, h.owned.concat fun s s' hs hs' hne howned => ⟨rfl, ?_⟩⟩
        · rw [Function.update_self] at hs
          cases r <;> cases hs
        · rcases hguard rfl with rfl | hopen
          · exact ⟨observed, rfl⟩
          · -- scraped: the guard let it pass, so it takes no edge hooks own
            obtain ⟨status, rfl, hclear⟩ := Option.map_eq_some_iff.mp hopen
            obtain rfl : status = some s := by
              rcases h.found status hq with hst | hst
              · rw [← hst]
                exact hs
              · rw [hst] at hs
                cases hs
            rcases World.step_applyObserved hstep with ⟨-, rfl⟩ | ⟨s₁, hs₁, hmoved, -, hafter⟩
            · rw [hs] at hs'
              exact absurd (Option.some.inj hs') hne
            · obtain rfl : s₁ = s := Option.some.inj (hs₁.symm.trans hs)
              obtain rfl : transition s₁ observed = s' := Option.some.inj (hafter.symm.trans hs')
              rw [suppressed_of_hookOwned hmoved howned] at hclear
              cases hclear
    | announce =>
        have hsame : w'.status id = w.status id := World.step_status hstep rfl
        refine ⟨fun status hs => ?_, h.owned.concat_of_le (Or.inl hsame)⟩
        rw [Function.update_self] at hs
        cases hs
  · rw [loopProtocol, if_neg hi] at hprot
    split_ifs at hprot with hop
    have hle := World.step_status_le hstep hop
    refine ⟨fun status hs => ?_, h.owned.concat_of_le hle⟩
    rw [Function.update_of_ne (Ne.symm hi)] at hs
    rcases hle with hsame | hnone
    · rw [hsame]
      exact h.found status hs
    · exact Or.inr hnone

/-- With hooks active, before the end of the output, every change along an
    edge hooks own is made by a hook event. -/
theorem hooks_are_authority {J : SerdeJson} {exitCodeOnEof : Int} {hookReader : StateFileReader}
    {startedAt : Timestamp} {ticks : List Tick} {P₀ P : Pool ι World Sys Unit}
    {tr : List (Moment ι World Sys)}
    (hloop : P₀.threads i =
      runSignalLoop J runner id true exitCodeOnEof hookReader startedAt ticks)
    (hticks : ∀ tick ∈ ticks, tick.outcome ≠ .disconnected)
    (hothers : ∀ j, j ≠ i → Prog.AllOps (World.observesNot id · = true) (P₀.threads j))
    (hr : Pool.Run World.step P₀ tr P) : HooksOwn id i tr := by
  have hinit : GuardInv id i (fun _ => .quiet none) [] P₀.shared := by
    refine ⟨fun status hs => ?_, fun m hm => ?_⟩
    · cases hs
    · cases hm
  obtain ⟨q, -, -, hinv⟩ :=
    hr.coupled (δ := loopProtocol runner id true i) (C := fun _ _ => True)
      (follows_loopProtocol hloop hothers fun _ => ⟨rfl, hticks⟩) hinit
      (fun q tr m q' _ h _ hprot hstep => h.step hprot hstep) fun _ _ _ _ => trivial
  exact hinv.owned

/-- A quiet round that finds a `Stop` event. -/
def stopTick : Tick where
  outcome := .timeout
  stateFile := some (SerdeJson.compact.toString
    (.obj [("event", .str "Stop"), ("ts", .int 1), ("session_id", .str "1")]))
  now := 1

/-- The loop of a running session over that round. -/
def stopPool : Pool Unit World Sys Unit where
  shared := .ofSession ⟨"1", "", ⟨"claude-code", none, .cooperative⟩, .running, "", 0⟩
  threads := fun _ =>
    runSignalLoop .compact claudeCodeRunner "1" true 0 (.new "/run" "1") 0 [stopTick]

theorem poll_stopTick :
    ((StateFileReader.new "/run" "1").poll .compact stopTick.stateFile).1 = some .stop := by
  simp only [StateFileReader.poll, stopTick, Option.bind_some, parseStateFile,
    SerdeJson.fromStr_toString]
  rfl

/-- The loop applies the event, then announces the new status. -/
theorem stopPool_thread :
    ∃ k, stopPool.threads () = .op (.applyObserved .hook "1" .ready) k ∧
      ∃ k', k (some .idle) = .op (.emit (statusEvent claudeCodeRunner "1" .idle)) k' := by
  simp only [stopPool, runSignalLoop]
  rw [signalLoop_cons (by decide), signalRound]
  simp only [SignalState.start, poll_stopTick]
  exact ⟨_, rfl, _, rfl⟩

theorem stopPool_apply :
    ∃ w, World.step stopPool.shared ⟨.applyObserved .hook "1" .ready, some .idle⟩ w ∧
      w.status "1" = some .idle :=
  ⟨_, ⟨rfl, rfl⟩, rfl⟩

/-- A stop event ends the turn. -/
theorem hooks_are_authority_stop :
    ∃ tr P, Pool.Run World.step stopPool tr P ∧
      P.shared.status "1" = some .idle ∧ HooksOwn "1" () tr := by
  obtain ⟨k, hk, -⟩ := stopPool_thread
  obtain ⟨w, hstep, hidle⟩ := stopPool_apply
  have hstart : Pool.Run World.step stopPool [] ⟨stopPool.shared, stopPool.threads⟩ := .nil
  have hrun := hstart.next () hk hstep rfl
  exact ⟨_, _, hrun, hidle, hooks_are_authority rfl (by decide) (fun j hj => absurd rfl hj) hrun⟩

end Spectty.Status
