/-
  Spectty.Hook.Bursts

  Events written between two polls.

  The state file holds one event, so a poll drives the last event of a burst
  only.  `burst_iff` says when that leads to the status that all of its events
  lead to: where the skipped events do not matter to the last one.
-/

import Spectty.Hook.Handler
import Spectty.Status.Terminal

namespace Spectty.Hook

open Spectty.Core
open Spectty.Adapters
open Spectty.Lib

-- ============================================================================
-- Statuses driven by events
-- ============================================================================

/-- The status an event drives. -/
def drive (s : AgentStatus) (event : HookEvent) : AgentStatus :=
  transition s (eventToObserved event)

/-- The status some events drive, in order. -/
def driveAll (s : AgentStatus) (events : List HookEvent) : AgentStatus := events.foldl drive s

/-- An event does not tell the two statuses apart. -/
def SameEffect (s s' : AgentStatus) (event : HookEvent) : Prop :=
  s = s' ∨
  s.isTerminal = false ∧ s'.isTerminal = false ∧
    (match event with
      | .submit | .stop | .stopFailure => True
      | .permission => (s = .running ∨ s = .awaitingInput) ∧ (s' = .running ∨ s' = .awaitingInput)
      | .sessionEnd => (s = .running ∨ s = .idle) ∧ (s' = .running ∨ s' = .idle)) ∨
  s.isTerminal = false ∧ s' = .error ∧ event = .stopFailure ∨
  (s = .running ∨ s = .idle) ∧ s' = .completed ∧ event = .sessionEnd

instance (s s' : AgentStatus) (event : HookEvent) : Decidable (SameEffect s s' event) := by
  cases event <;> exact inferInstanceAs (Decidable (_ ∨ _))

/-- A terminal status is not left. -/
theorem driveAll_terminal {s : AgentStatus} (h : s.isTerminal = true) (events : List HookEvent) :
    driveAll s events = s := by
  induction events with
  | nil => rfl
  | cons event events ih =>
      rw [driveAll, List.foldl_cons, drive, transition_terminal h]
      exact ih

/-- Past a terminal status the two are the same; elsewhere the table is exact. -/
theorem drive_eq_iff {s s' : AgentStatus} (event : HookEvent)
    (h : s.isTerminal = true → s' = s) :
    drive s event = drive s' event ↔ SameEffect s s' event := by
  cases s <;> cases s' <;> cases event <;> first | decide | cases h rfl

-- ============================================================================
-- A burst between two polls
-- ============================================================================

section

variable (J : SerdeJson) (runner : AgentRunner) (id : SessionId)

/-- The status after a poll of the state file. -/
def statusAfterPoll (world : World) (w : HookWorld) : Option AgentStatus :=
  ((emitHookIfPresent J runner id w.reader w.file).interp (World.handler World.noFaults)
    world).2.status id

/-- The poll after a burst drives its last event, and that leads where all of
    its events lead; or it drives nothing, and they lead nowhere. -/
def Caught (s : AgentStatus) (lastTs ts : Nat) (skipped : List HookEvent) (last : HookEvent) :
    Prop :=
  lastTs < ts ∧ SameEffect s (driveAll s skipped) last ∨
    ts ≤ lastTs ∧ driveAll s (skipped ++ [last]) = s

variable {J runner id} {world : World} {w : HookWorld} {s : AgentStatus}

theorem statusAfterPoll_eq (hs : world.status id = some s) :
    statusAfterPoll J runner id world w =
      some ((w.reader.poll J w.file).1.elim s (drive s)) := by
  rw [statusAfterPoll, Status.emitHookIfPresent_eq, Prog.interp_bind, Prog.interp_ret]
  cases (w.reader.poll J w.file).1 with
  | none => exact hs
  | some event => exact Status.status_applyAndEmit hs

/-- For every burst of events between two polls, the second poll leads to the
    status that all of the events lead to exactly where it is caught. -/
theorem burst_iff (hid : w.reader.sessionId = id) (hs : world.status id = some s)
    (events : List HookEvent) :
    statusAfterPoll J runner id world (invokeAll J id (polled J w) events) =
        some (driveAll s events) ↔
      ∀ skipped last, events = skipped ++ [last] →
        Caught s ((polled J w).reader.lastTs.getD 0)
          ((w.counter J + events.length) % 2 ^ 64) skipped last := by
  rw [statusAfterPoll_eq hs, Option.some.injEq]
  rcases List.eq_nil_or_concat' events with rfl | ⟨skipped, last, rfl⟩
  case inl =>
      have hpoll : (polled J w).reader.poll J (polled J w).file = (none, (polled J w).reader) :=
        poll_again w.reader w.file
      refine iff_of_true ?_ fun skipped last hnil => by simp at hnil
      show (((polled J w).reader.poll J (polled J w).file).1.elim s (drive s)) = s
      rw [hpoll]
      rfl
  case inr =>
      have hsession : (polled J w).reader.sessionId = id :=
        (poll_sessionId w.reader w.file).trans hid
      have hlen : (skipped ++ [last]).length = skipped.length + 1 := List.length_append
      have hall : driveAll s (skipped ++ [last]) = drive (driveAll s skipped) last :=
        List.foldl_concat ..
      have hcaught : (∀ skipped' last', skipped ++ [last] = skipped' ++ [last'] →
          Caught s ((polled J w).reader.lastTs.getD 0)
            ((w.counter J + (skipped ++ [last]).length) % 2 ^ 64) skipped' last') ↔
          Caught s ((polled J w).reader.lastTs.getD 0)
            ((w.counter J + (skipped ++ [last]).length) % 2 ^ 64) skipped last := by
        refine ⟨fun h => h skipped last rfl, fun h skipped' last' heq => ?_⟩
        obtain ⟨rfl, hlast⟩ := List.append_inj' heq rfl
        rw [← (List.cons.inj hlast).1]
        exact h
      have hcounter : (polled J w).counter J = w.counter J := rfl
      rw [hcaught, hlen, invokeAll_concat, hcounter, Caught, hall,
        poll_stateFile hsession (Nat.mod_lt _ (by decide))]
      by_cases hlt :
          (polled J w).reader.lastTs.getD 0 < (w.counter J + (skipped.length + 1)) % 2 ^ 64
      · rw [if_pos hlt]
        show drive s last = drive (driveAll s skipped) last ↔ _
        rw [drive_eq_iff last fun hterminal => driveAll_terminal hterminal skipped]
        exact ⟨fun h => Or.inl ⟨hlt, h⟩, fun h => (h.resolve_right (by omega)).2⟩
      · rw [if_neg hlt]
        show s = drive (driveAll s skipped) last ↔ _
        exact ⟨fun h => Or.inr ⟨by omega, h.symm⟩, fun h => (h.resolve_left (by omega)).2.symm⟩

end

-- ============================================================================
-- Two bursts of an idle session
-- ============================================================================

/-- An idle session, and its reader before the first event. -/
def idle : Session where
  id := "0"
  workspace := "/w"
  agent := { kind := "claude-code", command := none, tier := .cooperative }
  status := .idle
  title := ""
  createdAt := 0

/-- Nothing is consumed by a poll before the first event. -/
theorem polled_start : polled .compact (.start "/run" "0") = .start "/run" "0" := rfl

theorem counter_start : (HookWorld.start "/run" "0").counter .compact = 0 := rfl

theorem status_idle : (World.ofSession idle).status "0" = some .idle := rfl

theorem session_start : (HookWorld.start "/run" "0").reader.sessionId = "0" := rfl

/-- A turn that ends between two polls: the skipped start of it does not
    matter. -/
theorem turn_caught :
    statusAfterPoll .compact claudeCodeRunner "0" (.ofSession idle)
      (invokeAll .compact "0" (polled .compact (.start "/run" "0")) [.submit, .stop]) =
        some (driveAll .idle [.submit, .stop]) := by
  refine (burst_iff session_start status_idle [.submit, .stop]).mpr fun skipped last heq => ?_
  obtain ⟨rfl, hlast⟩ := List.append_inj' (show [HookEvent.submit] ++ [.stop] = _ from heq) rfl
  obtain rfl := (List.cons.inj hlast).1
  rw [polled_start, counter_start]
  exact Or.inl ⟨by decide, by decide⟩

/-- A prompt and a request for permission between two polls: the idle status
    ignores the request, so the session stays idle while the agent waits for input. -/
theorem prompt_missed :
    statusAfterPoll .compact claudeCodeRunner "0" (.ofSession idle)
        (invokeAll .compact "0" (polled .compact (.start "/run" "0")) [.submit, .permission]) =
      some .idle ∧
    driveAll .idle [.submit, .permission] = .awaitingInput := by
  refine ⟨?_, rfl⟩
  have hburst : invokeAll .compact "0" (.start "/run" "0") [.submit, .permission] =
      { HookWorld.start "/run" "0" with file := some (stateFile .compact .permission 2 "0") } :=
    invokeAll_concat (.start "/run" "0") [.submit] .permission
  rw [polled_start, hburst, statusAfterPoll_eq status_idle,
    poll_stateFile session_start (by decide)]
  rfl

end Spectty.Hook
