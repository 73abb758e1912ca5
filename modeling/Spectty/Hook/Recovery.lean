/-
  Spectty.Hook.Recovery

  A state file that breaks: the next invocation starts counting again, and its
  events are not delivered until the counter has passed the last one the
  reader consumed.

  Whether an event is delivered depends on two counters only, the last one consumed and
  the last one written (`deliveries_eq`); `recovers_iff` says when only the
  first event after the damage is lost.
-/

import Spectty.Hook.Handler
import Spectty.Lib.JsonText

namespace Spectty.Hook

open Spectty.Adapters
open Spectty.Lib

-- ============================================================================
-- Histories
-- ============================================================================

/-- What happens to a state file: an invocation, a poll, a change from outside. -/
inductive HistoryStep where
  | write (event : HookEvent)
  | poll (readable : Bool)
  | damage (contents : Option String)
deriving DecidableEq

section

variable (J : SerdeJson) (sessionId : String)

/-- A step of a history. -/
def HistoryStep.exec (w : HookWorld) : HistoryStep → HookWorld
  | .write event => invoke J sessionId w event
  | .poll true => polled J w
  | .poll false => { w with reader := (w.reader.poll J none).2 }
  | .damage contents => { w with file := contents }

/-- The state file and its reader after a history. -/
def afterHistory (runtimeDir : String) (history : List HistoryStep) : HookWorld :=
  history.foldl (HistoryStep.exec J sessionId) (.start runtimeDir sessionId)

/-- What some polls in a row return, and the state after them. -/
def pollAgain : Nat → HookWorld → List (Option HookEvent) × HookWorld
  | 0, w => ([], w)
  | n + 1, w => ((w.reader.poll J w.file).1 :: (pollAgain n (polled J w)).1,
      (pollAgain n (polled J w)).2)

/-- Whether each event is delivered, where each is written by one invocation and followed by
    a poll and `polls` more; the first invocation has read `priorTs`, each later one
    reads the file. -/
def deliveries : Nat → HookWorld → List (HookEvent × Nat) → List Bool
  | _, _, [] => []
  | priorTs, w, (event, polls) :: rest =>
      let w := ((writeNext J event sessionId priorTs).interp (handler J) w).2
      let replies := (pollAgain J (polls + 1) w).1
      let w := (pollAgain J (polls + 1) w).2
      decide (some event ∈ replies) :: deliveries (w.counter J) w rest

end

-- ============================================================================
-- The two counters
-- ============================================================================

/-- Whether each of `n` events is delivered, after `lastTs` was consumed and
    `priorTs` read. -/
def deliveriesBy : Nat → Nat → Nat → List Bool
  | _, _, 0 => []
  | lastTs, priorTs, n + 1 =>
      decide (lastTs < nextTs priorTs) ::
        deliveriesBy (max lastTs (nextTs priorTs)) (nextTs priorTs) n

section

variable {J : SerdeJson} {sessionId : String} {w : HookWorld}

/-- Polls of a file that has been consumed. -/
theorem pollAgain_none (h : w.reader.poll J w.file = (none, w.reader)) (n : Nat) :
    pollAgain J n w = (List.replicate n none, w) := by
  have hw : polled J w = w := by
    rw [polled, handler, h]
  induction n with
  | zero => rfl
  | succ n ih => rw [pollAgain, hw, ih, h, List.replicate_succ]

/-- Polls of a written event: it is returned by the first of them or by none. -/
theorem pollAgain_stateFile {event : HookEvent} {ts : Nat} (hid : w.reader.sessionId = sessionId)
    (hts : ts < 2 ^ 64) (hfile : w.file = some (stateFile J event ts sessionId)) (n : Nat) :
    (some event ∈ (pollAgain J (n + 1) w).1 ↔ w.reader.lastTs.getD 0 < ts) ∧
      (pollAgain J (n + 1) w).2.counter J = ts ∧
      (pollAgain J (n + 1) w).2.reader.sessionId = sessionId ∧
      (pollAgain J (n + 1) w).2.reader.lastTs.getD 0 = max (w.reader.lastTs.getD 0) ts := by
  have hnone : (polled J w).reader.poll J (polled J w).file = (none, (polled J w).reader) :=
    poll_again w.reader w.file
  have hcounter : (polled J w).counter J = ts := by
    show (readPriorTs J w.file).getD 0 = ts
    rw [hfile, readPriorTs_stateFile hts, Option.getD_some]
  have hpoll : w.reader.poll J w.file =
      if w.reader.lastTs.getD 0 < ts then (some event, { w.reader with lastTs := some ts })
      else (none, w.reader) := by
    rw [hfile]
    exact poll_stateFile hid hts
  rw [pollAgain, pollAgain_none hnone]
  refine ⟨?_, hcounter, (poll_sessionId w.reader w.file).trans hid, ?_⟩
  · show some event ∈ (w.reader.poll J w.file).1 :: List.replicate n none ↔ _
    rw [hpoll]
    by_cases hlt : w.reader.lastTs.getD 0 < ts
    · simp [hlt]
    · simp [hlt]
  · show (w.reader.poll J w.file).2.lastTs.getD 0 = _
    rw [hpoll]
    by_cases hlt : w.reader.lastTs.getD 0 < ts
    · rw [if_pos hlt]
      exact (Nat.max_eq_right (Nat.le_of_lt hlt)).symm
    · rw [if_neg hlt]
      exact (Nat.max_eq_left (Nat.le_of_not_lt hlt)).symm

/-- Whether an event is delivered depends on the two counters only. -/
theorem deliveries_eq (hid : w.reader.sessionId = sessionId) (priorTs : Nat)
    (events : List (HookEvent × Nat)) :
    deliveries J sessionId priorTs w events =
      deliveriesBy (w.reader.lastTs.getD 0) priorTs events.length := by
  induction events generalizing w priorTs with
  | nil => rfl
  | cons e rest ih =>
      obtain ⟨event, polls⟩ := e
      have hwrite : ((writeNext J event sessionId priorTs).interp (handler J) w).2 =
          { w with file := some (stateFile J event (nextTs priorTs) sessionId) } := rfl
      obtain ⟨hmem, hcounter, hsession, hlast⟩ :=
        pollAgain_stateFile (J := J) (w := { w with
          file := some (stateFile J event (nextTs priorTs) sessionId) })
          hid (nextTs_lt priorTs) rfl polls
      rw [deliveries, hwrite, ih hsession, hcounter, hlast, List.length_cons, deliveriesBy]
      congr 1
      exact decide_eq_decide.mpr hmem

end

/-- All of some events are delivered where the next counter is new and does
    not wrap. -/
theorem all_deliveriesBy (lastTs priorTs n : Nat) :
    (∀ b ∈ deliveriesBy lastTs priorTs n, b = true) ↔
      n = 0 ∨ lastTs < nextTs priorTs ∧ nextTs priorTs + (n - 1) < 2 ^ 64 := by
  induction n generalizing lastTs priorTs with
  | zero => simp [deliveriesBy]
  | succ n ih =>
      have hts := nextTs_lt priorTs
      have hnext := nextTs_cases hts
      rw [deliveriesBy, List.forall_mem_cons, ih, decide_eq_true_iff]
      omega

-- ============================================================================
-- Damage
-- ============================================================================

/-- Every event but the first is delivered. -/
def LosesAtMostFirst (delivered : List Bool) : Prop := ∀ b ∈ delivered.tail, b = true

theorem losesAtMostFirst_deliveriesBy (lastTs priorTs n : Nat) :
    LosesAtMostFirst (deliveriesBy lastTs priorTs n) ↔
      n ≤ 1 ∨ lastTs < nextTs (nextTs priorTs) ∧ nextTs (nextTs priorTs) + (n - 2) < 2 ^ 64 := by
  cases n with
  | zero => simp [LosesAtMostFirst, deliveriesBy]
  | succ n =>
      have hnext := nextTs_cases (nextTs_lt priorTs)
      rw [LosesAtMostFirst, deliveriesBy, List.tail_cons, all_deliveriesBy]
      omega

section

variable (J : SerdeJson) (runtimeDir sessionId : String) (history : List HistoryStep)
  (contents : Option String)

/-- The state file after a history, broken. -/
def broken : HookWorld :=
  { afterHistory J sessionId runtimeDir history with file := contents }

/-- The counter that the first invocation to write after the damage has read: the
    broken file's, or that of the file before where it was already in progress. -/
def firstPrior (inProgress : Bool) : Nat :=
  if inProgress then (afterHistory J sessionId runtimeDir history).counter J
  else (broken J runtimeDir sessionId history contents).counter J

/-- Every step of a history keeps the reader's session. -/
theorem sessionId_afterHistory :
    (afterHistory J sessionId runtimeDir history).reader.sessionId = sessionId := by
  induction history using List.reverseRecOn with
  | nil => rfl
  | append_singleton history h ih =>
      rw [afterHistory, List.foldl_concat]
      rw [afterHistory] at ih
      cases h with
      | write event => rw [HistoryStep.exec, invoke_eq]; exact ih
      | poll readable => cases readable with
          | true => exact (poll_sessionId _ _).trans ih
          | false => exact ih
      | damage contents => exact ih

theorem sessionId_broken :
    (broken J runtimeDir sessionId history contents).reader.sessionId = sessionId :=
  sessionId_afterHistory J runtimeDir sessionId history

/-- After damage at any moment of any history, at most the first event is lost
    exactly where the counter of the second is greater than the last one
    consumed before, and the counter does not wrap. -/
theorem recovers_iff (inProgress : Bool) (events : List (HookEvent × Nat)) :
    LosesAtMostFirst (deliveries J sessionId
        (firstPrior J runtimeDir sessionId history contents inProgress)
        (broken J runtimeDir sessionId history contents) events) ↔
      events.length ≤ 1 ∨
        (afterHistory J sessionId runtimeDir history).reader.lastTs.getD 0 <
            nextTs (nextTs (firstPrior J runtimeDir sessionId history contents inProgress)) ∧
          nextTs (nextTs (firstPrior J runtimeDir sessionId history contents inProgress)) +
            (events.length - 2) < 2 ^ 64 := by
  rw [deliveries_eq (sessionId_broken J runtimeDir sessionId history contents),
    losesAtMostFirst_deliveriesBy]
  exact Iff.rfl

end

/-- Two events, each delivered. -/
def twoEvents : List HistoryStep := [.write .submit, .poll true, .write .stop, .poll true]

theorem afterHistory_twoEvents :
    afterHistory .compact "0" "/run" twoEvents = fileOf .compact .stop 2 (some 2) := by
  have hfirst : invoke .compact "0" (.start "/run" "0") .submit = fileOf .compact .submit 1 none :=
    invoke_eq _
  show polled .compact (invoke .compact "0" (polled .compact
    (invoke .compact "0" (.start "/run" "0") .submit)) .stop) = _
  rw [hfirst, polled_fileOf (by decide) (by decide), invoke_fileOf (by decide)]
  exact polled_fileOf (by decide) (by decide)

/-- The file becomes unreadable after two events: of the next two events neither
    is delivered. -/
theorem second_lost :
    deliveries .compact "0" (firstPrior .compact "/run" "0" twoEvents none false)
        (broken .compact "/run" "0" twoEvents none) [(.submit, 0), (.stop, 0)] = [false, false] ∧
      ¬ LosesAtMostFirst
        (deliveries .compact "0" (firstPrior .compact "/run" "0" twoEvents none false)
          (broken .compact "/run" "0" twoEvents none) [(.submit, 0), (.stop, 0)]) := by
  have hprior : firstPrior .compact "/run" "0" twoEvents none false = 0 := rfl
  have hlast : (broken .compact "/run" "0" twoEvents none).reader.lastTs.getD 0 = 2 := by
    rw [broken, afterHistory_twoEvents]
    rfl
  rw [deliveries_eq (sessionId_broken .compact "/run" "0" twoEvents none), hprior, hlast]
  exact ⟨by simp [deliveriesBy, nextTs], by simp [deliveriesBy, nextTs, LosesAtMostFirst]⟩

end Spectty.Hook
