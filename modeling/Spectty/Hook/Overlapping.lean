/-
  Spectty.Hook.Overlapping

  Delivery with overlapping sidecars.

  The counter is read and written back without a lock, so two invocations can
  write the same one; a poll between their writes then consumes the counter of
  the second (`overtaken`).  `delivered_iff` says which last writes are delivered.
-/

import Spectty.Hook.Invocations
import Spectty.Lib.JsonText

namespace Spectty.Hook

open Spectty.Adapters
open Spectty.Lib

section

variable {κ : Type} [DecidableEq κ] {J : SerdeJson} {sessionId : String} {eventName : κ → String}
  {P₀ P P' : Pool (Option κ) HookWorld HookSig (Except HandleError Unit)}
  {tr pre mid post : List (HookMoment κ)} {m mRead mWrite : HookMoment κ} {i : κ}
  {event : HookEvent} {ts lastTs : Nat}

-- ============================================================================
-- After the last write
-- ============================================================================

/-- What holds after the write of `event` with counter `ts`, where the reader
    had consumed `lastTs`: either nothing was returned since, or the event was. -/
structure Since (J : SerdeJson) (sessionId : String) (event : HookEvent) (ts lastTs : Nat)
    (since : List (HookMoment κ)) (w : HookWorld) : Prop where
  file : w.file = some (stateFile J event ts sessionId)
  session : w.reader.sessionId = sessionId
  consumed : (w.reader.lastTs.getD 0 = lastTs ∧ ∀ m ∈ since, returnedBy m = none) ∨
    (lastTs < ts ∧ w.reader.lastTs.getD 0 = ts ∧ ∃ m ∈ since, returnedBy m = some event)

omit [DecidableEq κ] in
/-- A step that returns nothing and leaves the state as it is keeps it. -/
theorem since_quiet {w w' : HookWorld} (h : Since J sessionId event ts lastTs post w)
    (hw : w' = w) (hm : returnedBy m = none) :
    Since J sessionId event ts lastTs (post ++ [m]) w' := by
  subst hw
  refine ⟨h.file, h.session, ?_⟩
  rcases h.consumed with ⟨hlast, hnone⟩ | ⟨hlt, hlast, m', hm', hret⟩
  · refine Or.inl ⟨hlast, fun m' hm' => ?_⟩
    rcases List.mem_append.mp hm' with hm' | hm'
    · exact hnone m' hm'
    · rw [List.mem_singleton.mp hm']
      exact hm
  · exact Or.inr ⟨hlt, hlast, m', List.mem_append_left _ hm', hret⟩

omit [DecidableEq κ] in
/-- A poll that reads the file keeps it. -/
theorem since_poll {w w' : HookWorld} (hts : ts < 2 ^ 64)
    (h : Since J sessionId event ts lastTs post w)
    (hw : w' = { w with reader := (w.reader.poll J w.file).2 })
    (hm : returnedBy m = (w.reader.poll J w.file).1) :
    Since J sessionId event ts lastTs (post ++ [m]) w' := by
  rw [h.file, poll_stateFile h.session hts] at hw hm
  by_cases hlt : w.reader.lastTs.getD 0 < ts
  · rw [if_pos hlt] at hw hm
    rcases h.consumed with ⟨hlast, -⟩ | ⟨-, hlast, -⟩
    · rw [hw]
      exact ⟨rfl, h.session, Or.inr ⟨by omega, rfl, m, by simp, hm⟩⟩
    · omega
  · rw [if_neg hlt] at hw hm
    refine since_quiet h ?_ hm
    rw [hw, ← h.file]

/-- A step that is not a write keeps it. -/
theorem since_step (hts : ts < 2 ^ 64) (hP : WellFormed J sessionId eventName P)
    (h : Since J sessionId event ts lastTs post P.shared) (hs : Pool.Step (step J) P m P')
    (hm : writtenBy eventName m = none) :
    Since J sessionId event ts lastTs (post ++ [m]) P'.shared := by
  cases step_cases hP hs with
  | poll contents _ hevent hread hshared =>
      have hret : returnedBy m = (P.shared.reader.poll J contents).1 := by
        rw [returnedBy, hevent]
      rcases hread with rfl | rfl
      · exact since_poll hts h hshared hret
      · exact since_quiet h hshared hret
  | read i event r _ _ _ hevent _ hshared =>
      exact since_quiet h hshared (by rw [returnedBy, hevent])
  | write i event priorTs r hthread hparse _ hevent hshared =>
      rcases hshared with ⟨rfl, -⟩ | ⟨-, hshared⟩
      · rw [writtenBy_write hthread hevent, hparse] at hm
        cases hm
      · exact since_quiet h hshared (by rw [returnedBy, hevent])

/-- Steps without a write keep it. -/
theorem since_run (hts : ts < 2 ^ 64) (hP : WellFormed J sessionId eventName P₀)
    (h : Since (κ := κ) J sessionId event ts lastTs [] P₀.shared) (hr : Pool.Run (step J) P₀ tr P)
    (htr : ∀ m ∈ tr, writtenBy eventName m = none) :
    Since J sessionId event ts lastTs tr P.shared := by
  induction hr with
  | nil => exact h
  | @snoc tr P P' m hr hs ih =>
      have hbefore := ih fun m hm => htr m (List.mem_append_left _ hm)
      exact since_step hts (wellFormed_run hP hr) hbefore hs (htr m (by simp))

-- ============================================================================
-- Which writes are delivered
-- ============================================================================

/-- The last write of a run: `mWrite` is the write of invocation `i`, `mRead` its
    earlier step, and `post` writes nothing. -/
structure LastWrite (eventName : κ → String) (i : κ) (tr pre mid post : List (HookMoment κ))
    (mRead mWrite : HookMoment κ) : Prop where
  eq : tr = pre ++ mRead :: (mid ++ mWrite :: post)
  first : mRead.thread = some i
  second : mWrite.thread = some i
  writes : writtenBy eventName mWrite ≠ none
  last : ∀ m ∈ post, writtenBy eventName m = none

/-- The event is returned by the poll `m`, or was by a poll after the write. -/
def Delivered (event : HookEvent) (post : List (HookMoment κ)) (m : HookMoment κ) : Prop :=
  ∃ m' ∈ post ++ [m], returnedBy m' = some event

/-- The counter that an invocation's read replied, zero where it failed. -/
def repliedTs (m : HookMoment κ) : Nat :=
  match m.event with
  | ⟨.readPrior, r⟩ => priorOf r
  | _ => 0

omit [DecidableEq κ] in
theorem repliedTs_read {r : Except String (Option Nat)} (hevent : m.event = ⟨.readPrior, r⟩) :
    repliedTs m = priorOf r := by
  unfold repliedTs
  rw [hevent]

/-- The write of an invocation, in the counter that its read had replied. -/
theorem write_of_lastWrite (hP : WellFormed J sessionId eventName P₀)
    (hr : Pool.Run (step J) P₀ tr P) (hl : LastWrite eventName i tr pre mid post mRead mWrite) :
    ∃ event P₁, HookEvent.parse (eventName i) = some event ∧ WellFormed J sessionId eventName P₁ ∧
      Pool.Run (step J) P₁ post P ∧
      mWrite.before.reader.sessionId = P₀.shared.reader.sessionId ∧
      P₁.shared = { mWrite.before with
        file := some (stateFile J event (nextTs (repliedTs mRead)) sessionId) } := by
  obtain ⟨P₁, P₂, hr₁, hread, hr₂⟩ := hr.split hl.eq
  obtain ⟨P₃, P₄, hr₃, hwrite, hr₄⟩ := hr₂.split rfl
  have hP₁ := wellFormed_run hP hr₁
  have hP₃ := wellFormed_run (wellFormed_step hP₁ hread) hr₃
  have hreturned : ∀ a, P₃.threads (some i) ≠ .ret a := by
    intro a hret
    obtain ⟨o, k, r, hop, -⟩ := hwrite.inv
    rw [hl.second, hret] at hop
    cases hop
  cases step_cases hP₁ hread with
  | poll contents hthread => rw [hl.first] at hthread; cases hthread
  | write j event priorTs r hthread _ _ _ _ hret =>
      obtain rfl : i = j := Option.some.inj (hl.first.symm.trans hthread)
      obtain ⟨a, hret⟩ := hret
      exact absurd (thread_ne_of_ret hr₃ hret).1 (hreturned a)
  | read j event r hthread hparse _ hevent _ hshared hnext =>
      obtain rfl : i = j := Option.some.inj (hl.first.symm.trans hthread)
      rw [← repliedTs_read hevent] at hnext
      rcases writeNext_of_run hr₃ hnext with ⟨hnext₃, -⟩ | ⟨a, hret⟩
      case inr => exact absurd hret (hreturned a)
      cases step_cases hP₃ hwrite with
      | poll contents hthread => rw [hl.second] at hthread; cases hthread
      | read j event r _ _ _ hevent => exact absurd (writtenBy_read hevent) hl.writes
      | write j event' priorTs r hthread' _ hthreads hevent' hshared' =>
          obtain rfl : i = j := Option.some.inj (hl.second.symm.trans hthread')
          have htext := hthreads.symm.trans hnext₃
          rw [writeNext, writeNext] at htext
          injection htext with hop
          injection hop with htext
          have hsession : mWrite.before.reader.sessionId = P₀.shared.reader.sessionId := by
            rw [hwrite.before_eq, sessionId_run (wellFormed_step hP₁ hread) hr₃, hshared,
              sessionId_run hP hr₁]
          refine ⟨event, P₄, hparse, wellFormed_step hP₃ hwrite, hr₄, hsession, ?_⟩
          rcases hshared' with ⟨-, hshared'⟩ | ⟨⟨msg, rfl⟩, -⟩
          · rw [hshared', htext, hwrite.before_eq]
          · exact absurd (writtenBy_error hevent') hl.writes

/-- After a run, a poll that reads the file leaves the event of the last write
    delivered exactly where that write's counter, the successor of the one that its
    invocation's read had replied, is greater than the last one consumed before it. -/
theorem delivered_iff {w : HookWorld} {polls : Nat} {contents : String}
    {r : Option HookEvent} (hid : w.reader.sessionId = sessionId)
    (hr : Pool.Run (step J) (pool J sessionId eventName w polls) tr P)
    (hl : LastWrite eventName i tr pre mid post mRead mWrite)
    (hevent : HookEvent.parse (eventName i) = some event)
    (hs : Pool.Step (step J) P m P') (hm : m.event = ⟨.poll, (some contents, r)⟩) :
    Delivered event post m ↔
      mWrite.before.reader.lastTs.getD 0 < nextTs (repliedTs mRead) := by
  have hpool : WellFormed J sessionId eventName (pool J sessionId eventName w polls) :=
    wellFormed_pool w polls
  obtain ⟨event', P₁, hparse, hP₁, hr₁, hsession, hshared⟩ := write_of_lastWrite hpool hr hl
  obtain rfl : event' = event := Option.some.inj (hparse.symm.trans hevent)
  -- from the write on, the file stays as it is and the reader consumes it at most once
  have hstart : Since (κ := κ) J sessionId event' (nextTs (repliedTs mRead))
      (mWrite.before.reader.lastTs.getD 0) [] P₁.shared := by
    rw [hshared]
    exact ⟨rfl, hsession.trans hid, Or.inl ⟨rfl, by simp⟩⟩
  have hsince := since_run (nextTs_lt _) hP₁ hstart hr₁ hl.last
  have hP := wellFormed_run hP₁ hr₁
  have hwritten : writtenBy eventName m = none := writtenBy_poll hm
  constructor
  · rintro ⟨m', hm', hret⟩
    rcases (since_step (nextTs_lt _) hP hsince hs hwritten).consumed with ⟨-, hnone⟩ | ⟨hlt, -⟩
    · rw [hnone m' hm'] at hret
      cases hret
    · exact hlt
  · intro hlt
    rcases hsince.consumed with ⟨hlast, -⟩ | ⟨-, -, m', hm', hret⟩
    case inr => exact ⟨m', List.mem_append_left _ hm', hret⟩
    refine ⟨m, by simp, ?_⟩
    cases step_cases hP hs with
    | poll contents' _ hevent hread =>
        obtain ⟨rfl, -⟩ : contents' = some contents ∧ _ := by simpa using hevent.symm.trans hm
        have hfile : some contents = P.shared.file := hread.resolve_right (by simp)
        rw [returnedBy, hevent, hfile, hsince.file,
          poll_stateFile hsince.session (nextTs_lt _), if_pos (by omega)]
    | read j event r _ _ _ hevent =>
        rw [hm] at hevent
        cases hevent
    | write j event priorTs r _ _ _ hevent =>
        rw [hm] at hevent
        cases hevent

end

-- ============================================================================
-- Two invocations that overlap
-- ============================================================================

/-- The read and the write of a first invocation. -/
theorem step_first_read :
    step .compact (.start "/run" "0") ⟨.readPrior, .ok none⟩ (.start "/run" "0") :=
  ⟨Or.inl rfl, rfl⟩

theorem step_first_write (event : HookEvent) :
    step .compact (.start "/run" "0")
      ⟨.writeAtomic (stateFile .compact event 1 "0"), .ok ()⟩ (fileOf .compact event 1 none) :=
  Or.inl ⟨rfl, rfl⟩

/-- A write over a state file. -/
theorem step_write_fileOf (before event : HookEvent) (ts ts' : Nat) (lastTs : Option Nat) :
    step .compact (fileOf .compact before ts lastTs)
      ⟨.writeAtomic (stateFile .compact event ts' "0"), .ok ()⟩
      (fileOf .compact event ts' lastTs) :=
  Or.inl ⟨rfl, rfl⟩

/-- Two invocations. -/
def submitAndStop : Bool → String
  | false => "Submit"
  | true => "Stop"

/-- The two invocations, and a reader that polls twice. -/
abbrev submittingAndStopping : Pool (Option Bool) HookWorld HookSig (Except HandleError Unit) :=
  pool .compact "0" submitAndStop (.start "/run" "0") 2

/-- A read before the first write. -/
abbrev readsNone (i : Bool) : HookMoment Bool :=
  ⟨some i, ⟨.readPrior, .ok none⟩, .start "/run" "0", .start "/run" "0"⟩

/-- The write of the first invocation. -/
abbrev writesSubmit : HookMoment Bool :=
  ⟨some false, ⟨.writeAtomic (stateFile .compact .submit 1 "0"), .ok ()⟩, .start "/run" "0",
    fileOf .compact .submit 1 none⟩

/-- Both invocations have read the counter, and the first has written. -/
theorem run_bothRead :
    Pool.Run (step .compact) submittingAndStopping
      [readsNone false, readsNone true, writesSubmit]
      ⟨fileOf .compact .submit 1 none,
        Function.update (Function.update (Function.update submittingAndStopping.threads
          (some false) (writeNext .compact .submit "0" 0))
          (some true) (writeNext .compact .stop "0" 0)) (some false) (.ret (.ok ()))⟩ := by
  have h0 : Pool.Run (step .compact) submittingAndStopping []
      ⟨.start "/run" "0", submittingAndStopping.threads⟩ := .nil
  have h1 := h0.next (some false) rfl step_first_read rfl
  have h2 := h1.next (some true) rfl step_first_read rfl
  exact h2.next (some false) rfl (step_first_write .submit) rfl

/-- With no poll between the two writes, the second is delivered although it has the
    counter of the first. -/
theorem delivered_overlapping :
    Delivered (κ := Bool) .stop []
      ⟨none, ⟨.poll, ((fileOf .compact .stop 1 none).file, some .stop)⟩,
        fileOf .compact .stop 1 none, fileOf .compact .stop 1 (some 1)⟩ := by
  have hrun := run_bothRead.next (some true) rfl (step_write_fileOf .submit .stop 1 1 none) rfl
  have hl : LastWrite submitAndStop true _ [readsNone false] [writesSubmit] [] (readsNone true)
      ⟨some true, ⟨.writeAtomic (stateFile .compact .stop 1 "0"), .ok ()⟩,
        fileOf .compact .submit 1 none, fileOf .compact .stop 1 none⟩ :=
    ⟨rfl, rfl, rfl, by simp [writtenBy, submitAndStop, HookEvent.parse], by simp⟩
  exact (delivered_iff rfl hrun hl rfl
    (.mk (i := none) rfl (step_poll_fresh (by decide) (by decide))) rfl).mpr (by decide)

/-- Both invocations read the counter before either writes; a poll between the two
    writes consumes the counter that the second writes again. -/
theorem overtaken :
    ∃ tr P m P',
      Pool.Run (step .compact) (pool .compact "0" submitAndStop (.start "/run" "0") 2) tr P ∧
      (∀ i, ∃ a, P.threads (some i) = .ret a) ∧
      P.shared.file = some (stateFile .compact .stop 1 "0") ∧
      Pool.Step (step .compact) P m P' ∧
      m.event = ⟨.poll, (P.shared.file, none)⟩ ∧
      ∀ m' ∈ tr ++ [m], returnedBy m' ≠ some .stop := by
  have h4 := run_bothRead.next none rfl (step_poll_fresh (by decide) (by decide)) rfl
  have h5 := h4.next (some true) rfl (step_write_fileOf .submit .stop 1 1 (some 1)) rfl
  refine ⟨_, _, _, _, h5, ?_, rfl, .mk (i := none) rfl (step_poll_stale (by decide) (by decide)),
    rfl, ?_⟩
  · rintro (_ | _) <;> exact ⟨_, rfl⟩
  · simp [returnedBy]

end Spectty.Hook
