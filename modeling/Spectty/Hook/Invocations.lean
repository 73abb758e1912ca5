/-
  Spectty.Hook.Invocations

  Any number of sidecar invocations for one session, interleaved with the
  polls of its reader.

  `step_cases` says what one step of such a run does: a poll, the read of an
  invocation, or its write.  The delivery results reason from it.
-/

import Spectty.Hook.Handler

namespace Spectty.Hook

open Spectty.Adapters
open Spectty.Lib

/-- A reader that polls some times. -/
def pollTimes : Nat → Prog HookSig (Except HandleError Unit)
  | 0 => .ret (.ok ())
  | n + 1 => .op .poll fun _ => pollTimes n

section

variable {κ : Type} (J : SerdeJson) (sessionId : String) (eventName : κ → String)

/-- The threads: each invocation, and the reader. -/
def threads (polls : Nat) : Option κ → Prog HookSig (Except HandleError Unit)
  | none => pollTimes polls
  | some i => handleEvent J (eventName i) sessionId

/-- The invocations and the reader over a state file. -/
def pool (w : HookWorld) (polls : Nat) :
    Pool (Option κ) HookWorld HookSig (Except HandleError Unit) where
  shared := w
  threads := threads J sessionId eventName polls

/-- What is left of an invocation: all of it, its write, or nothing. -/
def IsInvocation (name : String) (p : Prog HookSig (Except HandleError Unit)) : Prop :=
  p = handleEvent J name sessionId ∨
    (∃ event priorTs, HookEvent.parse name = some event ∧
      p = writeNext J event sessionId priorTs) ∨
    ∃ r, p = .ret r

/-- Each thread is what is left of its program. -/
structure WellFormed (P : Pool (Option κ) HookWorld HookSig (Except HandleError Unit)) :
    Prop where
  reader : ∃ n, P.threads none = pollTimes n
  invocation : ∀ i, IsInvocation J sessionId (eventName i) (P.threads (some i))

end

/-- The steps of a run over a state file. -/
abbrev HookMoment (κ : Type) := Moment (Option κ) HookWorld HookSig

-- ============================================================================
-- What one step does
-- ============================================================================

section

variable {κ : Type} [DecidableEq κ] (J : SerdeJson) (sessionId : String) (eventName : κ → String)

/-- What a step of a run is: a poll, the read of an invocation, its write. -/
inductive HookStep (P P' : Pool (Option κ) HookWorld HookSig (Except HandleError Unit))
    (m : HookMoment κ) : Prop where
  | poll (contents : Option String) :
      m.thread = none →
      m.event = ⟨.poll, (contents, (P.shared.reader.poll J contents).1)⟩ →
      (contents = P.shared.file ∨ contents = none) →
      P'.shared = { P.shared with reader := (P.shared.reader.poll J contents).2 } →
      (∃ n, P'.threads none = pollTimes n) →
      HookStep P P' m
  | read (i : κ) (event : HookEvent) (r : Except String (Option Nat)) :
      m.thread = some i → HookEvent.parse (eventName i) = some event →
      P.threads (some i) = handleEvent J (eventName i) sessionId →
      m.event = ⟨.readPrior, r⟩ → PriorReply J P.shared.file r →
      P'.shared = P.shared →
      P'.threads (some i) = writeNext J event sessionId (priorOf r) →
      HookStep P P' m
  | write (i : κ) (event : HookEvent) (priorTs : Nat) (r : Except String Unit) :
      m.thread = some i → HookEvent.parse (eventName i) = some event →
      P.threads (some i) = writeNext J event sessionId priorTs →
      m.event = ⟨.writeAtomic (stateFile J event (nextTs priorTs) sessionId), r⟩ →
      (r = .ok () ∧ P'.shared =
          { P.shared with file := some (stateFile J event (nextTs priorTs) sessionId) } ∨
        (∃ msg, r = .error msg) ∧ P'.shared = P.shared) →
      (∃ a, P'.threads (some i) = .ret a) →
      HookStep P P' m

variable {J sessionId eventName}
  {P₀ P P' : Pool (Option κ) HookWorld HookSig (Except HandleError Unit)} {m : HookMoment κ}
  {tr : List (HookMoment κ)}

/-- A step of well-formed threads is one of these. -/
theorem step_cases (hP : WellFormed J sessionId eventName P)
    (hs : Pool.Step (step J) P m P') : HookStep J sessionId eventName P P' m := by
  cases hs with
  | @mk j o k r s' hop hsem =>
      cases j with
      | none =>
          obtain ⟨n, hn⟩ := hP.reader
          rw [hop] at hn
          cases n with
          | zero => cases hn
          | succ n =>
              cases hn
              obtain ⟨contents, event⟩ := r
              obtain ⟨hread, rfl, rfl⟩ := hsem
              refine .poll contents rfl rfl hread rfl ⟨n, ?_⟩
              exact Function.update_self none (pollTimes n) P.threads
      | some i =>
          rcases hP.invocation i with hall | ⟨event, priorTs, hparse, hwrite⟩ | ⟨a, hret⟩
          case inl =>
              cases hparse : HookEvent.parse (eventName i) with
              | none =>
                  rw [hop, handleEvent, hparse] at hall
                  cases hall
              | some event =>
                  have hcall := hall
                  rw [hop, handleEvent, hparse] at hall
                  cases hall
                  obtain ⟨hreply, rfl⟩ := hsem
                  exact .read i event r rfl hparse hcall rfl hreply rfl (Function.update_self ..)
          case inr.inl =>
              have hcall := hwrite
              rw [hop, writeNext] at hwrite
              cases hwrite
              refine .write i event priorTs r rfl hparse hcall rfl hsem ⟨_, Function.update_self ..⟩
          case inr.inr =>
              rw [hop] at hret
              cases hret

theorem wellFormed_step (hP : WellFormed J sessionId eventName P)
    (hs : Pool.Step (step J) P m P') : WellFormed J sessionId eventName P' := by
  have hframe : ∀ j, j ≠ m.thread → P'.threads j = P.threads j := fun j hj => hs.frame hj
  constructor
  case reader =>
      by_cases hthread : none = m.thread
      · cases step_cases hP hs with
        | poll contents _ _ _ _ hnone => exact hnone
        | read i event r hi => rw [hi] at hthread; cases hthread
        | write i event priorTs r hi => rw [hi] at hthread; cases hthread
      · rw [hframe none hthread]
        exact hP.reader
  case invocation =>
      intro j
      by_cases hthread : some j = m.thread
      · cases step_cases hP hs with
        | poll contents hnone => rw [hnone] at hthread; cases hthread
        | read i event r hi hparse _ _ _ _ hnext =>
            obtain rfl : j = i := Option.some.inj (hthread.trans hi)
            exact Or.inr (Or.inl ⟨event, _, hparse, hnext⟩)
        | write i event priorTs r hi _ _ _ _ hret =>
            obtain rfl : j = i := Option.some.inj (hthread.trans hi)
            exact Or.inr (Or.inr hret)
      · rw [hframe (some j) hthread]
        exact hP.invocation j

theorem wellFormed_run (hP : WellFormed J sessionId eventName P₀)
    (hr : Pool.Run (step J) P₀ tr P) : WellFormed J sessionId eventName P := by
  induction hr with
  | nil => exact hP
  | snoc _ hs ih => exact wellFormed_step ih hs

omit [DecidableEq κ] in
theorem wellFormed_pool (w : HookWorld) (polls : Nat) :
    WellFormed J sessionId eventName (pool J sessionId eventName w polls) where
  reader := ⟨polls, rfl⟩
  invocation := fun _ => Or.inl rfl

/-- Only a poll moves the reader. -/
theorem reader_of_step (hP : WellFormed J sessionId eventName P)
    (hs : Pool.Step (step J) P m P') :
    P'.shared.reader = P.shared.reader ∨
      ∃ contents, P'.shared.reader = (P.shared.reader.poll J contents).2 := by
  cases step_cases hP hs with
  | poll contents _ _ _ hshared => exact Or.inr ⟨contents, by rw [hshared]⟩
  | read i event r _ _ _ _ _ hshared => exact Or.inl (by rw [hshared])
  | write i event priorTs r _ _ _ _ hshared =>
      rcases hshared with ⟨-, hshared⟩ | ⟨-, hshared⟩ <;> exact Or.inl (by rw [hshared])

/-- No step changes the session that the reader reads for. -/
theorem sessionId_step (hP : WellFormed J sessionId eventName P)
    (hs : Pool.Step (step J) P m P') :
    P'.shared.reader.sessionId = P.shared.reader.sessionId := by
  rcases reader_of_step hP hs with hreader | ⟨contents, hreader⟩
  · rw [hreader]
  · rw [hreader, poll_sessionId]

theorem sessionId_run (hP : WellFormed J sessionId eventName P₀)
    (hr : Pool.Run (step J) P₀ tr P) :
    P.shared.reader.sessionId = P₀.shared.reader.sessionId := by
  induction hr with
  | nil => rfl
  | snoc hr hs ih => exact (sessionId_step (wellFormed_run hP hr) hs).trans ih

theorem lastTs_le_step (hP : WellFormed J sessionId eventName P)
    (hs : Pool.Step (step J) P m P') :
    P.shared.reader.lastTs.getD 0 ≤ P'.shared.reader.lastTs.getD 0 := by
  rcases reader_of_step hP hs with hreader | ⟨contents, hreader⟩
  · exact Nat.le_of_eq (by rw [hreader])
  · rw [hreader]
    exact lastTs_le_poll P.shared.reader contents

theorem lastTs_le_run (hP : WellFormed J sessionId eventName P₀)
    (hr : Pool.Run (step J) P₀ tr P) :
    P₀.shared.reader.lastTs.getD 0 ≤ P.shared.reader.lastTs.getD 0 := by
  induction hr with
  | nil => exact Nat.le_refl _
  | snoc hr hs ih => exact Nat.le_trans ih (lastTs_le_step (wellFormed_run hP hr) hs)

-- ============================================================================
-- One invocation in a run
-- ============================================================================

/-- A thread that has returned takes no step. -/
theorem thread_ne_of_ret {j : Option κ} {a : Except HandleError Unit}
    (hr : Pool.Run (step J) P₀ tr P) (h : P₀.threads j = .ret a) :
    P.threads j = .ret a ∧ ∀ m ∈ tr, m.thread ≠ j := by
  induction hr with
  | nil => exact ⟨h, by simp⟩
  | @snoc tr P P' m hr hs ih =>
      obtain ⟨hret, hne⟩ := ih
      have hm : m.thread ≠ j := by
        rintro rfl
        obtain ⟨o, k, r, hop, -⟩ := hs.inv
        rw [hret] at hop
        cases hop
      refine ⟨(hs.frame (Ne.symm hm)).trans hret, fun m' hm' => ?_⟩
      rcases List.mem_append.mp hm' with hm' | hm'
      · exact hne m' hm'
      · rw [List.mem_singleton.mp hm']
        exact hm

/-- An invocation that has read its counter takes one step more, its write. -/
theorem writeNext_of_run {i : κ} {event : HookEvent} {priorTs : Nat}
    (hr : Pool.Run (step J) P₀ tr P)
    (h : P₀.threads (some i) = writeNext J event sessionId priorTs) :
    P.threads (some i) = writeNext J event sessionId priorTs ∧ (∀ m ∈ tr, m.thread ≠ some i) ∨
      ∃ a, P.threads (some i) = .ret a := by
  induction hr with
  | nil => exact Or.inl ⟨h, by simp⟩
  | @snoc tr P P' m hr hs ih =>
      rcases ih with ⟨hwrite, hne⟩ | ⟨a, hret⟩
      · by_cases hm : m.thread = some i
        · right
          obtain ⟨o, k, r, hop, -, hnext⟩ := hs.inv
          rw [hm, hwrite] at hop
          cases hop
          exact ⟨_, hm ▸ hnext⟩
        · left
          refine ⟨(hs.frame (Ne.symm hm)).trans hwrite, fun m' hm' => ?_⟩
          rcases List.mem_append.mp hm' with hm' | hm'
          · exact hne m' hm'
          · rw [List.mem_singleton.mp hm']
            exact hm
      · right
        exact ⟨a, ((thread_ne_of_ret (.snoc .nil hs) hret).1)⟩

-- ============================================================================
-- Events written and returned
-- ============================================================================

/-- The event a step wrote. -/
def writtenBy (eventName : κ → String) (m : HookMoment κ) : Option HookEvent :=
  match m.thread, m.event with
  | some i, ⟨.writeAtomic _, .ok _⟩ => HookEvent.parse (eventName i)
  | _, _ => none

/-- The event a step returned. -/
def returnedBy (m : HookMoment κ) : Option HookEvent :=
  match m.event with
  | ⟨.poll, (_, event)⟩ => event
  | _ => none

omit [DecidableEq κ] in
theorem writtenBy_write {i : κ} {json : String} {u : Unit} (hthread : m.thread = some i)
    (hevent : m.event = ⟨.writeAtomic json, .ok u⟩) :
    writtenBy eventName m = HookEvent.parse (eventName i) := by
  unfold writtenBy
  rw [hthread, hevent]

omit [DecidableEq κ] in
theorem writtenBy_reader (hthread : m.thread = none) : writtenBy eventName m = none := by
  unfold writtenBy
  rw [hthread]

omit [DecidableEq κ] in
theorem writtenBy_read {r : Except String (Option Nat)} (hevent : m.event = ⟨.readPrior, r⟩) :
    writtenBy eventName m = none := by
  unfold writtenBy
  rw [hevent]
  cases m.thread <;> rfl

omit [DecidableEq κ] in
theorem writtenBy_poll {r : Option String × Option HookEvent} (hevent : m.event = ⟨.poll, r⟩) :
    writtenBy eventName m = none := by
  unfold writtenBy
  rw [hevent]
  cases m.thread <;> rfl

omit [DecidableEq κ] in
theorem writtenBy_error {json msg : String} (hevent : m.event = ⟨.writeAtomic json, .error msg⟩) :
    writtenBy eventName m = none := by
  unfold writtenBy
  rw [hevent]
  cases m.thread <;> rfl

/-- A step that writes nothing keeps the file. -/
theorem file_of_step (hP : WellFormed J sessionId eventName P)
    (hs : Pool.Step (step J) P m P') (hm : writtenBy eventName m = none) :
    P'.shared.file = P.shared.file := by
  cases step_cases hP hs with
  | poll contents _ _ _ hshared => rw [hshared]
  | read i event r _ _ _ _ _ hshared => rw [hshared]
  | write i event priorTs r hthread hparse _ hevent hshared =>
      rcases hshared with ⟨rfl, -⟩ | ⟨-, hshared⟩
      · rw [writtenBy_write hthread hevent, hparse] at hm
        cases hm
      · rw [hshared]

theorem file_of_run (hP : WellFormed J sessionId eventName P₀)
    (hr : Pool.Run (step J) P₀ tr P) (htr : ∀ m ∈ tr, writtenBy eventName m = none) :
    P.shared.file = P₀.shared.file := by
  induction hr with
  | nil => rfl
  | @snoc tr P P' m hr hs ih =>
      rw [file_of_step (wellFormed_run hP hr) hs (htr m (by simp))]
      exact ih fun m hm => htr m (List.mem_append_left _ hm)

/-- The events written in a run, in order. -/
def written (eventName : κ → String) (tr : List (HookMoment κ)) : List HookEvent :=
  tr.filterMap (writtenBy eventName)

/-- The events returned in a run, in order. -/
def returned (tr : List (HookMoment κ)) : List HookEvent := tr.filterMap returnedBy

omit [DecidableEq κ] in
@[simp] theorem written_append (tr tr' : List (HookMoment κ)) :
    written eventName (tr ++ tr') = written eventName tr ++ written eventName tr' :=
  List.filterMap_append

omit [DecidableEq κ] in
@[simp] theorem returned_append (tr tr' : List (HookMoment κ)) :
    returned (tr ++ tr') = returned tr ++ returned tr' :=
  List.filterMap_append

omit [DecidableEq κ] in
theorem written_singleton : written eventName [m] = (writtenBy eventName m).toList := by
  unfold written
  cases h : writtenBy eventName m <;> simp [h]

omit [DecidableEq κ] in
theorem returned_singleton : returned [m] = (returnedBy m).toList := by
  unfold returned
  cases h : returnedBy m <;> simp [h]

-- ============================================================================
-- What a poll may return
-- ============================================================================

/-- The file holds the event written last, with some counter. -/
def HoldsLatest (J : SerdeJson) (sessionId : String) (writes : List HookEvent)
    (file : Option String) : Prop :=
  match writes.getLast? with
  | none => file = none
  | some event => ∃ ts, ts < 2 ^ 64 ∧ file = some (stateFile J event ts sessionId)

theorem holds_step (hP : WellFormed J sessionId eventName P)
    (h : HoldsLatest J sessionId (written eventName tr) P.shared.file)
    (hs : Pool.Step (step J) P m P') :
    HoldsLatest J sessionId (written eventName (tr ++ [m])) P'.shared.file := by
  rw [written_append, written_singleton]
  cases hm : writtenBy eventName m with
  | none =>
      rw [Option.toList_none, List.append_nil, file_of_step hP hs hm]
      exact h
  | some event =>
      cases step_cases hP hs with
      | poll contents hthread => rw [writtenBy_reader hthread] at hm; cases hm
      | read i event' r _ _ _ hevent => rw [writtenBy_read hevent] at hm; cases hm
      | write i event' priorTs r hthread hparse _ hevent hshared =>
          rcases hshared with ⟨rfl, hshared⟩ | ⟨⟨msg, rfl⟩, -⟩
          case inr => rw [writtenBy_error hevent] at hm; cases hm
          rw [writtenBy_write hthread hevent, hparse] at hm
          obtain rfl : event' = event := Option.some.inj hm
          rw [Option.toList_some, HoldsLatest, List.getLast?_concat, hshared]
          exact ⟨_, nextTs_lt priorTs, rfl⟩

theorem holds_run {runtimeDir : String} {polls : Nat}
    (hr : Pool.Run (step J) (pool J sessionId eventName (.start runtimeDir sessionId) polls) tr P) :
    HoldsLatest J sessionId (written eventName tr) P.shared.file := by
  induction hr with
  | nil => rfl
  | snoc hr hs ih => exact holds_step (wellFormed_run (wellFormed_pool _ polls) hr) ih hs

/-- Whatever overlaps or fails, a poll that returns an event returns the one that was
    written last. -/
theorem latest_of_run {runtimeDir : String} {polls : Nat} {event : HookEvent}
    (hr : Pool.Run (step J) (pool J sessionId eventName (.start runtimeDir sessionId) polls) tr P)
    (hs : Pool.Step (step J) P m P') (hm : returnedBy m = some event) :
    (written eventName tr).getLast? = some event := by
  have hholds := holds_run hr
  cases step_cases (wellFormed_run (wellFormed_pool _ polls) hr) hs with
  | read i event r _ _ _ hevent => rw [returnedBy, hevent] at hm; cases hm
  | write i event priorTs r _ _ _ hevent => rw [returnedBy, hevent] at hm; cases hm
  | poll contents _ hevent hread =>
      rw [returnedBy, hevent] at hm
      rcases hread with rfl | rfl
      case inr => cases hm
      unfold HoldsLatest at hholds
      cases hlast : (written eventName tr).getLast? with
      | none =>
          rw [hlast] at hholds
          rw [show P.shared.file = none from hholds] at hm
          cases hm
      | some event' =>
          rw [hlast] at hholds
          obtain ⟨ts, hts, hfile⟩ := hholds
          have hsession : P.shared.reader.sessionId = sessionId :=
            sessionId_run (wellFormed_pool _ polls) hr
          have hm : (P.shared.reader.poll J P.shared.file).1 = some event := hm
          rw [hfile, poll_stateFile hsession hts] at hm
          split at hm
          · exact hm
          · cases hm

omit [DecidableEq κ] in
/-- Invocations of unknown events write nothing. -/
theorem written_eq_nil (h : ∀ i, HookEvent.parse (eventName i) = none)
    (tr : List (HookMoment κ)) : written eventName tr = [] := by
  refine List.filterMap_eq_nil_iff.mpr fun m _ => ?_
  unfold writtenBy
  split
  · exact h _
  · rfl

/-- Nothing is returned where nothing was written. -/
theorem returned_eq_nil {runtimeDir : String} {polls : Nat}
    (hr : Pool.Run (step J) (pool J sessionId eventName (.start runtimeDir sessionId) polls) tr P)
    (h : written eventName tr = []) : returned tr = [] := by
  refine List.filterMap_eq_nil_iff.mpr fun m hm => ?_
  obtain ⟨a, b, rfl⟩ := List.append_of_mem hm
  obtain ⟨P₁, P₂, hr₁, hs, -⟩ := hr.split rfl
  rw [written_append] at h
  by_contra hreturned
  obtain ⟨event, hreturned⟩ := Option.ne_none_iff_exists'.mp hreturned
  have hlast := latest_of_run hr₁ hs hreturned
  rw [(List.append_eq_nil_iff.mp h).1] at hlast
  cases hlast

end

end Spectty.Hook
