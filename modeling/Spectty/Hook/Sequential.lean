/-
  Spectty.Hook.Sequential

  Delivery with sidecars that do not overlap.  As long as each of them can read the
  prior counter, the counter of the file is the number of events written, and the
  reader's last consumed counter is the number of the last event it returned.  A read that
  fails starts the counter again (`restarted`): what is returned is still in order, and
  nothing is returned twice.

  `tracked_step` keeps that through each step; `delivery_law` is what it says
  of a run.
-/

import Mathlib.Data.Bool.Basic
import Spectty.Hook.Overlapping

namespace Spectty.Hook

open Spectty.Adapters
open Spectty.Lib

section

variable {κ : Type} [DecidableEq κ] {J : SerdeJson} {runtimeDir sessionId : String}
  {eventName : κ → String} {w : HookWorld} {polls : Nat}
  {P P' : Pool (Option κ) HookWorld HookSig (Except HandleError Unit)}
  {tr : List (HookMoment κ)} {m : HookMoment κ} {i : κ}

-- ============================================================================
-- Invocations that do not overlap
-- ============================================================================

/-- Between two steps of one invocation there is no step of another one. -/
def NonOverlapping (tr : List (HookMoment κ)) : Prop :=
  Pool.Steps (fun before m => ∀ i, m.thread = some i → ∀ a first b, before = a ++ first :: b →
    first.thread = some i → ∀ x ∈ b, ∀ j, x.thread = some j → j = i) tr

/-- Where an invocation stands: it has not read, it has read the counter at
    an earlier step and not moved since, or it has returned. -/
theorem progress_of_run (hr : Pool.Run (step J) (pool J sessionId eventName w polls) tr P)
    (i : κ) :
    P.threads (some i) = handleEvent J (eventName i) sessionId ∨
    (∃ a first b event r, tr = a ++ first :: b ∧ first.thread = some i ∧
      first.event = ⟨.readPrior, r⟩ ∧ PriorReply J first.before.file r ∧
      (∀ x ∈ b, x.thread ≠ some i) ∧ HookEvent.parse (eventName i) = some event ∧
      P.threads (some i) = writeNext J event sessionId (priorOf r)) ∨
    ∃ a, P.threads (some i) = .ret a := by
  induction hr with
  | nil => exact Or.inl rfl
  | @snoc tr P P' m hr hs ih =>
      have hP := wellFormed_run (wellFormed_pool w polls) hr
      by_cases hm : m.thread = some i
      · cases step_cases hP hs with
        | poll contents hthread => rw [hm] at hthread; cases hthread
        | read j event r hthread hparse _ hevent hreply _ hnext =>
            obtain rfl : i = j := Option.some.inj (hm.symm.trans hthread)
            rw [← hs.before_eq] at hreply
            exact Or.inr (Or.inl
              ⟨tr, m, [], event, r, rfl, hm, hevent, hreply, by simp, hparse, hnext⟩)
        | write j event priorTs r hthread _ _ _ _ hret =>
            obtain rfl : i = j := Option.some.inj (hm.symm.trans hthread)
            exact Or.inr (Or.inr hret)
      · rw [hs.frame (Ne.symm hm)]
        rcases ih with hall | ⟨a, first, b, event, r, rfl, hfirst, hevent, hreply, hb, hnext⟩ | hret
        · exact Or.inl hall
        · refine Or.inr (Or.inl
            ⟨a, first, b ++ [m], event, r, by simp, hfirst, hevent, hreply, ?_, hnext⟩)
          intro x hx
          rcases List.mem_append.mp hx with hx | hx
          · exact hb x hx
          · rw [List.mem_singleton.mp hx]
            exact hm
        · exact Or.inr (Or.inr hret)

/-- Where no other invocation moves in between, the file an invocation has read is
    still there when it is about to write. -/
theorem file_of_nonOverlapping (hr : Pool.Run (step J) (pool J sessionId eventName w polls) tr P)
    {a b : List (HookMoment κ)} {first : HookMoment κ} (htr : tr = a ++ first :: b)
    (hb : ∀ x ∈ b, x.thread = none) (hread : writtenBy eventName first = none) :
    first.before.file = P.shared.file := by
  obtain ⟨P₁, P₂, hr₁, hs, hr₂⟩ := hr.split htr
  have hP₁ := wellFormed_run (wellFormed_pool w polls) hr₁
  have hP₂ := wellFormed_step hP₁ hs
  have hb' : ∀ m ∈ b, writtenBy eventName m = none := fun m hm => writtenBy_reader (hb m hm)
  rw [hs.before_eq, file_of_run hP₂ hr₂ hb', file_of_step hP₁ hs hread]

end

-- ============================================================================
-- The counters
-- ============================================================================

section

variable {J : SerdeJson} {sessionId : String} {reads reads' : Prop} {event : HookEvent}
  {writes returns : List HookEvent} {ts consumed priorTs : Nat} {w : HookWorld}

/-- After `writes`, of which the reader has returned `returns`, the last of them the write
    of number `consumed`.  The counter of the file is `ts`; `reads` says that each
    invocation has read the counter before it, and then `ts` is the number of writes. -/
structure Tracked (J : SerdeJson) (sessionId : String) (reads : Prop)
    (writes returns : List HookEvent) (ts consumed : Nat) (w : HookWorld) : Prop where
  session : w.reader.sessionId = sessionId
  empty : writes = [] → w.file = none ∧ ts = 0
  file : ∀ event, writes.getLast? = some event → w.file = some (stateFile J event ts sessionId)
  ts_le : ts ≤ writes.length
  le : consumed ≤ writes.length
  fresh : w.reader.lastTs.getD 0 < ts → consumed < writes.length
  sublist : returns.Sublist (writes.take consumed)
  last : returns.getLast? = (writes.take consumed).getLast?
  counted : reads → ts = writes.length ∧ w.reader.lastTs.getD 0 = consumed

theorem tracked_start (runtimeDir : String) :
    Tracked J sessionId reads [] [] 0 0 (.start runtimeDir sessionId) where
  session := rfl
  empty := fun _ => ⟨rfl, rfl⟩
  file := by simp
  ts_le := Nat.le_refl _
  le := Nat.le_refl _
  fresh := fun h => h
  sublist := List.Sublist.refl _
  last := rfl
  counted := fun _ => ⟨rfl, rfl⟩

/-- What is tracked does not depend on more reads. -/
theorem Tracked.imp (h : Tracked J sessionId reads writes returns ts consumed w)
    (himp : reads' → reads) : Tracked J sessionId reads' writes returns ts consumed w :=
  { h with counted := fun hreads => h.counted (himp hreads) }

/-- The counter that is in the file. -/
theorem Tracked.prior (h : Tracked J sessionId reads writes returns ts consumed w)
    (hlt : writes.length < 2 ^ 64) : (readPriorTs J w.file).getD 0 = ts := by
  have hts := h.ts_le
  cases hlast : writes.getLast? with
  | none =>
      obtain ⟨hfile, rfl⟩ := h.empty (List.getLast?_eq_none_iff.mp hlast)
      rw [hfile]
      rfl
  | some event => rw [h.file event hlast, readPriorTs_stateFile (by omega), Option.getD_some]

/-- A write with the counter after `priorTs`, which is that of the file, or zero where
    the invocation could not read it. -/
theorem Tracked.write (h : Tracked J sessionId reads writes returns ts consumed w)
    (hlt : writes.length + 1 < 2 ^ 64) (himp : reads' → reads ∧ priorTs = ts)
    (hprior : priorTs = ts ∨ priorTs = 0) (event : HookEvent) :
    Tracked J sessionId reads' (writes ++ [event]) returns (nextTs priorTs) consumed
      { w with file := some (stateFile J event (nextTs priorTs) sessionId) } := by
  have hts := h.ts_le
  have hle := h.le
  have hnext : nextTs priorTs = priorTs + 1 := nextTs_of_lt (by omega)
  have hlength : (writes ++ [event]).length = writes.length + 1 := List.length_append
  have htake : (writes ++ [event]).take consumed = writes.take consumed :=
    List.take_append_of_le_length h.le
  constructor
  case session => exact h.session
  case empty => simp
  case file => simp
  case ts_le => omega
  case le => omega
  case fresh => omega
  case sublist => exact htake ▸ h.sublist
  case last => exact htake ▸ h.last
  case counted =>
      intro hreads
      obtain ⟨hreads, rfl⟩ := himp hreads
      obtain ⟨hcount, hconsumed⟩ := h.counted hreads
      exact ⟨by omega, hconsumed⟩

/-- A poll that reads the file returns the last event written where its counter is new. -/
theorem Tracked.poll_eq (h : Tracked J sessionId reads writes returns ts consumed w)
    (hlt : writes.length < 2 ^ 64) :
    w.reader.poll J w.file =
      if w.reader.lastTs.getD 0 < ts then (writes.getLast?, { w.reader with lastTs := some ts })
      else (none, w.reader) := by
  have hts := h.ts_le
  cases hlast : writes.getLast? with
  | none =>
      obtain ⟨hfile, rfl⟩ := h.empty (List.getLast?_eq_none_iff.mp hlast)
      simp [hfile]
  | some event => rw [h.file event hlast, poll_stateFile h.session (by omega)]

/-- A poll that reads the file keeps the counters. -/
theorem Tracked.poll (h : Tracked J sessionId reads writes returns ts consumed w)
    (hlt : writes.length < 2 ^ 64) :
    ∃ consumed', Tracked J sessionId reads writes (returns ++ (w.reader.poll J w.file).1.toList) ts
      consumed' { w with reader := (w.reader.poll J w.file).2 } := by
  rw [h.poll_eq hlt]
  split
  case isFalse => exact ⟨consumed, by simpa using h⟩
  case isTrue hless =>
      have hnew := h.fresh hless
      obtain ⟨before, event, rfl⟩ : ∃ before event, writes = before ++ [event] := by
        refine (List.eq_nil_or_concat' writes).resolve_left ?_
        rintro rfl
        exact Nat.not_lt_zero _ hnew
      have hbefore : returns.Sublist before := by
        have hsub := h.sublist
        rw [List.length_append, List.length_singleton] at hnew
        rw [List.take_append_of_le_length (by omega)] at hsub
        exact hsub.trans (List.take_sublist _ _)
      have htake : (before ++ [event]).take (before ++ [event]).length = before ++ [event] :=
        List.take_length
      rw [List.getLast?_append, List.getLast?_singleton, Option.some_or]
      refine ⟨(before ++ [event]).length, ?_⟩
      constructor
      case session => exact h.session
      case empty => exact h.empty
      case file => exact h.file
      case ts_le => exact h.ts_le
      case le => exact Nat.le_refl _
      case fresh => exact fun hlt => absurd hlt (Nat.lt_irrefl _)
      case sublist =>
          show (returns ++ [event]).Sublist ((before ++ [event]).take (before ++ [event]).length)
          rw [htake]
          exact hbefore.append (List.Sublist.refl [event])
      case last =>
          show (returns ++ [event]).getLast? =
            ((before ++ [event]).take (before ++ [event]).length).getLast?
          rw [htake, List.getLast?_append, List.getLast?_append]
          rfl
      case counted => exact fun hreads => ⟨(h.counted hreads).1, (h.counted hreads).1⟩

end

-- ============================================================================
-- Runs
-- ============================================================================

section

variable {κ : Type} [DecidableEq κ] {J : SerdeJson} {runtimeDir sessionId : String}
  {eventName : κ → String} {polls : Nat}
  {P P' : Pool (Option κ) HookWorld HookSig (Except HandleError Unit)}
  {tr : List (HookMoment κ)} {m : HookMoment κ}

/-- Fewer than `2 ^ 64` events are written, by invocations that do not overlap. -/
structure SequentialRun (J : SerdeJson) (runtimeDir sessionId : String) (eventName : κ → String)
    (polls : Nat) (tr : List (HookMoment κ))
    (P : Pool (Option κ) HookWorld HookSig (Except HandleError Unit)) : Prop where
  run : Pool.Run (step J) (pool J sessionId eventName (.start runtimeDir sessionId) polls) tr P
  nonOverlapping : NonOverlapping tr
  lt : (written eventName tr).length < 2 ^ 64

/-- No invocation has failed to read the counter before it. -/
def PriorsRead (J : SerdeJson) (tr : List (HookMoment κ)) : Prop :=
  ∀ m ∈ tr, ∀ r, m.event = ⟨.readPrior, r⟩ → r = .ok (readPriorTs J m.before.file)

omit [DecidableEq κ] in
theorem PriorsRead.of_append {tr' : List (HookMoment κ)} (h : PriorsRead J (tr ++ tr')) :
    PriorsRead J tr :=
  fun m hm => h m (List.mem_append_left _ hm)

/-- A write by an invocation that has not been overlapped has the counter after the one
    in the file, or starts again where the invocation could not read it. -/
theorem prior_of_nonOverlapping {i : κ} {event : HookEvent} {priorTs : Nat} {w : HookWorld}
    (hr : Pool.Run (step J) (pool J sessionId eventName w polls) tr P)
    (hseq : NonOverlapping (tr ++ [m])) (hthread : m.thread = some i)
    (hparse : HookEvent.parse (eventName i) = some event)
    (hnext : P.threads (some i) = writeNext J event sessionId priorTs) :
    ∃ prior, writeNext J event sessionId priorTs = writeNext J event sessionId prior ∧
      (prior = (readPriorTs J P.shared.file).getD 0 ∨ prior = 0) ∧
      (PriorsRead J tr → prior = (readPriorTs J P.shared.file).getD 0) := by
  rcases progress_of_run hr i with
    hall | ⟨a, first, b, event', r, htr, hfirst, hevent, hreply, hb, hparse', hfound⟩ | ⟨a, hret⟩
  case inl =>
      rw [hnext, handleEvent, hparse, writeNext] at hall
      cases hall
  case inr.inr =>
      rw [hnext, writeNext] at hret
      cases hret
  case inr.inl =>
      have hquiet : ∀ x ∈ b, x.thread = none := by
        intro x hx
        cases hxthread : x.thread with
        | none => rfl
        | some j =>
            have hj : j = i :=
              (Pool.steps_concat.mp hseq).2 i hthread a first b htr hfirst x hx j hxthread
            exact absurd (hj ▸ hxthread) (hb x hx)
      obtain rfl : event' = event := Option.some.inj (hparse'.symm.trans hparse)
      have hfile := file_of_nonOverlapping hr htr hquiet (writtenBy_read hevent)
      refine ⟨priorOf r, hnext.symm.trans hfound, hfile ▸ hreply.priorOf, fun hreads => ?_⟩
      have hfirst : first ∈ tr := htr ▸ List.mem_append_right _ List.mem_cons_self
      rw [hreads first hfirst r hevent, priorOf_ok, hfile]

/-- Each step keeps track of what was written and returned. -/
theorem tracked_step {ts consumed : Nat}
    (hr : Pool.Run (step J) (pool J sessionId eventName (.start runtimeDir sessionId) polls) tr P)
    (h : Tracked J sessionId (PriorsRead J tr) (written eventName tr) (returned tr) ts consumed
      P.shared)
    (hs : Pool.Step (step J) P m P') (hseq : NonOverlapping (tr ++ [m]))
    (hlt : (written eventName (tr ++ [m])).length < 2 ^ 64) :
    ∃ ts' consumed', Tracked J sessionId (PriorsRead J (tr ++ [m])) (written eventName (tr ++ [m]))
      (returned (tr ++ [m])) ts' consumed' P'.shared := by
  have hP := wellFormed_run (wellFormed_pool _ polls) hr
  have hsame := h.imp fun hpriors : PriorsRead J (tr ++ [m]) => hpriors.of_append
  rw [written_append, written_singleton] at hlt ⊢
  rw [returned_append, returned_singleton]
  cases step_cases hP hs with
  | poll contents hthread hevent hread hshared =>
      have hret : returnedBy m = (P.shared.reader.poll J contents).1 := by
        rw [returnedBy, hevent]
      rw [writtenBy_reader hthread, Option.toList_none, List.append_nil] at hlt ⊢
      rw [hshared, hret]
      rcases hread with rfl | rfl
      · exact ⟨ts, hsame.poll hlt⟩
      · exact ⟨ts, consumed, by simpa using hsame⟩
  | read i event r _ _ _ hevent _ hshared =>
      have hret : returnedBy m = none := by rw [returnedBy, hevent]
      rw [hshared, hret, writtenBy_read hevent]
      exact ⟨ts, consumed, by simpa using hsame⟩
  | write i event priorTs r hthread hparse hnext hevent hshared =>
      have hret : returnedBy m = none := by rw [returnedBy, hevent]
      rw [hret, Option.toList_none, List.append_nil]
      rcases hshared with ⟨rfl, hshared⟩ | ⟨⟨msg, rfl⟩, hshared⟩
      · obtain ⟨prior, htext, hprior, hread⟩ :=
          prior_of_nonOverlapping hr hseq hthread hparse hnext
        have htext : stateFile J event (nextTs priorTs) sessionId =
            stateFile J event (nextTs prior) sessionId := by
          rw [writeNext, writeNext] at htext
          injection htext with hop
          injection hop
        rw [writtenBy_write hthread hevent, hparse, Option.toList_some, List.length_append] at hlt
        rw [h.prior (by omega)] at hprior hread
        rw [hshared, writtenBy_write hthread hevent, hparse, htext]
        exact ⟨_, consumed, h.write hlt
          (fun hreads => ⟨hreads.of_append, hread hreads.of_append⟩) hprior event⟩
      · rw [hshared, writtenBy_error hevent]
        exact ⟨ts, consumed, by simpa using hsame⟩

theorem tracked_run (h : SequentialRun J runtimeDir sessionId eventName polls tr P) :
    ∃ ts consumed, Tracked J sessionId (PriorsRead J tr) (written eventName tr) (returned tr) ts
      consumed P.shared := by
  obtain ⟨hr, hseq, hlt⟩ := h
  induction hr with
  | nil => exact ⟨0, 0, tracked_start runtimeDir⟩
  | @snoc tr P P' m hr hs ih =>
      have hle : (written eventName tr).length ≤ (written eventName (tr ++ [m])).length := by
        rw [written_append, List.length_append]
        omega
      obtain ⟨ts, consumed, hbefore⟩ := ih (Pool.steps_concat.mp hseq).1 (by omega)
      exact tracked_step hr hbefore hs hseq hlt

/-- A sequential run splits at each of its steps. -/
theorem SequentialRun.split {a b : List (HookMoment κ)}
    (h : SequentialRun J runtimeDir sessionId eventName polls (a ++ m :: b) P) :
    ∃ P₁ P₂, SequentialRun J runtimeDir sessionId eventName polls a P₁ ∧
      Pool.Step (step J) P₁ m P₂ ∧
      SequentialRun J runtimeDir sessionId eventName polls (a ++ [m]) P₂ ∧
      Pool.Run (step J) P₂ b P := by
  obtain ⟨P₁, P₂, hr₁, hs, hr₂⟩ := h.run.split rfl
  have hlt := h.lt
  have hseq := h.nonOverlapping
  rw [List.append_cons] at hlt hseq
  have happend := hseq.of_append
  rw [written_append, List.length_append] at hlt
  refine ⟨P₁, P₂, ⟨hr₁, happend.of_append, ?_⟩, hs, ⟨.snoc hr₁ hs, happend, by omega⟩, hr₂⟩
  rw [written_append, List.length_append] at hlt
  omega

/-- A poll that returns an event consumes the counter of the file, which it had not
    consumed. -/
theorem SequentialRun.returned (h : SequentialRun J runtimeDir sessionId eventName polls tr P)
    (hs : Pool.Step (step J) P m P') {event : HookEvent} (hm : returnedBy m = some event) :
    P.shared.reader.lastTs.getD 0 < (readPriorTs J P.shared.file).getD 0 ∧
      P'.shared.reader.lastTs.getD 0 = (readPriorTs J P.shared.file).getD 0 := by
  obtain ⟨ts, consumed, htracked⟩ := tracked_run h
  rw [htracked.prior h.lt]
  cases step_cases (wellFormed_run (wellFormed_pool _ polls) h.run) hs with
  | read i event r _ _ _ hevent => rw [returnedBy, hevent] at hm; cases hm
  | write i event priorTs r _ _ _ hevent => rw [returnedBy, hevent] at hm; cases hm
  | poll contents _ hevent hread hshared =>
      rw [returnedBy, hevent] at hm
      rcases hread with rfl | rfl
      case inr => cases hm
      rw [htracked.poll_eq h.lt] at hm hshared
      by_cases hlt : P.shared.reader.lastTs.getD 0 < ts
      · rw [if_pos hlt] at hm hshared
        exact ⟨hlt, by rw [hshared]; rfl⟩
      · rw [if_neg hlt] at hm
        cases hm

/-- A poll that reads the file has consumed its counter. -/
theorem SequentialRun.polled (h : SequentialRun J runtimeDir sessionId eventName polls tr P)
    (hs : Pool.Step (step J) P m P') {contents : String} {event : Option HookEvent}
    (hm : m.event = ⟨.poll, (some contents, event)⟩) :
    P'.shared.file = P.shared.file ∧
      (readPriorTs J P.shared.file).getD 0 ≤ P'.shared.reader.lastTs.getD 0 := by
  obtain ⟨ts, consumed, htracked⟩ := tracked_run h
  rw [htracked.prior h.lt]
  cases step_cases (wellFormed_run (wellFormed_pool _ polls) h.run) hs with
  | read i event r _ _ _ hevent => rw [hm] at hevent; cases hevent
  | write i event priorTs r _ _ _ hevent => rw [hm] at hevent; cases hevent
  | poll contents' _ hevent hread hshared =>
      obtain ⟨rfl, -⟩ : contents' = some contents ∧ _ := by simpa using hevent.symm.trans hm
      rw [hread.resolve_right (by simp), htracked.poll_eq h.lt] at hshared
      refine ⟨by rw [hshared], ?_⟩
      by_cases hlt : P.shared.reader.lastTs.getD 0 < ts
      · rw [hshared, if_pos hlt]
        exact Nat.le_refl _
      · rw [hshared, if_neg hlt]
        exact Nat.le_of_not_lt hlt

/-- Delivery in order: what is returned is a subsequence of what is written,
    each poll returns the last event written, no two polls return the same
    write, and after a poll that reads the file the last event written has been returned,
    as long as no invocation has failed to read the counter before it. -/
structure DeliveryLaw (J : SerdeJson) (eventName : κ → String) (tr : List (HookMoment κ)) :
    Prop where
  subsequence : (returned tr).Sublist (written eventName tr)
  latest : ∀ a m b event, tr = a ++ m :: b → returnedBy m = some event →
    (written eventName a).getLast? = some event
  once : ∀ a m b m' c, tr = a ++ m :: (b ++ m' :: c) → returnedBy m ≠ none →
    returnedBy m' ≠ none → ∃ x ∈ b, writtenBy eventName x ≠ none
  current : ∀ a m b contents event, tr = a ++ m :: b →
    m.event = ⟨.poll, (some contents, event)⟩ → written eventName a ≠ [] → PriorsRead J a →
    (Hook.returned (a ++ [m])).getLast? = (written eventName a).getLast?

/-- Sidecars that do not overlap are delivered in order. -/
theorem delivery_law (h : SequentialRun J runtimeDir sessionId eventName polls tr P) :
    DeliveryLaw J eventName tr := by
  constructor
  case subsequence =>
      obtain ⟨ts, consumed, htracked⟩ := tracked_run h
      exact htracked.sublist.trans (List.take_sublist _ _)
  case latest =>
      rintro a m b event rfl hm
      obtain ⟨P₁, P₂, h₁, hs, -, -⟩ := h.split
      exact latest_of_run h₁.run hs hm
  case once =>
      rintro a m b m' c rfl hm hm'
      obtain ⟨event, hm⟩ := Option.ne_none_iff_exists'.mp hm
      obtain ⟨event', hm'⟩ := Option.ne_none_iff_exists'.mp hm'
      by_contra hnone
      have hquiet : ∀ x ∈ b, writtenBy eventName x = none :=
        fun x hx => by_contra fun hx' => hnone ⟨x, hx, hx'⟩
      rw [← List.cons_append, ← List.append_assoc] at h
      obtain ⟨P₃, P₄, h₃, hs', -, -⟩ := h.split
      obtain ⟨P₁, P₂, h₁, hs, h₂, hr⟩ := h₃.split
      have hP₁ := wellFormed_run (wellFormed_pool _ polls) h₁.run
      have hP₂ := wellFormed_run (wellFormed_pool _ polls) h₂.run
      obtain ⟨-, hconsumed⟩ := h₁.returned hs hm
      obtain ⟨hnew, -⟩ := h₃.returned hs' hm'
      have hpoll : writtenBy eventName m = none := by
        cases step_cases hP₁ hs with
        | poll contents hthread => exact writtenBy_reader hthread
        | read i event r _ _ _ hevent => exact writtenBy_read hevent
        | write i event priorTs r _ _ _ hevent => rw [returnedBy, hevent] at hm; cases hm
      -- the file is the same at both polls, and its counter is consumed by the first
      have hmono := lastTs_le_run hP₂ hr
      rw [file_of_run hP₂ hr hquiet, file_of_step hP₁ hs hpoll] at hnew
      omega
  case current =>
      rintro a m b contents event rfl hm hne hreads
      obtain ⟨P₁, P₂, h₁, hs, h₂, -⟩ := h.split
      have hwritten : written eventName (a ++ [m]) = written eventName a := by
        rw [written_append, written_singleton, writtenBy_poll hm, Option.toList_none,
          List.append_nil]
      have hreads' : PriorsRead J (a ++ [m]) := by
        intro x hx r hevent
        rcases List.mem_append.mp hx with hx | hx
        · exact hreads x hx r hevent
        · rw [List.mem_singleton.mp hx, hm] at hevent
          cases hevent
      obtain ⟨ts, consumed, htracked⟩ := tracked_run h₂
      obtain ⟨hcount, hconsumed⟩ := htracked.counted hreads'
      obtain ⟨hfile, hpolled⟩ := h₁.polled hs hm
      rw [← hfile, htracked.prior h₂.lt, hcount, hconsumed] at hpolled
      have hlast := htracked.last
      rwa [Nat.le_antisymm htracked.le hpolled, List.take_length, hwritten] at hlast

end

-- ============================================================================
-- Two invocations one after the other
-- ============================================================================

/-- Invocations that move in the order of their numbers do not overlap. -/
theorem nonOverlapping_of_pairwise {κ : Type} [PartialOrder κ] {tr : List (HookMoment κ)}
    (h : tr.Pairwise fun x y => ∀ i ∈ x.thread, ∀ j ∈ y.thread, i ≤ j) : NonOverlapping tr := by
  rintro before m post rfl i hm a first b rfl hfirst x hx j hxthread
  obtain ⟨hbefore, -, hlast⟩ := List.pairwise_append.mp h
  have hle : j ≤ i := hlast x (by simp [hx]) m List.mem_cons_self j hxthread i hm
  have hge := List.rel_of_pairwise_cons (List.pairwise_append.mp hbefore).2.1 hx
  exact le_antisymm hle (hge i hfirst j hxthread)

/-- A prompt is submitted and polled; then a second invocation reads the counter, which
    answers `r`, and writes. -/
abbrev turn (r : Except String (Option Nat)) : List (HookMoment Bool) :=
  [readsNone false, writesSubmit,
    ⟨none, ⟨.poll, ((fileOf .compact .submit 1 none).file, some .submit)⟩,
      fileOf .compact .submit 1 none, fileOf .compact .submit 1 (some 1)⟩,
    ⟨some true, ⟨.readPrior, r⟩, fileOf .compact .submit 1 (some 1),
      fileOf .compact .submit 1 (some 1)⟩,
    ⟨some true, ⟨.writeAtomic (stateFile .compact .stop (nextTs (priorOf r)) "0"), .ok ()⟩,
      fileOf .compact .submit 1 (some 1), fileOf .compact .stop (nextTs (priorOf r)) (some 1)⟩]

theorem run_turn {r : Except String (Option Nat)}
    (hreply : PriorReply .compact (fileOf .compact .submit 1 (some 1)).file r) :
    ∃ P, Pool.Run (step .compact) submittingAndStopping (turn r) P ∧
      P.shared = fileOf .compact .stop (nextTs (priorOf r)) (some 1) ∧
      P.threads none = pollTimes 1 := by
  have h0 : Pool.Run (step .compact) submittingAndStopping []
      ⟨.start "/run" "0", submittingAndStopping.threads⟩ := .nil
  have h1 := h0.next (some false) rfl step_first_read rfl
  have h2 := h1.next (some false) rfl (step_first_write .submit) rfl
  have h3 := h2.next none rfl (step_poll_fresh (by decide) (by decide)) rfl
  have h4 := h3.next (some true) rfl ⟨hreply, rfl⟩ rfl
  have h5 := h4.next (some true) rfl
    (step_write_fileOf .submit .stop 1 (nextTs (priorOf r)) (some 1)) rfl
  exact ⟨_, h5, rfl, rfl⟩

/-- The poll after it. -/
theorem sequential_turn {r : Except String (Option Nat)} {event : Option HookEvent}
    {w : HookWorld} (hreply : PriorReply .compact (fileOf .compact .submit 1 (some 1)).file r)
    (hs : step .compact (fileOf .compact .stop (nextTs (priorOf r)) (some 1))
      ⟨.poll, ((fileOf .compact .stop (nextTs (priorOf r)) (some 1)).file, event)⟩ w) :
    ∃ P, SequentialRun .compact "/run" "0" submitAndStop 2
      (turn r ++ [⟨none, ⟨.poll, ((fileOf .compact .stop (nextTs (priorOf r)) (some 1)).file,
        event)⟩, fileOf .compact .stop (nextTs (priorOf r)) (some 1), w⟩]) P := by
  obtain ⟨⟨shared, threads⟩, hrun, rfl, hreader⟩ := run_turn hreply
  have hlength : 6 < 2 ^ 64 := by decide
  refine ⟨_, hrun.next none hreader hs rfl, nonOverlapping_of_pairwise ?_, ?_⟩
  · simp
  · exact Nat.lt_of_le_of_lt (List.length_filterMap_le _ _) hlength

/-- The second invocation reads the counter, and both events are delivered. -/
theorem delivery_law_turn :
    ∃ tr : List (HookMoment Bool), written submitAndStop tr = [.submit, .stop] ∧
      returned tr = [.submit, .stop] ∧ DeliveryLaw .compact submitAndStop tr := by
  have hread : PriorReply .compact (fileOf .compact .submit 1 (some 1)).file (.ok (some 1)) :=
    Or.inl (by rw [fileOf, readPriorTs_stateFile (by decide)])
  obtain ⟨P, hrun⟩ := sequential_turn hread (step_poll_fresh (by decide) (by decide))
  exact ⟨_, rfl, rfl, delivery_law hrun⟩

/-- The second invocation cannot read the file: it writes the counter that the reader has
    consumed, and the poll that reads its event does not return it. -/
theorem restarted :
    ∃ tr m P, SequentialRun .compact "/run" "0" submitAndStop 2 (tr ++ [m]) P ∧
      written submitAndStop tr = [.submit, .stop] ∧
      m.event = ⟨.poll, (some (stateFile .compact .stop 1 "0"), none)⟩ ∧
      returned (tr ++ [m]) = [.submit] := by
  have hfailed : PriorReply .compact (fileOf .compact .submit 1 (some 1)).file (.ok none) :=
    Or.inr (Or.inl rfl)
  obtain ⟨P, hrun⟩ := sequential_turn hfailed (step_poll_stale (by decide) (by decide))
  exact ⟨_, _, P, hrun, rfl, rfl, rfl⟩

end Spectty.Hook
