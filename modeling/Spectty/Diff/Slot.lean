/-
  Spectty.Diff.Slot

  What holds of the pipeline over every interleaving of its triggers.

  `protocol` says how far a trigger is, with what its pass has learnt
  (`Phase`); `Moves` lists its steps.  `Inv` ties the phases to the pipeline's
  state: the slot is taken exactly while a pass holds it, the holder is the
  last pass that was granted it, and hash and explanation are those of the
  last pass that cached any.
-/

import Spectty.Diff.Pipeline
import Mathlib.Data.List.Basic
import Mathlib.Data.Set.Function

namespace Spectty.Diff

open Spectty.Lib

-- ============================================================================
-- Phases
-- ============================================================================

/-- What a pass that held the slot came to. -/
inductive Result where
  | gitFailed
  | empty (diff : String)
  | unchanged (diff : String)
  | explainFailed (diff : String) (error : ExplainError)
  | emitted (diff : String) (explanation : DiffExplanation)

/-- The outcome it returns. -/
def Result.outcome (hashDiff : String → Nat) : Result → RunOutcome
  | .gitFailed => .degraded
  | .empty _ => .empty
  | .unchanged _ => .skippedUnchanged
  | .explainFailed _ _ => .degraded
  | .emitted diff _ => .emitted (hashDiff diff)

/-- How far a trigger is. -/
inductive Phase where
  | idle
  | edited
  | dropped
  | claimed
  | read (diff : String)
  | changed (diff : String)
  | explained (diff : String) (explanation : DiffExplanation)
  | cached (diff : String) (explanation : DiffExplanation)
  | finished (result : Result)
  | released (result : Result)

namespace Phase

/-- The pass has not fired yet. -/
def waiting : Phase → Bool
  | idle | edited => true
  | _ => false

/-- The pass holds the slot. -/
def holds : Phase → Bool
  | idle | edited | dropped | released _ => false
  | _ => true

/-- The pass holds or held the slot. -/
def granted : Phase → Bool
  | idle | edited | dropped => false
  | _ => true

/-- The diff the pass has read. -/
def diff : Phase → Option String
  | read diff | changed diff | explained diff _ | cached diff _ => some diff
  | finished result | released result =>
      match result with
      | .gitFailed => none
      | .empty diff | .unchanged diff | .explainFailed diff _ | .emitted diff _ => some diff
  | _ => none

/-- The diff and the explanation that the pass has cached. -/
def settlement : Phase → Option (String × DiffExplanation)
  | cached diff explanation => some (diff, explanation)
  | finished result | released result =>
      match result with
      | .empty diff => some (diff, .empty)
      | .emitted diff explanation => some (diff, explanation)
      | _ => none
  | _ => none

@[simp] theorem granted_of_holds {q : Phase} (h : q.holds = true) : q.granted = true := by
  cases q <;> first | rfl | cases h

@[simp] theorem granted_of_waiting {q : Phase} (h : q.waiting = true) : q.granted = false := by
  cases q <;> first | rfl | cases h

@[simp] theorem settlement_of_not_granted {q : Phase} (h : q.granted = false) :
    q.settlement = none := by
  cases q <;> first | rfl | cases h

@[simp] theorem diff_of_not_granted {q : Phase} (h : q.granted = false) : q.diff = none := by
  cases q <;> first | rfl | cases h

@[simp] theorem holds_of_not_granted {q : Phase} (h : q.granted = false) : q.holds = false := by
  cases q <;> first | rfl | cases h

/-- What a pass cached, it had read. -/
theorem diff_of_settlement {q : Phase} {diff : String} {explanation : DiffExplanation}
    (h : q.settlement = some (diff, explanation)) : q.diff = some diff := by
  cases q with
  | finished result | released result => cases result <;> simp_all [settlement, Phase.diff]
  | _ => simp_all [settlement, Phase.diff]

end Phase

-- ============================================================================
-- The steps of a trigger
-- ============================================================================

/-- A step of a trigger, from phase to phase. -/
inductive Moves (hashDiff : String → Nat) (self : DiffPipeline) :
    Phase → Event DiffSig → Phase → Prop where
  | edit {diff : String} : Moves hashDiff self .idle ⟨.edit diff, ()⟩ .edited
  | drop {q : Phase} : q.waiting = true → Moves hashDiff self q ⟨.claimSlot, true⟩ .dropped
  | claim {q : Phase} : q.waiting = true → Moves hashDiff self q ⟨.claimSlot, false⟩ .claimed
  | gitFailed {workspace : String} {error : GitError} :
      Moves hashDiff self .claimed ⟨.diffHead workspace, .error error⟩ (.finished .gitFailed)
  | read {workspace diff : String} :
      Moves hashDiff self .claimed ⟨.diffHead workspace, .ok diff⟩ (.read diff)
  | empty {diff : String} : isBlank diff = true →
      Moves hashDiff self (.read diff) ⟨.cacheEmpty (hashDiff ""), ()⟩ (.finished (.empty diff))
  | unchanged {diff : String} : isBlank diff = false →
      Moves hashDiff self (.read diff) ⟨.lastHash, some (hashDiff diff)⟩
        (.finished (.unchanged diff))
  | changed {diff : String} {lastHash : Option Nat} : isBlank diff = false →
      lastHash ≠ some (hashDiff diff) →
      Moves hashDiff self (.read diff) ⟨.lastHash, lastHash⟩ (.changed diff)
  | explained {diff workspace : String} {explanation : DiffExplanation} :
      Moves hashDiff self (.changed diff) ⟨.explain diff workspace, .ok explanation⟩
        (.explained diff explanation)
  | explainFailed {diff workspace : String} {error : ExplainError} :
      Moves hashDiff self (.changed diff) ⟨.explain diff workspace, .error error⟩
        (.finished (.explainFailed diff error))
  | cached {diff : String} {explanation : DiffExplanation} :
      Moves hashDiff self (.explained diff explanation)
        ⟨.cacheExplanation (hashDiff diff) explanation, ()⟩ (.cached diff explanation)
  | emitted {diff : String} {explanation : DiffExplanation} :
      Moves hashDiff self (.cached diff explanation)
        ⟨.emit { sessionId := self.sessionId, explanation }, ()⟩
        (.finished (.emitted diff explanation))
  | release {result : Result} :
      Moves hashDiff self (.finished result) ⟨.releaseSlot, ()⟩ (.released result)

/-- The same, as a protocol. -/
def protocol (hashDiff : String → Nat) (self : DiffPipeline) : Prog.Protocol DiffSig Phase
  | .idle, ⟨.edit _, _⟩ => some .edited
  | .idle, ⟨.claimSlot, inFlight⟩ => some (bif inFlight then .dropped else .claimed)
  | .edited, ⟨.claimSlot, inFlight⟩ => some (bif inFlight then .dropped else .claimed)
  | .claimed, ⟨.diffHead _, .error _⟩ => some (.finished .gitFailed)
  | .claimed, ⟨.diffHead _, .ok diff⟩ => some (.read diff)
  | .read diff, ⟨.cacheEmpty hash, _⟩ =>
      if isBlank diff = true ∧ hash = hashDiff "" then some (.finished (.empty diff)) else none
  | .read diff, ⟨.lastHash, lastHash⟩ =>
      if isBlank diff = true then none
      else if lastHash = some (hashDiff diff) then some (.finished (.unchanged diff))
      else some (.changed diff)
  | .changed diff, ⟨.explain diff' _, .ok explanation⟩ =>
      if diff' = diff then some (.explained diff explanation) else none
  | .changed diff, ⟨.explain diff' _, .error error⟩ =>
      if diff' = diff then some (.finished (.explainFailed diff error)) else none
  | .explained diff explanation, ⟨.cacheExplanation hash explanation', _⟩ =>
      if hash = hashDiff diff ∧ explanation' = explanation then some (.cached diff explanation)
      else none
  | .cached diff explanation, ⟨.emit event, _⟩ =>
      if event = { sessionId := self.sessionId, explanation } then
        some (.finished (.emitted diff explanation))
      else none
  | .finished result, ⟨.releaseSlot, _⟩ => some (.released result)
  | _, _ => none

section

variable {hashDiff : String → Nat} {self : DiffPipeline} {q q' : Phase} {e : Event DiffSig}

theorem moves_of_protocol (h : protocol hashDiff self q e = some q') :
    Moves hashDiff self q e q' := by
  unfold protocol at h
  split at h
  · cases h
    exact .edit
  · rename_i inFlight
    cases inFlight <;> cases h
    · exact .claim rfl
    · exact .drop rfl
  · rename_i inFlight
    cases inFlight <;> cases h
    · exact .claim rfl
    · exact .drop rfl
  · cases h
    exact .gitFailed
  · cases h
    exact .read
  · split at h
    · rename_i diff hash _ hcond
      obtain ⟨hblank, rfl⟩ := hcond
      cases h
      exact .empty hblank
    · cases h
  · split at h
    · cases h
    · rename_i diff lastHash hblank
      have hblank : isBlank diff = false := by simpa using hblank
      split at h
      · rename_i hlast
        cases h
        rw [hlast]
        exact .unchanged hblank
      · rename_i hlast
        cases h
        exact .changed hblank hlast
  · split at h
    · rename_i hdiff
      subst hdiff
      cases h
      exact .explained
    · cases h
  · split at h
    · rename_i hdiff
      subst hdiff
      cases h
      exact .explainFailed
    · cases h
  · split at h
    · rename_i hcond
      obtain ⟨rfl, rfl⟩ := hcond
      cases h
      exact .cached
    · cases h
  · split at h
    · rename_i hevent
      subst hevent
      cases h
      exact .emitted
    · cases h
  · cases h
    exact .release
  · cases h

/-- A trigger has returned: it was dropped, or released the slot. -/
def Returned (hashDiff : String → Nat) (outcome : RunOutcome) (q : Phase) : Prop :=
  q = .dropped ∧ outcome = .degraded ∨
    ∃ result, q = .released result ∧ outcome = result.outcome hashDiff

theorem returned_of_follows {p : Prog DiffSig RunOutcome} {outcome : RunOutcome}
    (h : Prog.Follows (protocol hashDiff self) q p (Returned hashDiff)) (hp : p = .ret outcome) :
    Returned hashDiff outcome q := by
  rw [hp] at h
  exact h

/-- The body of a pass follows the protocol to a result. -/
theorem follows_runInner :
    Prog.Follows (protocol hashDiff self) .claimed (self.runInner hashDiff) fun outcome q =>
      ∃ result, q = .finished result ∧ outcome = result.outcome hashDiff := by
  rintro (⟨msg⟩ | diff)
  · exact ⟨_, rfl, .gitFailed, rfl, rfl⟩
  · refine ⟨.read diff, rfl, ?_⟩
    dsimp only
    split
    case isTrue hblank =>
      exact fun _ => ⟨_, if_pos ⟨hblank, rfl⟩, .empty diff, rfl, rfl⟩
    case isFalse hblank =>
      intro lastHash
      by_cases hlast : lastHash = some (hashDiff diff)
      · refine ⟨.finished (.unchanged diff), ?_, ?_⟩
        · simp [protocol, hblank, hlast]
        · dsimp only
          rw [if_pos hlast]
          exact ⟨_, rfl, rfl⟩
      · refine ⟨.changed diff, ?_, ?_⟩
        · simp [protocol, hblank, hlast]
        · dsimp only
          rw [if_neg hlast]
          rintro (error | explanation)
          · exact ⟨_, if_pos rfl, .explainFailed diff error, rfl, rfl⟩
          · refine ⟨_, if_pos rfl, fun _ => ⟨_, if_pos ⟨rfl, rfl⟩, fun _ => ?_⟩⟩
            exact ⟨_, if_pos rfl, .emitted diff explanation, rfl, rfl⟩

/-- A pass follows the protocol. -/
theorem follows_runOnce (hq : q = .idle ∨ q = .edited) :
    Prog.Follows (protocol hashDiff self) q (self.runOnce hashDiff) (Returned hashDiff) := by
  have hclaim : ∀ inFlight : Bool, protocol hashDiff self q ⟨.claimSlot, inFlight⟩ =
      some (bif inFlight then .dropped else .claimed) := by
    rcases hq with rfl | rfl <;> exact fun _ => rfl
  rintro (_ | _)
  · refine ⟨.claimed, hclaim false, follows_runInner.bind ?_⟩
    rintro outcome q ⟨result, rfl, rfl⟩ _
    exact ⟨.released result, rfl, Or.inr ⟨result, rfl, rfl⟩⟩
  · exact ⟨.dropped, hclaim true, Or.inl ⟨rfl, rfl⟩⟩

/-- A trigger follows the protocol. -/
theorem follows_trigger (edit : Option String) :
    Prog.Follows (protocol hashDiff self) .idle (self.trigger hashDiff edit)
      (Returned hashDiff) := by
  cases edit with
  | none => exact follows_runOnce (Or.inl rfl)
  | some diff => exact fun _ => ⟨.edited, rfl, follows_runOnce (Or.inr rfl)⟩

end

-- ============================================================================
-- The passes that held the slot
-- ============================================================================

/-- The text a diff is hashed as: blank diffs count as one. -/
def marker (diff : String) : String := if isBlank diff then "" else diff

theorem marker_blank {diff : String} (h : isBlank diff = true) : marker diff = "" := if_pos h

theorem marker_of_not_blank {diff : String} (h : isBlank diff = false) : marker diff = diff :=
  if_neg (by simp [h])

/-- Only a diff that is not blank has itself as its text. -/
theorem eq_of_marker_eq {diff diff' : String} (h : isBlank diff = false)
    (hmarker : marker diff' = diff) : diff' = diff := by
  by_cases hblank : isBlank diff' = true
  · rw [marker_blank hblank] at hmarker
    subst hmarker
    cases h
  · rwa [marker_of_not_blank (by simpa using hblank)] at hmarker

section

variable {ι : Type}

/-- The pass that a step grants the slot to. -/
def grantee (m : Moment ι DiffWorld DiffSig) : Option ι :=
  match m.event with
  | ⟨.claimSlot, false⟩ => some m.thread
  | _ => none

/-- The passes that were granted the slot, in order. -/
def granted (tr : List (Moment ι DiffWorld DiffSig)) : List ι := tr.filterMap grantee

theorem granted_concat_of_none {tr : List (Moment ι DiffWorld DiffSig)}
    {m : Moment ι DiffWorld DiffSig} (h : grantee m = none) :
    granted (tr ++ [m]) = granted tr := by
  simp [granted, h]

/-- What the last of some passes that cached anything has cached. -/
def settled (q : ι → Phase) (passes : List ι) : Option (String × DiffExplanation) :=
  (passes.filterMap fun i => (q i).settlement).getLast?

theorem settled_concat (q : ι → Phase) (front : List ι) (i : ι) :
    settled q (front ++ [i]) = (q i).settlement.or (settled q front) := by
  unfold settled
  rw [List.filterMap_append, List.getLast?_append]
  cases h : (q i).settlement <;> simp [h]

theorem exists_of_settled {q : ι → Phase} {passes : List ι} {p : String × DiffExplanation}
    (h : settled q passes = some p) : ∃ i ∈ passes, (q i).settlement = some p :=
  List.mem_filterMap.mp (List.mem_of_getLast? h)

variable [DecidableEq ι]

/-- What does not change of the phase that moves does not change of any. -/
theorem apply_update_of_eq {γ : Type} {q : ι → Phase} {q' : Phase} {i : ι} {f : Phase → γ}
    (h : f q' = f (q i)) (j : ι) : f (Function.update q i q' j) = f (q j) := by
  rw [Function.apply_update fun _ => f, h, Function.update_eq_self]

theorem settled_update {q : ι → Phase} {passes : List ι} {i : ι} (q' : Phase)
    (h : i ∉ passes) : settled (Function.update q i q') passes = settled q passes := by
  unfold settled
  congr 1
  refine List.filterMap_congr fun j hj => ?_
  rw [Function.update_of_ne (ne_of_mem_of_not_mem hj h)]

end

-- ============================================================================
-- The invariant
-- ============================================================================

/-- The pipeline keeps the hash and the explanation of what was cached last. -/
def Shows (hashDiff : String → Nat) (state : PipelineState)
    (last : Option (String × DiffExplanation)) : Prop :=
  state.lastHash = last.map (fun p => hashDiff (marker p.1)) ∧
    state.lastExplanation = last.map (·.2)

/-- A result is the one that the diff cached last asks for. -/
def Result.Lawful (last : Option String) : Result → Prop
  | .gitFailed => True
  | .empty diff => isBlank diff = true
  | .unchanged diff => isBlank diff = false ∧ last = some diff
  | .explainFailed diff _ => isBlank diff = false ∧ last ≠ some diff
  | .emitted diff _ => isBlank diff = false ∧ last ≠ some diff

/-- A pass is on the way to such a result. -/
def Phase.Lawful (last : Option String) : Phase → Prop
  | .changed diff | .explained diff _ | .cached diff _ => isBlank diff = false ∧ last ≠ some diff
  | .finished result | .released result => result.Lawful last
  | _ => True

/-- How phases, trace and state hang together; `known` are the texts of the diffs
    that git may answer. -/
structure Inv {ι : Type} (hashDiff : String → Nat) (known : Set String) (q : ι → Phase)
    (tr : List (Moment ι DiffWorld DiffSig)) (w : DiffWorld) : Prop where
  slot : w.state.inFlight = true ↔ ∃ i, (q i).holds = true
  last : ∀ i, (q i).holds = true → (granted tr).getLast? = some i
  mem : ∀ i, i ∈ granted tr ↔ (q i).granted = true
  nodup : (granted tr).Nodup
  shows : Shows hashDiff w.state (settled q (granted tr))
  lawful : ∀ before i after, granted tr = before ++ i :: after →
    (q i).Lawful ((settled q before).map (·.1))
  reads : ∀ i diff, (q i).diff = some diff → marker diff ∈ known

section

variable {ι : Type} [DecidableEq ι] {hashDiff : String → Nat} {self : DiffPipeline}
  {known : Set String} {q : ι → Phase} {q' : Phase} {tr : List (Moment ι DiffWorld DiffSig)}
  {m : Moment ι DiffWorld DiffSig} {w w' : DiffWorld}

/-- Other phases are as before, and so is what earlier passes cached. -/
theorem Inv.frame (h : Inv hashDiff known q tr w) {before after : List ι} {i j : ι} (hj : j ≠ i)
    (hi : i ∉ before) (hgranted : granted tr = before ++ j :: after) :
    (Function.update q i q' j).Lawful
      ((settled (Function.update q i q') before).map (·.1)) := by
  rw [Function.update_of_ne hj, settled_update q' hi]
  exact h.lawful before j after hgranted

/-- Only the phase that moves may have learnt of a diff. -/
theorem Inv.reads_update (h : Inv hashDiff known q tr w) {i : ι}
    (hq' : ∀ diff, q'.diff = some diff → marker diff ∈ known) (j : ι) (diff : String)
    (hdiff : (Function.update q i q' j).diff = some diff) : marker diff ∈ known := by
  revert j diff
  exact (Function.forall_update_iff q fun _ p =>
    ∀ diff, p.diff = some diff → marker diff ∈ known).mpr ⟨hq', fun j _ => h.reads j⟩

omit [DecidableEq ι] in
/-- Only one pass holds the slot. -/
theorem Inv.unique (h : Inv hashDiff known q tr w) {i j : ι} (hi : (q i).holds = true)
    (hj : (q j).holds = true) : i = j := by
  have hlast := h.last i hi
  rw [h.last j hj] at hlast
  exact (Option.some.inj hlast).symm

omit [DecidableEq ι] in
/-- The invariant holds of no trigger fired. -/
theorem inv_start (tree : String) :
    Inv hashDiff known (fun _ : ι => .idle) [] (.start tree) := by
  constructor
  case slot => exact ⟨nofun, fun ⟨_, h⟩ => nomatch h⟩
  case last => exact fun _ h => nomatch h
  case mem => exact fun _ => ⟨nofun, nofun⟩
  case nodup => exact .nil
  case shows => exact ⟨rfl, rfl⟩
  case lawful =>
    intro before i after h
    simp [granted] at h
  case reads => exact fun _ _ h => nomatch h

/-- A trigger that is not granted the slot changes nothing. -/
theorem Inv.wait (h : Inv hashDiff known q tr w) (hi : (q m.thread).granted = false)
    (hq' : q'.granted = false) (hm : grantee m = none) (hw : w'.state = w.state) :
    Inv hashDiff known (Function.update q m.thread q') (tr ++ [m]) w' := by
  have hout : m.thread ∉ granted tr := by
    rw [h.mem, hi]
    exact nofun
  have hholds : ∀ j, (Function.update q m.thread q' j).holds = (q j).holds :=
    apply_update_of_eq (by rw [Phase.holds_of_not_granted hi, Phase.holds_of_not_granted hq'])
  have hgranted : granted (tr ++ [m]) = granted tr := granted_concat_of_none hm
  constructor
  case slot => simp only [hholds, hw, h.slot]
  case last =>
    intro j hj
    rw [hgranted]
    exact h.last j ((hholds j).symm.trans hj)
  case mem =>
    intro j
    rw [hgranted, h.mem, apply_update_of_eq (f := Phase.granted) (by rw [hi, hq'])]
  case nodup => rw [hgranted]; exact h.nodup
  case shows => rw [hgranted, hw, settled_update q' hout]; exact h.shows
  case lawful =>
    intro before j after he
    rw [hgranted] at he
    refine h.frame (fun hj => hout ?_) (fun hmem => hout ?_) he
    · subst hj
      simp [he]
    · simp [he, hmem]
  case reads =>
    refine h.reads_update fun diff hdiff => ?_
    rw [Phase.diff_of_not_granted hq'] at hdiff
    cases hdiff

/-- A free slot is granted. -/
theorem Inv.claim (h : Inv hashDiff known q tr w) (hi : (q m.thread).granted = false)
    (hm : grantee m = some m.thread) (hfree : w.state.inFlight = false)
    (hw : w'.state = { w.state with inFlight := true }) :
    Inv hashDiff known (Function.update q m.thread .claimed) (tr ++ [m]) w' := by
  have hgranted : granted (tr ++ [m]) = granted tr ++ [m.thread] := by
    simp [granted, hm]
  have hout : m.thread ∉ granted tr := by
    rw [h.mem, hi]
    exact nofun
  have hnone : ∀ j, (q j).holds = false := by
    intro j
    by_contra hne
    rw [h.slot.mpr ⟨j, by simpa using hne⟩] at hfree
    cases hfree
  constructor
  case slot =>
    rw [hw]
    exact ⟨fun _ => ⟨m.thread, by rw [Function.update_self]; rfl⟩, fun _ => rfl⟩
  case last =>
    intro j hj
    by_cases hjm : j = m.thread
    · subst hjm
      rw [hgranted, List.getLast?_concat]
    · rw [Function.update_of_ne hjm, hnone] at hj
      cases hj
  case mem =>
    intro j
    rw [hgranted, List.mem_append, List.mem_singleton, h.mem]
    by_cases hj : j = m.thread
    · subst hj
      rw [Function.update_self]
      exact ⟨fun _ => rfl, fun _ => Or.inr rfl⟩
    · rw [Function.update_of_ne hj]
      simp [hj]
  case nodup =>
    rw [hgranted]
    refine List.nodup_append.mpr ⟨h.nodup, by simp, fun a ha b hb => ?_⟩
    rw [List.mem_singleton.mp hb]
    exact ne_of_mem_of_not_mem ha hout
  case shows =>
    rw [hgranted, settled_concat, Function.update_self, settled_update _ hout, hw]
    exact h.shows
  case lawful =>
    intro before j after he
    rw [hgranted] at he
    rcases Pool.concat_eq_append_cons he with ⟨rfl, rfl, rfl⟩ | ⟨post, rfl, he'⟩
    · rw [Function.update_self]
      trivial
    · refine h.frame (fun hj => hout ?_) (fun hmem => hout ?_) he'
      · subst hj
        simp [he']
      · simp [he', hmem]
  case reads => exact h.reads_update fun _ hdiff => nomatch hdiff

/-- The holder of the slot goes on, or gives it back. -/
theorem Inv.move (h : Inv hashDiff known q tr w) (hi : (q m.thread).holds = true)
    (hq' : q'.granted = true) (hm : grantee m = none) (hslot : w'.state.inFlight = q'.holds)
    (hread : ∀ diff, q'.diff = some diff → marker diff ∈ known)
    (hstep : ∀ last : Option (String × DiffExplanation),
      (∀ p, last = some p → marker p.1 ∈ known) → (q m.thread).Lawful (last.map (·.1)) →
      Shows hashDiff w.state ((q m.thread).settlement.or last) →
        q'.Lawful (last.map (·.1)) ∧ Shows hashDiff w'.state (q'.settlement.or last)) :
    Inv hashDiff known (Function.update q m.thread q') (tr ++ [m]) w' := by
  have hgranted : granted (tr ++ [m]) = granted tr := granted_concat_of_none hm
  obtain ⟨front, hfront⟩ := List.getLast?_eq_some_iff.mp (h.last m.thread hi)
  have hout : m.thread ∉ front := by
    have hnodup := h.nodup
    rw [hfront] at hnodup
    exact fun hmem => (List.nodup_append.mp hnodup).2.2 _ hmem _ (by simp) rfl
  have hknown : ∀ p, settled q front = some p → marker p.1 ∈ known := by
    intro p hp
    obtain ⟨j, -, hj⟩ := exists_of_settled hp
    exact h.reads j p.1 (Phase.diff_of_settlement hj)
  have hshows := h.shows
  rw [hfront, settled_concat] at hshows
  obtain ⟨hlawful, hshows'⟩ :=
    hstep (settled q front) hknown (h.lawful front m.thread [] hfront) hshows
  constructor
  case slot =>
    rw [hslot]
    refine ⟨fun hheld => ⟨m.thread, by rwa [Function.update_self]⟩, fun ⟨j, hj⟩ => ?_⟩
    by_cases hjm : j = m.thread
    · subst hjm
      rwa [Function.update_self] at hj
    · rw [Function.update_of_ne hjm] at hj
      exact absurd (h.unique hj hi) hjm
  case last =>
    intro j hj
    rw [hgranted]
    by_cases hjm : j = m.thread
    · subst hjm
      exact h.last m.thread hi
    · rw [Function.update_of_ne hjm] at hj
      exact h.last j hj
  case mem =>
    intro j
    rw [hgranted, h.mem,
      apply_update_of_eq (f := Phase.granted) (by rw [hq', Phase.granted_of_holds hi])]
  case nodup => rw [hgranted]; exact h.nodup
  case shows =>
    rw [hgranted, hfront, settled_concat, Function.update_self, settled_update q' hout]
    exact hshows'
  case lawful =>
    intro before j after he
    rw [hgranted] at he
    rw [hfront] at he
    rcases Pool.concat_eq_append_cons he with ⟨rfl, rfl, rfl⟩ | ⟨post, rfl, he'⟩
    · rw [Function.update_self, settled_update q' hout]
      exact hlawful
    · refine h.frame (fun hj => hout ?_) (fun hmem => hout ?_) (hfront.trans he)
      · subst hj
        simp [he']
      · simp [he', hmem]
  case reads => exact h.reads_update hread

/-- The holder goes on, or gives the slot back, and caches nothing. -/
theorem Inv.keep {p : Phase} (h : Inv hashDiff known q tr w) (hq : q m.thread = p)
    (hp : p.holds = true) (hq' : q'.granted = true) (hm : grantee m = none)
    (hw : w'.state = { w.state with inFlight := q'.holds })
    (hread : ∀ diff, q'.diff = some diff → marker diff ∈ known)
    (hsettle : q'.settlement = p.settlement)
    (hlawful : ∀ last : Option String, p.Lawful last → q'.Lawful last) :
    Inv hashDiff known (Function.update q m.thread q') (tr ++ [m]) w' := by
  subst hq
  refine h.move hp hq' hm (by rw [hw]) hread fun last _ hlast hshows => ⟨hlawful _ hlast, ?_⟩
  rw [hw, hsettle]
  exact hshows

/-- A diff is unchanged just when it is the one cached last. -/
theorem shows_lastHash {state : PipelineState} {diff : String}
    {last : Option (String × DiffExplanation)} (hshows : Shows hashDiff state last)
    (hblank : isBlank diff = false) (hinj : Set.InjOn hashDiff known) (hdiff : marker diff ∈ known)
    (hlast : ∀ p, last = some p → marker p.1 ∈ known) :
    state.lastHash = some (hashDiff diff) ↔ last.map (·.1) = some diff := by
  rw [hshows.1]
  cases last with
  | none => simp
  | some p =>
      rw [Option.map_some, Option.map_some, Option.some.injEq, Option.some.injEq]
      constructor
      · intro hhash
        rw [← marker_of_not_blank hblank] at hhash
        have hmarker := hinj (hlast p rfl) hdiff hhash
        rw [marker_of_not_blank hblank] at hmarker
        exact eq_of_marker_eq hblank hmarker
      · rintro rfl
        rw [marker_of_not_blank hblank]

/-- The diff that git answered. -/
def diffRead : Event DiffSig → Option String
  | ⟨.diffHead _, .ok diff⟩ => some diff
  | _ => none

/-- The step reads no diff but a known one. -/
def ReadsKnown (known : Set String) (m : Moment ι DiffWorld DiffSig) : Prop :=
  ∀ diff, diffRead m.event = some diff → marker diff ∈ known

/-- Each step of a trigger keeps the invariant. -/
theorem inv_step {ports : Ports} (hinj : Set.InjOn hashDiff known)
    (h : Inv hashDiff known q tr m.before)
    (hmoves : Moves hashDiff self (q m.thread) m.event q')
    (hs : step ports m.before m.event m.after) (hknown : ReadsKnown known m) :
    Inv hashDiff known (Function.update q m.thread q') (tr ++ [m]) m.after := by
  generalize hq : q m.thread = p at hmoves
  -- a pass that holds the slot does so before the step
  have hheld : p.holds = true → { m.before.state with inFlight := true } = m.before.state := by
    intro hp
    rw [← h.slot.mpr ⟨m.thread, by rw [hq]; exact hp⟩]
  have hread : ∀ diff, p.diff = some diff → marker diff ∈ known := by
    intro diff hdiff
    exact h.reads m.thread diff (by rw [hq]; exact hdiff)
  have hholds : ∀ state : PipelineState, p.holds = true →
      state.inFlight = m.before.state.inFlight → state.inFlight = true := by
    intro state hp hstate
    rw [hstate, ← hheld hp]
  generalize he : m.event = e at hmoves hs
  cases hmoves with
  | edit =>
      have hw : m.after = _ := hs
      exact h.wait (by rw [hq]; rfl) rfl (by rw [grantee, he]) (by rw [hw])
  | drop hwait =>
      obtain ⟨htaken, hw⟩ := hs
      have hwaits : (q m.thread).granted = false := by
        rw [hq]
        exact Phase.granted_of_waiting hwait
      refine h.wait hwaits rfl (by rw [grantee, he]) ?_
      rw [hw, htaken]
  | claim hwait =>
      obtain ⟨hfree, hw⟩ := hs
      have hwaits : (q m.thread).granted = false := by
        rw [hq]
        exact Phase.granted_of_waiting hwait
      exact h.claim hwaits (by rw [grantee, he]) hfree.symm (by rw [hw])
  | gitFailed =>
      obtain ⟨-, hw⟩ := hs
      exact h.keep hq rfl rfl (by rw [grantee, he]) (by rw [hw]; exact (hheld rfl).symm)
        (fun _ hdiff => nomatch hdiff) rfl fun _ _ => trivial
  | @read workspace diff =>
      obtain ⟨-, hw⟩ := hs
      refine h.keep hq rfl rfl (by rw [grantee, he]) (by rw [hw]; exact (hheld rfl).symm)
        (fun diff' hdiff => ?_) rfl fun _ _ => trivial
      cases hdiff
      exact hknown diff (by rw [he]; rfl)
  | empty hblank =>
      have hw : m.after = _ := hs
      refine h.move (by rw [hq]; rfl) rfl (by rw [grantee, he])
        (by rw [hw]; exact hholds _ rfl rfl) hread fun last _ _ _ => ⟨hblank, ?_⟩
      rw [hw]
      refine ⟨?_, rfl⟩
      show some (hashDiff "") = some (hashDiff (marker _))
      rw [marker_blank hblank]
  | unchanged hblank =>
      obtain ⟨hlast, hw⟩ := hs
      refine h.move (by rw [hq]; rfl) rfl (by rw [grantee, he])
        (by rw [hw]; exact hholds _ rfl rfl) hread fun last hl _ hshows => ?_
      rw [hq] at hshows
      have hunchanged := (shows_lastHash hshows hblank hinj (hread _ rfl) hl).mp hlast.symm
      rw [hw]
      exact ⟨⟨hblank, hunchanged⟩, hshows⟩
  | changed hblank hne =>
      obtain ⟨hlast, hw⟩ := hs
      refine h.move (by rw [hq]; rfl) rfl (by rw [grantee, he])
        (by rw [hw]; exact hholds _ rfl rfl) hread fun last hl _ hshows => ?_
      rw [hq] at hshows
      have hchanged : last.map (·.1) ≠ some _ := fun hsame =>
        hne (hlast.trans ((shows_lastHash hshows hblank hinj (hread _ rfl) hl).mpr hsame))
      rw [hw]
      exact ⟨⟨hblank, hchanged⟩, hshows⟩
  | explained =>
      obtain ⟨-, hw⟩ := hs
      exact h.keep hq rfl rfl (by rw [grantee, he]) (by rw [hw]; exact (hheld rfl).symm) hread rfl
        fun _ hlawful => hlawful
  | explainFailed =>
      obtain ⟨-, hw⟩ := hs
      exact h.keep hq rfl rfl (by rw [grantee, he]) (by rw [hw]; exact (hheld rfl).symm) hread rfl
        fun _ hlawful => hlawful
  | cached =>
      have hw : m.after = _ := hs
      refine h.move (by rw [hq]; rfl) rfl (by rw [grantee, he])
        (by rw [hw]; exact hholds _ rfl rfl) hread fun last _ hlawful _ => ?_
      rw [hq] at hlawful
      rw [hw]
      refine ⟨hlawful, ?_, rfl⟩
      show some (hashDiff _) = some (hashDiff (marker _))
      rw [marker_of_not_blank hlawful.1]
  | emitted =>
      have hw : m.after = _ := hs
      exact h.keep hq rfl rfl (by rw [grantee, he]) (by rw [hw]; exact (hheld rfl).symm) hread rfl
        fun _ hlawful => hlawful
  | release =>
      have hw : m.after = _ := hs
      exact h.keep hq rfl rfl (by rw [grantee, he]) (by rw [hw]; rfl) hread rfl
        fun _ hlawful => hlawful

/-- The texts of the diffs that git answered. -/
def readTexts (tr : List (Moment ι DiffWorld DiffSig)) : List String :=
  tr.filterMap fun m => (diffRead m.event).map marker

omit [DecidableEq ι] in
theorem readsKnown_of_mem (hm : m ∈ tr) : ReadsKnown {text | text ∈ readTexts tr} m :=
  fun diff hdiff => List.mem_filterMap.mpr ⟨m, hm, by rw [hdiff]; rfl⟩

/-- Every run keeps the invariant, if no two of the diffs it reads collide. -/
theorem inv_run {ports : Ports} {edits : ι → Option String} {tree : String}
    {P : Pool ι DiffWorld DiffSig RunOutcome}
    (hr : Pool.Run (step ports) (self.pool hashDiff edits tree) tr P)
    (hinj : Set.InjOn hashDiff {text | text ∈ readTexts tr}) :
    ∃ q, (∀ i, Pool.phase (fun _ => protocol hashDiff self) (fun _ => .idle) i tr = some (q i)) ∧
      (∀ i, Prog.Follows (protocol hashDiff self) (q i) (P.threads i) (Returned hashDiff)) ∧
      Inv hashDiff {text | text ∈ readTexts tr} q tr P.shared := by
  refine Pool.Run.coupled (C := fun _ m => ReadsKnown {text | text ∈ readTexts tr} m)
    (fun i => follows_trigger (edits i)) (inv_start tree) ?_ hr ?_
  · intro q tr' m q' _ hI hknown hq' hs
    exact inv_step hinj hI (moves_of_protocol hq') hs hknown
  · intro pre m post he
    exact readsKnown_of_mem (by simp [he])

end

end Spectty.Diff
