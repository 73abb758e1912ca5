/-
  Spectty.Diff.Edits

  Triggers of a pipeline, and edits of its working tree that each come with a
  trigger.

  A trigger that finds a pass in flight is dropped, and that pass may have read the
  tree before the edit (`edit_missed`).  `latest_of_caught` says what suffices for
  the pipeline to end at the final tree: every dropped trigger finds a pass
  that has not read the diff yet, or has read the one of the tree as it is then.
-/

import Spectty.Diff.Slot

namespace Spectty.Diff

open Spectty.Lib

-- ============================================================================
-- The property
-- ============================================================================

/-- Git answers the tree's diff, and the explainer an explanation of the diff. -/
def Ports.reliable (explains : String → DiffExplanation → Prop) : Ports where
  git tree r := r = .ok tree
  explainer diff r := ∃ explanation, r = .ok explanation ∧ explains diff explanation

/-- Hash and explanation are those of the working tree. -/
structure Latest (hashDiff : String → Nat) (explains : String → DiffExplanation → Prop)
    (w : DiffWorld) : Prop where
  hash : w.state.lastHash = some (hashDiff (marker w.tree))
  explanation : ∃ explanation, w.state.lastExplanation = some explanation ∧
    if isBlank w.tree then explanation = .empty else explains w.tree explanation

section

variable {ι : Type}

/-- The diff that the pass in flight has read. -/
def inFlightRead (tr : List (Moment ι DiffWorld DiffSig)) : Option String :=
  tr.foldl (fun read m =>
    match m.event with
    | ⟨.claimSlot, false⟩ => none
    | e => (diffRead e).or read) none

/-- A dropped trigger finds a pass that has not read the diff, or has read the
    one of the tree as it is. -/
def Caught (tr : List (Moment ι DiffWorld DiffSig)) (m : Moment ι DiffWorld DiffSig) : Prop :=
  m.event = ⟨.claimSlot, true⟩ →
    ∀ diff, inFlightRead tr = some diff → marker diff = marker m.before.tree

/-- Every trigger that has fired has returned. -/
def Quiet [DecidableEq ι] (tr : List (Moment ι DiffWorld DiffSig))
    (P : Pool ι DiffWorld DiffSig RunOutcome) : Prop :=
  ∀ i, Pool.eventsOf i tr = [] ∨ ∃ outcome, P.threads i = .ret outcome

end

-- ============================================================================
-- The invariant
-- ============================================================================

/-- Nothing has failed, and an explanation is one of its diff. -/
def Phase.Reliable (explains : String → DiffExplanation → Prop) : Phase → Prop
  | .explained diff explanation | .cached diff explanation => explains diff explanation
  | .finished result | .released result =>
      match result with
      | .gitFailed | .explainFailed _ _ => False
      | .emitted diff explanation => explains diff explanation
      | _ => True
  | _ => True

/-- The tree is about to be read, or was read as it is. -/
inductive UpToDate {ι : Type} (q : ι → Phase) (tr : List (Moment ι DiffWorld DiffSig))
    (w : DiffWorld) : Prop where
  | edited (i : ι) : q i = .edited → UpToDate q tr w
  | claimed (i : ι) : q i = .claimed → UpToDate q tr w
  | read (i : ι) (diff : String) : (q i).holds = true → (q i).diff = some diff →
      marker diff = marker w.tree → UpToDate q tr w
  | settled (p : String × DiffExplanation) : (∀ i, (q i).holds = false) →
      Diff.settled q (granted tr) = some p → marker p.1 = marker w.tree → UpToDate q tr w

/-- The pass in flight is known, nothing fails, and once a trigger has fired the
    tree is tracked. -/
structure Tracks {ι : Type} (explains : String → DiffExplanation → Prop) (q : ι → Phase)
    (tr : List (Moment ι DiffWorld DiffSig)) (w : DiffWorld) : Prop where
  read : ∀ i, (q i).holds = true → inFlightRead tr = (q i).diff
  reliable : ∀ i, (q i).Reliable explains
  upToDate : (∃ i, q i ≠ .idle) → UpToDate q tr w

section

variable {ι : Type} [DecidableEq ι] {hashDiff : String → Nat} {self : DiffPipeline}
  {explains : String → DiffExplanation → Prop} {known : Set String} {q : ι → Phase} {q' : Phase}
  {tr : List (Moment ι DiffWorld DiffSig)} {m : Moment ι DiffWorld DiffSig} {w w' : DiffWorld}

omit [DecidableEq ι] in
theorem inFlightRead_concat :
    inFlightRead (tr ++ [m]) =
      match m.event with
      | ⟨.claimSlot, false⟩ => none
      | e => (diffRead e).or (inFlightRead tr) := by
  rw [inFlightRead, List.foldl_append]
  rfl

omit [DecidableEq ι] in
/-- A pass that came to a result and still holds the slot has cached its diff, or
    found it cached. -/
theorem Inv.settled_of_finished (h : Inv hashDiff known q tr w) {i : ι} {result : Result}
    {diff : String} (hi : q i = .finished result) (hreliable : (q i).Reliable explains)
    (hdiff : (q i).diff = some diff) :
    ∃ p, settled q (granted tr) = some p ∧ p.1 = diff := by
  obtain ⟨front, hfront⟩ := List.getLast?_eq_some_iff.mp (h.last i (by rw [hi]; rfl))
  have hlawful := h.lawful front i [] hfront
  rw [hfront, settled_concat]
  rw [hi] at hreliable hdiff hlawful ⊢
  cases result with
  | gitFailed | explainFailed => exact hreliable.elim
  | empty d | emitted d e =>
      cases hdiff
      exact ⟨_, rfl, rfl⟩
  | unchanged d =>
      cases hdiff
      obtain ⟨p, hp, hfst⟩ := Option.map_eq_some_iff.mp hlawful.2
      exact ⟨p, hp, hfst⟩

-- ============================================================================
-- Each step tracks the tree
-- ============================================================================

/-- The read of the pass in flight is known after a step, if it is for the trigger
    that moved and was for the others. -/
theorem Tracks.read_update (hT : Tracks explains q tr w)
    (hself : q'.holds = true → inFlightRead (tr ++ [m]) = q'.diff)
    (hothers : ∀ j, j ≠ m.thread → (q j).holds = true →
      inFlightRead (tr ++ [m]) = inFlightRead tr) (j : ι)
    (hj : (Function.update q m.thread q' j).holds = true) :
    inFlightRead (tr ++ [m]) = (Function.update q m.thread q' j).diff := by
  by_cases hjm : j = m.thread
  · subst hjm
    rw [Function.update_self] at hj ⊢
    exact hself hj
  · rw [Function.update_of_ne hjm] at hj ⊢
    rw [hothers j hjm hj]
    exact hT.read j hj

theorem Tracks.reliable_update (hT : Tracks explains q tr w) (hq' : q'.Reliable explains)
    (j : ι) : (Function.update q m.thread q' j).Reliable explains := by
  revert j
  exact (Function.forall_update_iff q fun _ p => p.Reliable explains).mpr
    ⟨hq', fun j _ => hT.reliable j⟩

/-- A phase that the moving trigger is not at is another trigger's, which stays there. -/
theorem update_eq_of_ne {i j : ι} {p : Phase} (hj : q j = p) (hi : q i ≠ p) :
    Function.update q i q' j = p := by
  have hne : j ≠ i := by
    rintro rfl
    exact hi hj
  rwa [Function.update_of_ne hne]

/-- The holder goes on with the diff it has read. -/
theorem Tracks.keep (hT : Tracks explains q tr w) (hholds : (q m.thread).holds = true)
    (hclaimed : q m.thread ≠ .claimed) (hholds' : q'.holds = true)
    (hdiff : q'.diff = (q m.thread).diff) (hq' : q'.Reliable explains)
    (hread : inFlightRead (tr ++ [m]) = inFlightRead tr) (htree : w'.tree = w.tree) :
    Tracks explains (Function.update q m.thread q') (tr ++ [m]) w' := by
  have hidle : q m.thread ≠ .idle := by
    intro h
    rw [h] at hholds
    cases hholds
  refine ⟨hT.read_update (fun _ => ?_) (fun _ _ _ => hread), hT.reliable_update hq',
    fun _ => ?_⟩
  · rw [hread, hT.read m.thread hholds, hdiff]
  · cases hT.upToDate ⟨m.thread, hidle⟩ with
    | edited j hj =>
        refine .edited j (update_eq_of_ne hj fun hq => ?_)
        rw [hq] at hholds
        cases hholds
    | claimed j hj => exact .claimed j (update_eq_of_ne hj hclaimed)
    | read j diff hj hread hmarker =>
        rw [← htree] at hmarker
        by_cases hjm : j = m.thread
        · subst hjm
          exact .read m.thread diff (by rwa [Function.update_self])
            (by rwa [Function.update_self, hdiff]) hmarker
        · exact .read j diff (by rwa [Function.update_of_ne hjm])
            (by rwa [Function.update_of_ne hjm]) hmarker
    | settled p hnone =>
        rw [hnone m.thread] at hholds
        cases hholds

/-- A dropped trigger leaves the tree to the pass in flight. -/
theorem tracks_drop (hI : Inv hashDiff known q tr m.before) (hT : Tracks explains q tr m.before)
    (hwait : (q m.thread).waiting = true) (he : m.event = ⟨.claimSlot, true⟩)
    (htaken : m.before.state.inFlight = true) (htree : m.after.tree = m.before.tree)
    (hcaught : Caught tr m) :
    Tracks explains (Function.update q m.thread .dropped) (tr ++ [m]) m.after := by
  have hread : inFlightRead (tr ++ [m]) = inFlightRead tr := by
    rw [inFlightRead_concat, he]
    rfl
  refine ⟨hT.read_update nofun (fun _ _ _ => hread), hT.reliable_update trivial, fun _ => ?_⟩
  obtain ⟨j, hj⟩ := hI.slot.mp htaken
  have hne : j ≠ m.thread := by
    rintro rfl
    rw [Phase.holds_of_not_granted (Phase.granted_of_waiting hwait)] at hj
    cases hj
  have hreliable := hT.reliable j
  have hinFlight := hT.read j hj
  cases hdiff : (q j).diff with
  | none =>
      -- the pass in flight has not read the diff yet
      have hclaimed : q j = .claimed := by
        cases hq : q j with
        | claimed => rfl
        | finished result =>
            rw [hq] at hdiff hreliable
            cases result <;> first | exact hreliable.elim | cases hdiff
        | idle | edited | dropped | released result => rw [hq] at hj; cases hj
        | _ => rw [hq] at hdiff; cases hdiff
      exact .claimed j (by rwa [Function.update_of_ne hne])
  | some diff =>
      rw [hdiff] at hinFlight
      have hmarker := hcaught he diff hinFlight
      rw [← htree] at hmarker
      exact .read j diff (by rwa [Function.update_of_ne hne])
        (by rwa [Function.update_of_ne hne]) hmarker

/-- A pass that gives the slot back leaves the tree settled, or to another edit's
    trigger. -/
theorem tracks_release {result : Result} (hI : Inv hashDiff known q tr m.before)
    (hT : Tracks explains q tr m.before) (hq : q m.thread = .finished result)
    (he : m.event = ⟨.releaseSlot, ()⟩) (htree : m.after.tree = m.before.tree) :
    Tracks explains (Function.update q m.thread (.released result)) (tr ++ [m]) m.after := by
  have hholds : (q m.thread).holds = true := by rw [hq]; rfl
  have hreliable := hT.reliable m.thread
  have hread : inFlightRead (tr ++ [m]) = inFlightRead tr := by
    rw [inFlightRead_concat, he]
    rfl
  have hreleased : Phase.Reliable explains (.released result) := by
    rw [hq] at hreliable
    exact hreliable
  refine ⟨hT.read_update nofun (fun _ _ _ => hread), hT.reliable_update hreleased, fun _ => ?_⟩
  cases hT.upToDate ⟨m.thread, by rw [hq]; exact nofun⟩ with
  | edited j hj => exact .edited j (update_eq_of_ne hj (by rw [hq]; exact nofun))
  | claimed j hj => exact .claimed j (update_eq_of_ne hj (by rw [hq]; exact nofun))
  | read j diff hj hdiff hmarker =>
      obtain rfl := hI.unique hj hholds
      obtain ⟨p, hp, rfl⟩ := hI.settled_of_finished hq hreliable hdiff
      refine .settled p (fun j => ?_) ?_ (by rwa [htree])
      · by_cases hjm : j = m.thread
        · subst hjm
          rw [Function.update_self]
          rfl
        · rw [Function.update_of_ne hjm]
          by_contra hne
          exact hjm (hI.unique (by simpa using hne) hholds)
      · have hgranted : granted (tr ++ [m]) = granted tr :=
          granted_concat_of_none (by rw [grantee, he])
        have hsettle : ∀ j, (Function.update q m.thread (.released result) j).settlement =
            (q j).settlement := apply_update_of_eq (by rw [hq]; rfl)
        rw [hgranted, ← hp, settled, settled]
        simp only [hsettle]
  | settled p hnone =>
      rw [hnone m.thread] at hholds
      cases hholds

/-- Each step keeps track of the tree, if its trigger is not dropped too late. -/
theorem tracks_step (hI : Inv hashDiff known q tr m.before) (hT : Tracks explains q tr m.before)
    (hmoves : Moves hashDiff self (q m.thread) m.event q')
    (hs : step (.reliable explains) m.before m.event m.after) (hcaught : Caught tr m) :
    Tracks explains (Function.update q m.thread q') (tr ++ [m]) m.after := by
  have hread : inFlightRead (tr ++ [m]) = _ := inFlightRead_concat
  generalize hq : q m.thread = p at hmoves
  have hreliable := hT.reliable m.thread
  rw [hq] at hreliable
  generalize he : m.event = e at hmoves hs hread
  cases hmoves with
  | edit =>
      refine ⟨hT.read_update nofun (fun _ _ _ => hread), hT.reliable_update trivial, fun _ => ?_⟩
      exact .edited m.thread (by rw [Function.update_self])
  | drop hwait =>
      obtain ⟨htaken, hw⟩ := hs
      exact tracks_drop hI hT (by rwa [hq]) he htaken.symm (by rw [hw]) hcaught
  | claim hwait =>
      obtain ⟨hfree, -⟩ := hs
      have hnone : ∀ j, (q j).holds = true → inFlightRead (tr ++ [m]) = inFlightRead tr := by
        intro j hj
        rw [hI.slot.mpr ⟨j, hj⟩] at hfree
        cases hfree
      refine ⟨hT.read_update (fun _ => hread) (fun j _ => hnone j), hT.reliable_update trivial,
        fun _ => ?_⟩
      exact .claimed m.thread (by rw [Function.update_self])
  | gitFailed => cases hs.1
  | read =>
      obtain ⟨hdiff, hw⟩ := hs
      obtain rfl := Except.ok.inj hdiff
      have hholds : (q m.thread).holds = true := by rw [hq]; rfl
      have hothers : ∀ j, j ≠ m.thread → (q j).holds = true →
          inFlightRead (tr ++ [m]) = inFlightRead tr :=
        fun j hj hheld => absurd (hI.unique hheld hholds) hj
      refine ⟨hT.read_update (fun _ => hread) hothers, hT.reliable_update trivial, fun _ => ?_⟩
      exact .read m.thread m.before.tree (by rw [Function.update_self]; rfl)
        (by rw [Function.update_self]; rfl) (by rw [hw])
  | empty hblank =>
      have hw : m.after = _ := hs
      exact hT.keep (by rw [hq]; rfl) (by rw [hq]; exact nofun) rfl (by rw [hq]; rfl) trivial hread
        (by rw [hw])
  | unchanged hblank =>
      exact hT.keep (by rw [hq]; rfl) (by rw [hq]; exact nofun) rfl (by rw [hq]; rfl) trivial hread
        (by rw [hs.2])
  | changed hblank hne =>
      exact hT.keep (by rw [hq]; rfl) (by rw [hq]; exact nofun) rfl (by rw [hq]; rfl) trivial hread
        (by rw [hs.2])
  | explained =>
      obtain ⟨⟨explanation, hok, hexplains⟩, hw⟩ := hs
      obtain rfl := Except.ok.inj hok
      exact hT.keep (by rw [hq]; rfl) (by rw [hq]; exact nofun) rfl (by rw [hq]; rfl) hexplains
        hread (by rw [hw])
  | explainFailed =>
      obtain ⟨⟨explanation, hok, -⟩, -⟩ := hs
      cases hok
  | cached =>
      have hw : m.after = _ := hs
      exact hT.keep (by rw [hq]; rfl) (by rw [hq]; exact nofun) rfl (by rw [hq]; rfl) hreliable
        hread (by rw [hw])
  | emitted =>
      have hw : m.after = _ := hs
      exact hT.keep (by rw [hq]; rfl) (by rw [hq]; exact nofun) rfl (by rw [hq]; rfl) hreliable
        hread (by rw [hw])
  | release =>
      have hw : m.after = _ := hs
      exact tracks_release hI hT hq he (by rw [hw])

-- ============================================================================
-- Runs
-- ============================================================================

omit [DecidableEq ι] in
/-- What was cached is empty for a blank diff, and else an explanation of the diff. -/
theorem explains_of_settlement {p : Phase} {last : Option String} {diff : String}
    {explanation : DiffExplanation} (hlawful : p.Lawful last) (hreliable : p.Reliable explains)
    (h : p.settlement = some (diff, explanation)) :
    isBlank diff = true ∧ explanation = .empty ∨
      isBlank diff = false ∧ explains diff explanation := by
  cases p with
  | cached d e =>
      cases h
      exact Or.inr ⟨hlawful.1, hreliable⟩
  | finished result | released result =>
      cases result with
      | empty d =>
          cases h
          exact Or.inl ⟨hlawful, rfl⟩
      | emitted d e =>
          cases h
          exact Or.inr ⟨hlawful.1, hreliable⟩
      | _ => cases h
  | _ => cases h

omit [DecidableEq ι] in
/-- What a settled tree means for hash and explanation. -/
theorem latest_of_settled (hI : Inv hashDiff known q tr w) (hT : Tracks explains q tr w)
    {p : String × DiffExplanation} (hp : settled q (granted tr) = some p)
    (hmarker : marker p.1 = marker w.tree) : Latest hashDiff explains w := by
  obtain ⟨diff, explanation⟩ := p
  dsimp only at hmarker
  obtain ⟨hhash, hexplanation⟩ := hI.shows
  rw [hp] at hhash hexplanation
  refine ⟨by rw [hhash, Option.map_some, hmarker], explanation, hexplanation, ?_⟩
  obtain ⟨i, hi, hsettle⟩ := exists_of_settled hp
  obtain ⟨before, after, hgranted⟩ := List.append_of_mem hi
  rcases explains_of_settlement (hI.lawful before i after hgranted) (hT.reliable i) hsettle with
    ⟨hblank, rfl⟩ | ⟨hblank, hexplains⟩
  · have htree : isBlank w.tree = true := by
      by_contra hne
      have hne : isBlank w.tree = false := by simpa using hne
      rw [marker_of_not_blank hne] at hmarker
      rw [eq_of_marker_eq hne hmarker, hne] at hblank
      cases hblank
    rw [if_pos htree]
  · rw [marker_of_not_blank hblank] at hmarker
    obtain rfl := eq_of_marker_eq hblank hmarker.symm
    rw [if_neg (by simp [hblank])]
    exact hexplains

/-- Every run tracks the tree, if no trigger is dropped too late. -/
theorem tracks_run {edits : ι → Option String} {tree : String}
    {P : Pool ι DiffWorld DiffSig RunOutcome}
    (hr : Pool.Run (step (.reliable explains)) (self.pool hashDiff edits tree) tr P)
    (hcaught : Pool.Steps Caught tr) (hinj : Set.InjOn hashDiff {text | text ∈ readTexts tr}) :
    ∃ q, (∀ i, Pool.phase (fun _ => protocol hashDiff self) (fun _ => .idle) i tr = some (q i)) ∧
      (∀ i, Prog.Follows (protocol hashDiff self) (q i) (P.threads i) (Returned hashDiff)) ∧
      Inv hashDiff {text | text ∈ readTexts tr} q tr P.shared ∧
      Tracks explains q tr P.shared := by
  have hstart : Tracks explains (fun _ : ι => .idle) [] (.start tree) :=
    ⟨fun _ h => (nomatch h), fun _ => trivial, fun ⟨_, h⟩ => absurd rfl h⟩
  refine Pool.Run.coupled
    (C := fun pre m => ReadsKnown {text | text ∈ readTexts tr} m ∧ Caught pre m)
    (I := fun q tr' w =>
      Inv hashDiff {text | text ∈ readTexts tr} q tr' w ∧ Tracks explains q tr' w)
    (fun i => follows_trigger (edits i)) ⟨inv_start tree, hstart⟩ ?_ hr ?_
  · intro q tr' m q' _ hinv hC hq' hs
    exact ⟨inv_step hinj hinv.1 (moves_of_protocol hq') hs hC.1,
      tracks_step hinv.1 hinv.2 (moves_of_protocol hq') hs hC.2⟩
  · intro pre m post he
    exact ⟨readsKnown_of_mem (by simp [he]), hcaught pre m post he⟩

/-- Once every trigger that has fired has returned, and one has, hash and
    explanation are those of the working tree, if no trigger was dropped too
    late and no two of the diffs read collide. -/
theorem latest_of_caught {edits : ι → Option String} {tree : String}
    {P : Pool ι DiffWorld DiffSig RunOutcome} {i : ι} {outcome : RunOutcome}
    (hr : Pool.Run (step (.reliable explains)) (self.pool hashDiff edits tree) tr P)
    (hcaught : Pool.Steps Caught tr) (hinj : Set.InjOn hashDiff {text | text ∈ readTexts tr})
    (hquiet : Quiet tr P) (hi : P.threads i = .ret outcome) :
    Latest hashDiff explains P.shared := by
  obtain ⟨q, hphase, hfollows, hI, hT⟩ := tracks_run hr hcaught hinj
  have hreturned : ∀ j outcome, P.threads j = .ret outcome → Returned hashDiff outcome (q j) :=
    fun j _ hret => returned_of_follows (hfollows j) hret
  -- no trigger is on its way
  have hrest : ∀ j, q j ≠ .edited ∧ (q j).holds = false := by
    intro j
    rcases hquiet j with hnil | ⟨outcome, hret⟩
    · have hidle := hphase j
      rw [Pool.phase, hnil] at hidle
      rw [← Option.some.inj hidle]
      exact ⟨nofun, rfl⟩
    · rcases hreturned j outcome hret with ⟨hq, -⟩ | ⟨result, hq, -⟩ <;> rw [hq] <;>
        exact ⟨nofun, rfl⟩
  have hfired : q i ≠ .idle := by
    rcases hreturned i outcome hi with ⟨hq, -⟩ | ⟨result, hq, -⟩ <;> rw [hq] <;> exact nofun
  cases hT.upToDate ⟨i, hfired⟩ with
  | edited j hj => exact absurd hj (hrest j).1
  | claimed j hj =>
      have hholds := (hrest j).2
      rw [hj] at hholds
      cases hholds
  | read j diff hj =>
      rw [(hrest j).2] at hj
      cases hj
  | settled p _ hp hmarker => exact latest_of_settled hI hT hp hmarker

end

-- ============================================================================
-- Two runs
-- ============================================================================

/-- A pipeline. -/
def aPipeline : DiffPipeline where
  sessionId := "0"
  workspace := "/w"

/-- A trigger, and an edit with its trigger. -/
def oneEdit : Bool → Option String
  | false => none
  | true => some "+xy"

/-- Both, over a changed file; the explainer has one explanation for all. -/
abbrev editing : Pool Bool DiffWorld DiffSig RunOutcome :=
  aPipeline.pool String.length oneEdit "+x"

/-- Ports that never fail. -/
abbrev fine : Ports := .reliable fun _ explanation => explanation = .empty

theorem step_git (w : DiffWorld) (workspace : String) :
    step fine w ⟨.diffHead workspace, .ok w.tree⟩ w :=
  And.intro (Eq.refl (Except.ok w.tree)) rfl

theorem step_explain (w : DiffWorld) (diff workspace : String) :
    step fine w ⟨.explain diff workspace, .ok .empty⟩ w :=
  And.intro (Exists.intro .empty (And.intro rfl rfl)) rfl

theorem step_claim (tree : String) :
    step fine (.start tree) ⟨.claimSlot, false⟩ ⟨⟨none, none, true⟩, tree, []⟩ :=
  And.intro rfl rfl

theorem step_drop (tree : String) :
    step fine ⟨⟨none, none, true⟩, tree, []⟩ ⟨.claimSlot, true⟩ ⟨⟨none, none, true⟩, tree, []⟩ :=
  And.intro rfl rfl

/-- The edit comes after the read of the pass in flight, and its trigger is
    dropped: the pipeline ends at the tree before the edit. -/
theorem edit_missed :
    ∃ tr P, Pool.Run (step fine) editing tr P ∧ (∀ i, ∃ outcome, P.threads i = .ret outcome) ∧
      P.shared.tree = "+xy" ∧ P.shared.state.lastHash = some "+x".length ∧
      ¬ Latest String.length (fun _ explanation => explanation = .empty) P.shared := by
  have h0 : Pool.Run (step fine) editing [] ⟨.start "+x", editing.threads⟩ := .nil
  have h1 := h0.next false rfl (step_claim "+x") rfl
  have h2 := h1.next false rfl (step_git _ _) rfl
  have h3 := h2.next (r := ()) true rfl rfl rfl
  have h4 := h3.next true rfl (step_drop "+xy") rfl
  have h5 := h4.next (r := none) false rfl ⟨rfl, rfl⟩ rfl
  have h6 := h5.next false rfl (step_explain _ _ _) rfl
  have h7 := h6.next (r := ()) false rfl rfl rfl
  have h8 := h7.next (r := ()) false rfl rfl rfl
  have h9 := h8.next (r := ()) false rfl rfl rfl
  refine ⟨_, _, h9, ?_, rfl, rfl, fun h => absurd h.hash (by decide)⟩
  rintro (_ | _) <;> exact ⟨_, rfl⟩

/-- The edit comes before the read, and its trigger is dropped: the pass in flight
    catches it. -/
theorem edit_caught :
    ∃ tr P, Pool.Run (step fine) editing tr P ∧ P.shared.tree = "+xy" ∧
      Latest String.length (fun _ explanation => explanation = .empty) P.shared := by
  have h0 : Pool.Run (step fine) editing [] ⟨.start "+x", editing.threads⟩ := .nil
  have h1 := h0.next false rfl (step_claim "+x") rfl
  have h2 := h1.next (r := ()) true rfl rfl rfl
  have h3 := h2.next true rfl (step_drop "+xy") rfl
  have h4 := h3.next false rfl (step_git _ _) rfl
  have h5 := h4.next (r := none) false rfl ⟨rfl, rfl⟩ rfl
  have h6 := h5.next false rfl (step_explain _ _ _) rfl
  have h7 := h6.next (r := ()) false rfl rfl rfl
  have h8 := h7.next (r := ()) false rfl rfl rfl
  have h9 := h8.next (r := ()) false rfl rfl rfl
  refine ⟨_, _, h9, rfl, latest_of_caught (i := false) h9 ?caught ?inj ?quiet rfl⟩
  case caught =>
    simp only [Pool.steps_concat]
    simp [Caught, inFlightRead, diffRead, Pool.steps_nil]
  case inj =>
    intro a ha b hb _
    rw [List.mem_singleton.mp ha, List.mem_singleton.mp hb]
  case quiet => rintro (_ | _) <;> exact Or.inr ⟨_, rfl⟩

end Spectty.Diff
