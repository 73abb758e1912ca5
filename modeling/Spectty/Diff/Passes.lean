/-
  Spectty.Diff.Passes

  The passes that the triggers of a session have started, which run beside each other.

  A pass that finds the slot taken is turned away, so what the pipeline keeps is what the
  passes that were granted the slot have left: `Passing.served` says which explanation is
  served while none holds it.  A tree that has changed since git was last asked is `Due`:
  its trigger is on the way, or a pass is that has git asked, or one was turned away.
  `Tracked` is both, with one lemma for each thing that a session does to its passes.
-/

import Spectty.Diff.Edits
import Spectty.Diff.Explanation
import Spectty.Diff.Panel

namespace Spectty.Diff

open Spectty.Lib

-- ============================================================================
-- The passes
-- ============================================================================

/-- The event asks git. -/
def asksGit : Event DiffSig → Bool
  | ⟨.diffHead _, _⟩ => true
  | _ => false

/-- The event finds the slot taken. -/
def turnedAway : Event DiffSig → Bool
  | ⟨.claimSlot, true⟩ => true
  | _ => false

/-- Run an operation of a pass.  Git answers the diff of the tree, if it answers; the
    explainer what it builds of the diff. -/
def perform (git : Except GitError Unit) : Prog.Handler DiffSig DiffWorld := fun o w =>
  let explanation :=
    match o with
    | .explain diff _ => buildExplanation diff
    | _ => .empty
  handler { git := git.map fun _ => w.tree, explainer := .ok explanation } o w

/-- The pass has returned. -/
def isReturned : Prog DiffSig RunOutcome → Bool
  | .ret _ => true
  | .op _ _ => false

/-- The pipeline with the tree, and the passes that were started.  `asked` are the trees
    that git was asked for and whether it answered; `dropped` says whether a pass has found
    the slot taken since. -/
structure Passes where
  world : DiffWorld
  passes : List (Prog DiffSig RunOutcome)
  asked : List (String × Except GitError Unit)
  dropped : Bool

namespace Passes

/-- No pass has been started. -/
def start (tree : String) : Passes where
  world := .start tree
  passes := []
  asked := []
  dropped := false

/-- The tree is edited: `git diff HEAD` is `tree`. -/
def edit (self : Passes) (tree : String) : Passes :=
  { self with world := { self.world with tree } }

/-- A trigger starts a pass. -/
def spawn (hashDiff : String → Nat) (pipeline : DiffPipeline) (self : Passes) : Passes :=
  { self with passes := self.passes ++ [pipeline.runOnce hashDiff] }

/-- A pass runs its next operation.  `git` says whether git answers, if it is asked. -/
def go (self : Passes) (k : Nat) (git : Except GitError Unit) : Passes :=
  match self.passes[k]? with
  | some (.op o rest) =>
      let (reply, world) := perform git o self.world
      let event : Event DiffSig := ⟨o, reply⟩
      { world
        passes := self.passes.set k (rest reply)
        asked := self.asked ++ if asksGit event then [(self.world.tree, git)] else []
        dropped := !asksGit event && (self.dropped || turnedAway event) }
  | _ => self

/-- Every pass has returned. -/
def Rested (self : Passes) : Prop := ∀ p ∈ self.passes, isReturned p = true

/-- The diff that git answered last. -/
def lastRead (self : Passes) : Option String :=
  (self.asked.filterMap fun (tree, git) => git.toOption.map fun _ => tree).getLast?

/-- Since git was last asked, or the start, the tree is as it was then. -/
def Unchanged (tree : String) (self : Passes) : Prop :=
  match self.asked.getLast? with
  | none => self.world.tree = tree
  | some (found, _) => self.world.tree = found

/-- Git has not been asked and the tree is as it was at the start; or it was last asked for
    the tree as it is, and if it answered, the explanation served is that of this tree. -/
inductive ShowsTree (tree : String) (self : Passes) : Prop where
  | unread (hasked : self.asked = []) (htree : self.world.tree = tree)
  | read (git : Except GitError Unit)
      (hasked : self.asked.getLast? = some (self.world.tree, git))
      (hserved : git = .ok () → DiffPipeline.currentExplanation self.world =
        some (buildExplanation self.world.tree))

end Passes

-- ============================================================================
-- The slot
-- ============================================================================

/-- The pipeline keeps the hash and the explanation of this diff, or of none. -/
def Served (hashDiff : String → Nat) (state : PipelineState) (diff : Option String) : Prop :=
  Shows hashDiff state (diff.map fun diff => (diff, buildExplanation diff))

/-- What the pass that holds the slot has made of the diff that git answered last. -/
def Phase.Handles (hashDiff : String → Nat) (known : Set String) (state : PipelineState)
    (last : Option String) : Phase → Prop
  | .claimed => Served hashDiff state last
  | .read diff =>
      last = some diff ∧
        ∃ prior : Option String, (∀ d ∈ prior, marker d ∈ known) ∧ Served hashDiff state prior
  | .changed diff => last = some diff ∧ isBlank diff = false
  | .explained diff explanation =>
      last = some diff ∧ isBlank diff = false ∧ explanation = buildExplanation diff
  | .cached _ _ | .finished _ => Served hashDiff state last
  | _ => True

/-- One pass holds the slot if it is taken, and what the pipeline keeps is of the diff that
    git answered last, but for what that pass has still to do. -/
structure Slotted {ι : Type} (hashDiff : String → Nat) (known : Set String) (q : ι → Phase)
    (w : DiffWorld) (last : Option String) : Prop where
  fired : ∀ i, q i ≠ .idle
  slot : w.state.inFlight = true ↔ ∃ i, (q i).holds = true
  alone : ∀ i j, (q i).holds = true → (q j).holds = true → i = j
  treeKnown : marker w.tree ∈ known
  lastKnown : ∀ diff ∈ last, marker diff ∈ known
  holder : ∀ i, (q i).holds = true → (q i).Handles hashDiff known w.state last
  free : w.state.inFlight = false → Served hashDiff w.state last

/-- Git answers the tree's diff or fails as said, and the explainer what it builds of the
    diff. -/
def treePorts (git : Except GitError Unit) : Ports where
  git tree r := r = git.map fun _ => tree
  explainer diff r := r = .ok (buildExplanation diff)

theorem perform_step (git : Except GitError Unit) (o : DiffOp) (w : DiffWorld) :
    step (treePorts git) w ⟨o, (perform git o w).1⟩ (perform git o w).2 := by
  cases o with
  | claimSlot | diffHead | lastHash | explain => exact ⟨rfl, rfl⟩
  | cacheEmpty | cacheExplanation | emit | releaseSlot | edit => rfl

theorem buildExplanation_blank {diff : String} (h : isBlank diff = true) :
    buildExplanation diff = .empty := by
  rw [buildExplanation, if_pos h]

section

variable {ι : Type} [DecidableEq ι] {hashDiff : String → Nat} {pipeline : DiffPipeline}
  {known : Set String} {q : ι → Phase} {q' : Phase} {w w' : DiffWorld} {last last' : Option String}
  {i : ι}

/-- A pass that does not hold the slot changes nothing while it waits, or when it is turned
    away. -/
theorem Slotted.wait (h : Slotted hashDiff known q w last) (hi : (q i).holds = false)
    (hfired : q' ≠ .idle) (hq' : q'.holds = false) :
    Slotted hashDiff known (Function.update q i q') w last := by
  have hholds : ∀ j, (Function.update q i q' j).holds = (q j).holds :=
    apply_update_of_eq (hq'.trans hi.symm)
  refine ⟨(Function.forall_update_iff q fun _ p => p ≠ .idle).mpr ⟨hfired, fun j _ => h.fired j⟩,
    by simp only [hholds, h.slot], fun j k hj hk => ?_, h.treeKnown, h.lastKnown,
    fun j hj => ?_, h.free⟩
  · exact h.alone j k ((hholds j).symm.trans hj) ((hholds k).symm.trans hk)
  · have hne : j ≠ i := by
      rintro rfl
      rw [Function.update_self, hq'] at hj
      cases hj
    rw [Function.update_of_ne hne] at hj ⊢
    exact h.holder j hj

omit [DecidableEq ι] in
/-- The slot is free, or the pass that moves holds it: no other does. -/
theorem Slotted.others (h : Slotted hashDiff known q w last)
    (hi : w.state.inFlight = false ∨ (q i).holds = true) {j : ι} (hj : j ≠ i) :
    (q j).holds = false := by
  by_contra hne
  have hheld : (q j).holds = true := by simpa using hne
  rcases hi with hfree | hi
  · rw [h.slot.mpr ⟨j, hheld⟩] at hfree
    cases hfree
  · exact hj (h.alone j i hheld hi)

/-- The pass that claims the slot, goes on with it or releases it. -/
theorem Slotted.move (h : Slotted hashDiff known q w last)
    (hi : w.state.inFlight = false ∨ (q i).holds = true) (hfired : q' ≠ .idle)
    (hslot : w'.state.inFlight = q'.holds) (htree : w'.tree = w.tree)
    (hlast : ∀ diff ∈ last', marker diff ∈ known)
    (hholder : q'.holds = true → q'.Handles hashDiff known w'.state last')
    (hfree : q'.holds = false → Served hashDiff w'.state last') :
    Slotted hashDiff known (Function.update q i q') w' last' := by
  have hnone : ∀ j, j ≠ i → (Function.update q i q' j).holds = false := by
    intro j hj
    rw [Function.update_of_ne hj]
    exact h.others hi hj
  have heq : ∀ j, (Function.update q i q' j).holds = true → j = i := by
    intro j hj
    by_contra hne
    rw [hnone j hne] at hj
    cases hj
  refine ⟨(Function.forall_update_iff q fun _ p => p ≠ .idle).mpr ⟨hfired, fun j _ => h.fired j⟩,
    ⟨fun hheld => ⟨i, ?_⟩, fun ⟨j, hj⟩ => ?_⟩, fun j k hj hk => (heq j hj).trans (heq k hk).symm,
    by rw [htree]; exact h.treeKnown, hlast, fun j hj => ?_,
    fun hreleased => hfree (hslot ▸ hreleased)⟩
  · rw [Function.update_self, ← hslot]
    exact hheld
  · obtain rfl := heq j hj
    rw [Function.update_self] at hj
    rw [hslot, hj]
  · obtain rfl := heq j hj
    rw [Function.update_self] at hj ⊢
    exact hholder hj

/-- An operation of a pass. -/
theorem Slotted.step {git : Except GitError Unit} {e : Event DiffSig}
    (hinj : Set.InjOn hashDiff known) (h : Slotted hashDiff known q w last)
    (hmoves : Moves hashDiff pipeline (q i) e q') (hs : Diff.step (treePorts git) w e w') :
    Slotted hashDiff known (Function.update q i q') w' ((diffRead e).or last) := by
  have hheld : (q i).holds = true → w.state.inFlight = true := fun hi => h.slot.mpr ⟨i, hi⟩
  have hholder := h.holder i
  generalize hq : q i = p at hmoves hheld hholder
  cases hmoves with
  | edit => exact absurd hq (h.fired i)
  | drop hwait =>
      obtain ⟨htaken, hw⟩ := hs
      have hsame : w' = w := by
        rw [hw, htaken]
      rw [hsame]
      refine h.wait ?_ nofun rfl
      rw [hq]
      exact Phase.holds_of_not_granted (Phase.granted_of_waiting hwait)
  | claim hwait =>
      obtain ⟨hfree, hw⟩ := hs
      subst hw
      exact h.move (.inl hfree.symm) nofun rfl rfl h.lastKnown (fun _ => h.free hfree.symm) nofun
  | gitFailed =>
      obtain ⟨-, rfl⟩ := hs
      exact h.move (.inr (by rw [hq]; rfl)) nofun (hheld rfl) rfl h.lastKnown (fun _ => hholder rfl)
        nofun
  | @read workspace diff =>
      obtain ⟨hdiff, rfl⟩ := hs
      have htree : diff = w'.tree := by
        cases git with
        | error e => cases hdiff
        | ok => exact Except.ok.inj hdiff
      subst htree
      refine h.move (.inr (by rw [hq]; rfl)) nofun (hheld rfl) rfl ?_
        (fun _ => ⟨rfl, last, h.lastKnown, hholder rfl⟩) nofun
      rintro diff hdiff
      obtain rfl := Option.some.inj hdiff
      exact h.treeKnown
  | @empty diff hblank =>
      obtain ⟨rfl, -⟩ := hholder rfl
      have hw : w' = _ := hs
      subst hw
      refine h.move (.inr (by rw [hq]; rfl)) nofun (hheld rfl) rfl h.lastKnown (fun _ => ⟨?_, ?_⟩)
        nofun
      · show some (hashDiff "") = some (hashDiff (marker diff))
        rw [marker_blank hblank]
      · show some DiffExplanation.empty = some (buildExplanation diff)
        rw [buildExplanation_blank hblank]
  | @unchanged diff hblank =>
      obtain ⟨hlast, rfl⟩ := hs
      obtain ⟨rfl, prior, hprior, hserved⟩ := hholder rfl
      refine h.move (.inr (by rw [hq]; rfl)) nofun (hheld rfl) rfl h.lastKnown (fun _ => ?_) nofun
      have hdiff := h.lastKnown diff rfl
      have hsame := (shows_lastHash hserved hblank hinj hdiff (by simpa using hprior)).mp hlast.symm
      obtain rfl : prior = some diff := by simpa using hsame
      exact hserved
  | @changed diff lastHash hblank hne =>
      obtain ⟨-, rfl⟩ := hs
      obtain ⟨rfl, -⟩ := hholder rfl
      exact h.move (.inr (by rw [hq]; rfl)) nofun (hheld rfl) rfl h.lastKnown
        (fun _ => ⟨rfl, hblank⟩) nofun
  | explained =>
      obtain ⟨hok, rfl⟩ := hs
      obtain ⟨rfl, hblank⟩ := hholder rfl
      exact h.move (.inr (by rw [hq]; rfl)) nofun (hheld rfl) rfl h.lastKnown
        (fun _ => ⟨rfl, hblank, Except.ok.inj hok⟩) nofun
  | explainFailed => cases hs.1
  | @cached diff explanation =>
      obtain ⟨rfl, hblank, rfl⟩ := hholder rfl
      have hw : w' = _ := hs
      subst hw
      refine h.move (.inr (by rw [hq]; rfl)) nofun (hheld rfl) rfl h.lastKnown (fun _ => ⟨?_, rfl⟩)
        nofun
      show some (hashDiff diff) = some (hashDiff (marker diff))
      rw [marker_of_not_blank hblank]
  | emitted =>
      have hw : w' = _ := hs
      subst hw
      exact h.move (.inr (by rw [hq]; rfl)) nofun (hheld rfl) rfl h.lastKnown (fun _ => hholder rfl)
        nofun
  | release =>
      have hw : w' = _ := hs
      subst hw
      exact h.move (.inr (by rw [hq]; rfl)) nofun rfl rfl h.lastKnown nofun (fun _ => hholder rfl)

end

-- ============================================================================
-- What the passes have left
-- ============================================================================

/-- The texts that the tree may have are known with their markers. -/
theorem marker_mem {texts : Set String} (hblank : "" ∈ texts) {text : String}
    (h : text ∈ texts) : marker text ∈ texts := by
  unfold marker
  split_ifs
  · exact hblank
  · exact h

namespace Passes

variable {hashDiff : String → Nat} {pipeline : DiffPipeline} {known : Set String}
  {q : Nat → Phase} {self : Passes} {tree : String} {onWay onWay' : Prop} {k : Nat}
  {git : Except GitError Unit}

/-- An operation of a pass, or nothing. -/
theorem go_cases (self : Passes) (k : Nat) (git : Except GitError Unit) :
    self.go k git = self ∨
      ∃ o rest r w, self.passes[k]? = some (.op o rest) ∧
        step (treePorts git) self.world ⟨o, r⟩ w ∧
        self.go k git =
          { world := w
            passes := self.passes.set k (rest r)
            asked := self.asked ++ if asksGit ⟨o, r⟩ then [(self.world.tree, git)] else []
            dropped := !asksGit ⟨o, r⟩ && (self.dropped || turnedAway ⟨o, r⟩) } := by
  rcases hk : self.passes[k]? with _ | (outcome | ⟨o, rest⟩)
  · left
    rw [go, hk]
  · left
    rw [go, hk]
  · right
    refine ⟨o, rest, _, _, rfl, perform_step git o self.world, ?_⟩
    rw [go, hk]

/-- What git answered last, after an operation. -/
theorem lastRead_asked {e : Event DiffSig} {w : DiffWorld}
    (hs : step (treePorts git) self.world e w) {after : Passes}
    (hasked : after.asked =
      self.asked ++ if asksGit e then [(self.world.tree, git)] else []) :
    after.lastRead = (diffRead e).or self.lastRead := by
  unfold lastRead
  rw [hasked, List.filterMap_append, List.getLast?_append]
  obtain ⟨o, r⟩ := e
  cases o with
  | diffHead workspace =>
      obtain ⟨rfl, -⟩ := hs
      cases git <;> rfl
  | _ => rfl

/-- What git answered last, when it has answered. -/
theorem lastRead_of_ok {found : String} (h : self.asked.getLast? = some (found, .ok ())) :
    self.lastRead = some found := by
  obtain ⟨asked, hasked⟩ := List.getLast?_eq_some_iff.mp h
  rw [lastRead, hasked, List.filterMap_append, List.getLast?_append]
  rfl

/-- The passes follow the protocol, from where their trigger has come, and what the pipeline
    keeps is as they have left it. -/
structure Passing (hashDiff : String → Nat) (pipeline : DiffPipeline) (known : Set String)
    (q : Nat → Phase) (started : Passes) : Prop where
  slotted : Slotted hashDiff known q started.world started.lastRead
  follows : ∀ (k : Nat) (p : Prog DiffSig RunOutcome), started.passes[k]? = some p →
    Prog.Follows (protocol hashDiff pipeline) (q k) p (Returned hashDiff)
  later : ∀ k : Nat, started.passes.length ≤ k → q k = .edited

theorem passing_start (htree : marker tree ∈ known) :
    Passing hashDiff pipeline known (fun _ => .edited) (start tree) where
  slotted :=
    { fired := nofun
      slot := ⟨nofun, fun ⟨_, h⟩ => nomatch h⟩
      alone := fun _ _ h => nomatch h
      treeKnown := htree
      lastKnown := nofun
      holder := fun _ h => nomatch h
      free := fun _ => ⟨rfl, rfl⟩ }
  follows _ _ h := nomatch h
  later _ _ := rfl

theorem Passing.edit (h : Passing hashDiff pipeline known q self) {text : String}
    (htext : marker text ∈ known) : Passing hashDiff pipeline known q (self.edit text) := by
  obtain ⟨⟨hfired, hslot, halone, -, hlast, hholder, hfree⟩, hfollows, hlater⟩ := h
  exact ⟨⟨hfired, hslot, halone, htext, hlast, hholder, hfree⟩, hfollows, hlater⟩

/-- A pass that is started waits. -/
theorem Passing.spawn (h : Passing hashDiff pipeline known q self) :
    Passing hashDiff pipeline known q (self.spawn hashDiff pipeline) := by
  refine ⟨h.slotted, fun k p hk => ?_, fun k hk => h.later k ?_⟩
  · have hk : (self.passes ++ [pipeline.runOnce hashDiff])[k]? = some p := hk
    rcases Nat.lt_or_ge k self.passes.length with hold | hnew
    · rw [List.getElem?_append_left hold] at hk
      exact h.follows k p hk
    · rw [List.getElem?_append_right hnew] at hk
      obtain rfl := List.mem_singleton.mp (List.mem_of_getElem? hk)
      exact follows_runOnce (.inr (h.later k hnew))
  · have hk : (self.passes ++ [pipeline.runOnce hashDiff]).length ≤ k := hk
    rw [List.length_append] at hk
    exact Nat.le_trans (Nat.le_add_right _ _) hk

/-- A pass goes on. -/
theorem Passing.go (hinj : Set.InjOn hashDiff known) (h : Passing hashDiff pipeline known q self)
    {o : DiffOp} {rest : DiffOp.Reply o → Prog DiffSig RunOutcome} {r : DiffOp.Reply o}
    {w : DiffWorld} (hk : self.passes[k]? = some (.op o rest))
    (hs : step (treePorts git) self.world ⟨o, r⟩ w) {after : Passes} (hworld : after.world = w)
    (hpasses : after.passes = self.passes.set k (rest r))
    (hasked : after.asked =
      self.asked ++ if asksGit ⟨o, r⟩ then [(self.world.tree, git)] else []) :
    ∃ q', Moves hashDiff pipeline (q k) ⟨o, r⟩ q' ∧
      Passing hashDiff pipeline known (Function.update q k q') after := by
  obtain ⟨q', hq', hrest⟩ := h.follows k _ hk r
  have hmoves := moves_of_protocol hq'
  have hlt : k < self.passes.length := (List.getElem?_eq_some_iff.mp hk).1
  refine ⟨q', hmoves, ?_, fun j p hj => ?_, fun j hj => ?_⟩
  · rw [lastRead_asked hs hasked, hworld]
    exact h.slotted.step hinj hmoves hs
  · rw [hpasses] at hj
    by_cases hjk : j = k
    · subst hjk
      rw [List.getElem?_set_self hlt] at hj
      obtain rfl := Option.some.inj hj
      rw [Function.update_self]
      exact hrest
    · rw [List.getElem?_set_ne (Ne.symm hjk)] at hj
      rw [Function.update_of_ne hjk]
      exact h.follows j p hj
  · rw [hpasses, List.length_set] at hj
    have hjk : j ≠ k := by omega
    rw [Function.update_of_ne hjk]
    exact h.later j hj

/-- While no pass holds the slot, the explanation served is that of the diff that git
    answered last. -/
theorem Passing.served (h : Passing hashDiff pipeline known q self)
    (hfree : self.world.state.inFlight = false) :
    DiffPipeline.currentExplanation self.world = self.lastRead.map buildExplanation := by
  refine (h.slotted.free hfree).2.trans ?_
  rw [Option.map_map]
  rfl

/-- A pass that has returned was turned away, or has released the slot. -/
theorem Passing.returned (h : Passing hashDiff pipeline known q self)
    {p : Prog DiffSig RunOutcome} (hk : self.passes[k]? = some p) (hp : isReturned p = true) :
    q k = .dropped ∨ ∃ result, q k = .released result := by
  have hfollows := h.follows k p hk
  cases p with
  | op o rest => cases hp
  | ret outcome =>
      rcases returned_of_follows hfollows rfl with ⟨hq, -⟩ | ⟨result, hq, -⟩
      · exact .inl hq
      · exact .inr ⟨result, hq⟩

/-- A pass that holds the slot has not returned. -/
theorem Passing.holding (h : Passing hashDiff pipeline known q self) (hk : (q k).holds = true) :
    ∃ p, self.passes[k]? = some p ∧ isReturned p = false := by
  rcases Nat.lt_or_ge k self.passes.length with hlt | hge
  · refine ⟨self.passes[k], List.getElem?_eq_getElem hlt, ?_⟩
    by_contra hne
    rcases h.returned (List.getElem?_eq_getElem hlt) (by simpa using hne) with hq | ⟨result, hq⟩ <;>
      rw [hq] at hk <;> cases hk
  · rw [h.later k hge] at hk
    cases hk

theorem Passing.free (h : Passing hashDiff pipeline known q self) (hrested : self.Rested) :
    self.world.state.inFlight = false := by
  by_contra hne
  obtain ⟨k, hk⟩ := h.slotted.slot.mp (by simpa using hne)
  obtain ⟨p, hp, hfalse⟩ := h.holding hk
  rw [hrested p (List.mem_of_getElem? hp)] at hfalse
  cases hfalse

-- ============================================================================
-- What is due
-- ============================================================================

/-- Git was last asked for the tree as it is, or a trigger or a pass is on the way that has
    it asked; unless a pass has been turned away since. -/
inductive Due (tree : String) (q : Nat → Phase) (onWay : Prop) (self : Passes) : Prop where
  | unchanged (h : self.Unchanged tree)
  | onWay (h : onWay)
  | waiting (k : Nat) (hk : k < self.passes.length) (h : q k = .edited)
  | claimed (k : Nat) (h : q k = .claimed)
  | dropped (h : self.dropped = true)

/-- What is neither started nor asked for stays due. -/
theorem Due.frame (h : Due tree q onWay self) {q' : Phase} (hedited : q k ≠ .edited)
    (hclaimed : q k ≠ .claimed) {after : Passes} (htree : after.world.tree = self.world.tree)
    (hlength : after.passes.length = self.passes.length) (hasked : after.asked = self.asked)
    (hdropped : self.dropped = true → after.dropped = true) :
    Due tree (Function.update q k q') onWay after := by
  cases h with
  | unchanged h =>
      refine .unchanged ?_
      unfold Unchanged
      rw [hasked, htree]
      exact h
  | onWay h => exact .onWay h
  | waiting j hj h => exact .waiting j (by rwa [hlength]) (update_eq_of_ne h hedited)
  | claimed j h => exact .claimed j (update_eq_of_ne h hclaimed)
  | dropped h => exact .dropped (hdropped h)

/-- A pass goes on: it waits no more when it has claimed the slot or was turned away, and
    once it has asked git the tree is as git was asked for it. -/
theorem Due.go (h : Due tree q onWay self) {e : Event DiffSig} {q' : Phase}
    (hfired : q k ≠ .idle) (hmoves : Moves hashDiff pipeline (q k) e q') {after : Passes}
    (hs : step (treePorts git) self.world e after.world)
    (hlength : after.passes.length = self.passes.length)
    (hasked : after.asked = self.asked ++ if asksGit e then [(self.world.tree, git)] else [])
    (hdropped : after.dropped = (!asksGit e && (self.dropped || turnedAway e))) :
    Due tree (Function.update q k q') onWay after := by
  have hread : asksGit e = true → after.world = self.world →
      Due tree (Function.update q k q') onWay after := by
    intro he hsame
    refine .unchanged ?_
    unfold Unchanged
    rw [hasked, he, if_pos rfl, List.getLast?_concat, hsame]
  have hgo : q k ≠ .edited → q k ≠ .claimed → asksGit e = false →
      after.world.tree = self.world.tree → Due tree (Function.update q k q') onWay after := by
    intro hne hne' he htree
    refine h.frame hne hne' htree hlength ?_ fun hd => ?_
    · rw [hasked, he, if_neg (by decide), List.append_nil]
    · rw [hdropped, he, hd]
      rfl
  generalize hq : q k = p at hmoves hfired hgo
  cases hmoves with
  | edit => exact absurd rfl hfired
  | drop => exact .dropped (hdropped.trans (Bool.or_true _))
  | claim => exact .claimed k (Function.update_self ..)
  | gitFailed | read => exact hread rfl hs.2
  | unchanged | changed => exact hgo nofun nofun rfl (by rw [hs.2])
  | explained | explainFailed => exact hgo nofun nofun rfl (by rw [hs.2])
  | empty | cached | emitted | release =>
      have hw : after.world = _ := hs
      exact hgo nofun nofun rfl (by rw [hw])

/-- With every pass returned, nothing is due but what has been done, is on the way, or was
    turned away. -/
theorem Due.unchanged_of_rested (h : Due tree q onWay self)
    (hpassing : Passing hashDiff pipeline known q self) (hrested : self.Rested)
    (hnone : ¬ onWay) : self.dropped = true ∨ self.Unchanged tree := by
  have hreturned : ∀ k < self.passes.length, q k = .dropped ∨ ∃ result, q k = .released result :=
    fun k hk => hpassing.returned (List.getElem?_eq_getElem hk) (hrested _ (List.getElem_mem hk))
  cases h with
  | unchanged h => exact .inr h
  | onWay h => exact absurd h hnone
  | waiting k hk h => rcases hreturned k hk with hq | ⟨result, hq⟩ <;> rw [hq] at h <;> cases h
  | claimed k h =>
      rcases Nat.lt_or_ge k self.passes.length with hk | hk
      · rcases hreturned k hk with hq | ⟨result, hq⟩ <;> rw [hq] at h <;> cases h
      · rw [hpassing.later k hk] at h
        cases h
  | dropped h => exact .inl h

-- ============================================================================
-- What a session does to its passes
-- ============================================================================

/-- The passes are as they should be, and a tree that git was not asked for is due. -/
def Tracked (hashDiff : String → Nat) (pipeline : DiffPipeline) (known : Set String)
    (tree : String) (onWay : Prop) (self : Passes) : Prop :=
  ∃ q, Passing hashDiff pipeline known q self ∧ Due tree q onWay self

theorem tracked_start (htree : marker tree ∈ known) :
    Tracked hashDiff pipeline known tree onWay (start tree) :=
  ⟨_, passing_start htree, .unchanged rfl⟩

/-- What was on the way still is. -/
theorem Tracked.mono (h : Tracked hashDiff pipeline known tree onWay self)
    (honWay : onWay → onWay') : Tracked hashDiff pipeline known tree onWay' self := by
  obtain ⟨q, hpassing, hdue⟩ := h
  refine ⟨q, hpassing, ?_⟩
  cases hdue with
  | unchanged h => exact .unchanged h
  | onWay h => exact .onWay (honWay h)
  | waiting k hk h => exact .waiting k hk h
  | claimed k h => exact .claimed k h
  | dropped h => exact .dropped h

/-- An edit whose trigger is on the way. -/
theorem Tracked.edit (h : Tracked hashDiff pipeline known tree onWay self) {text : String}
    (htext : marker text ∈ known) (honWay : onWay') :
    Tracked hashDiff pipeline known tree onWay' (self.edit text) := by
  obtain ⟨q, hpassing, -⟩ := h
  exact ⟨q, hpassing.edit htext, .onWay honWay⟩

/-- With a pass that waits, nothing need be on the way. -/
theorem Tracked.spawn (h : Tracked hashDiff pipeline known tree onWay self) :
    Tracked hashDiff pipeline known tree onWay' (self.spawn hashDiff pipeline) := by
  obtain ⟨q, hpassing, -⟩ := h
  refine ⟨q, hpassing.spawn, .waiting self.passes.length ?_ (hpassing.later _ le_rfl)⟩
  rw [Passes.spawn, List.length_append]
  exact Nat.lt_succ_self _

theorem Tracked.go (h : Tracked hashDiff pipeline known tree onWay self)
    (hinj : Set.InjOn hashDiff known) (k : Nat) (git : Except GitError Unit) :
    Tracked hashDiff pipeline known tree onWay (self.go k git) := by
  obtain ⟨q, hpassing, hdue⟩ := h
  rcases go_cases self k git with hgo | ⟨o, rest, r, w, hk, hs, hgo⟩
  · rw [hgo]
    exact ⟨q, hpassing, hdue⟩
  · obtain ⟨q', hmoves, hpassing'⟩ := hpassing.go hinj hk hs (congrArg world hgo)
      (congrArg passes hgo) (congrArg asked hgo)
    rw [hgo] at hpassing' ⊢
    exact ⟨_, hpassing',
      hdue.go (hpassing.slotted.fired k) hmoves hs List.length_set rfl rfl⟩

theorem Tracked.served (h : Tracked hashDiff pipeline known tree onWay self)
    (hfree : self.world.state.inFlight = false) :
    DiffPipeline.currentExplanation self.world = self.lastRead.map buildExplanation := by
  obtain ⟨q, hpassing, -⟩ := h
  exact hpassing.served hfree

/-- With every pass returned and nothing on the way, the tree is shown, unless a pass was
    turned away. -/
theorem Tracked.shows (h : Tracked hashDiff pipeline known tree onWay self)
    (hrested : self.Rested) (hnone : ¬ onWay) : self.dropped = true ∨ self.ShowsTree tree := by
  obtain ⟨q, hpassing, hdue⟩ := h
  refine (hdue.unchanged_of_rested hpassing hrested hnone).imp_right fun hsame => ?_
  unfold Unchanged at hsame
  rcases hlast : self.asked.getLast? with _ | ⟨found, git⟩
  · rw [hlast] at hsame
    exact .unread (List.getLast?_eq_none_iff.mp hlast) hsame
  · rw [hlast] at hsame
    obtain rfl : self.world.tree = found := hsame
    refine .read git hlast fun hok => ?_
    subst hok
    rw [hpassing.served (hpassing.free hrested), lastRead_of_ok hlast, Option.map_some]

/-- A pass that runs beside no other finds the slot free. -/
theorem Tracked.not_dropped (h : Tracked hashDiff pipeline known tree onWay self)
    (hdropped : self.dropped = false)
    (halone : ∀ j p, self.passes[j]? = some p → j ≠ k → isReturned p = true) :
    (self.go k git).dropped = false := by
  obtain ⟨q, hpassing, -⟩ := h
  rcases go_cases self k git with hgo | ⟨o, rest, r, w, hk, hs, hgo⟩
  · rw [hgo]
    exact hdropped
  · obtain ⟨q', hq', -⟩ := hpassing.follows k _ hk r
    have hmoves := moves_of_protocol hq'
    have haway : turnedAway ⟨o, r⟩ = false := by
      cases o with
      | claimSlot =>
          cases r with
          | false => rfl
          | true =>
              obtain ⟨j, hj⟩ := hpassing.slotted.slot.mp hs.1.symm
              obtain ⟨p, hp, hfalse⟩ := hpassing.holding hj
              obtain rfl : j = k := by
                by_contra hne
                rw [halone j p hp hne] at hfalse
                cases hfalse
              generalize q j = phase at hmoves hj
              cases hmoves with
              | drop hwait =>
                  rw [Phase.holds_of_not_granted (Phase.granted_of_waiting hwait)] at hj
                  cases hj
      | _ => rfl
    rw [hgo, hdropped, haway]
    exact Bool.and_false _

end Passes

end Spectty.Diff
