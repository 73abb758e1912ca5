/-
  Spectty.Diff.Panel

  The panel that shows a session's explanation: it reads the current one once,
  then applies each event.

  A pass over a clean tree replaces the current explanation by the empty one
  without an event, so the panel goes on showing the one before
  (`panel_stale`).  `panel_law` says what it shows after any passes.
-/

import Spectty.Diff.Pipeline

namespace Spectty.Diff

open Spectty.Lib

-- ============================================================================
-- One pass after the other
-- ============================================================================

/-- What the ports reply to a pass. -/
structure PassReplies where
  git : Except GitError String
  explainer : Except ExplainError DiffExplanation

/-- Run each operation, with the given replies. -/
def handler (replies : PassReplies) : Prog.Handler DiffSig DiffWorld := fun o w =>
  match o with
  | .claimSlot => (w.state.inFlight, { w with state := { w.state with inFlight := true } })
  | .diffHead _ => (replies.git, w)
  | .cacheEmpty hash =>
      ((), { w with state :=
        { w.state with lastHash := some hash, lastExplanation := some .empty } })
  | .lastHash => (w.state.lastHash, w)
  | .explain _ _ => (replies.explainer, w)
  | .cacheExplanation hash explanation =>
      ((), { w with state :=
        { w.state with lastHash := some hash, lastExplanation := some explanation } })
  | .emit event => ((), { w with emitted := w.emitted ++ [event] })
  | .releaseSlot => ((), { w with state := { w.state with inFlight := false } })
  | .edit diff => ((), { w with tree := diff })

/-- These runs are among the general ones. -/
theorem handler_step (replies : PassReplies) (o : DiffOp) (w : DiffWorld) :
    step ⟨fun _ r => r = replies.git, fun _ r => r = replies.explainer⟩ w
      ⟨o, (handler replies o w).1⟩ (handler replies o w).2 := by
  cases o with
  | claimSlot | diffHead | lastHash | explain => exact ⟨rfl, rfl⟩
  | cacheEmpty | cacheExplanation | emit | releaseSlot | edit => rfl

section

variable (hashDiff : String → Nat) (self : DiffPipeline)

/-- A pass alone: its outcome and what it leaves. -/
def runPass (replies : PassReplies) (w : DiffWorld) : RunOutcome × DiffWorld :=
  (self.runOnce hashDiff).interp (handler replies) w

/-- The worlds a pass alone may leave from a free slot. -/
inductive Passed (w : DiffWorld) : RunOutcome → DiffWorld → Prop where
  | emitted (hash : Nat) (explanation : DiffExplanation) :
      Passed w (.emitted hash) ⟨⟨some hash, some explanation, false⟩, w.tree,
        w.emitted ++ [{ sessionId := self.sessionId, explanation }]⟩
  | empty : Passed w .empty ⟨⟨some (hashDiff ""), some .empty, false⟩, w.tree, w.emitted⟩
  | skippedUnchanged : Passed w .skippedUnchanged w
  | degraded : Passed w .degraded w

end

section

variable {hashDiff : String → Nat} {self : DiffPipeline}

/-- A pass alone, from a free slot. -/
theorem runPass_eq (replies : PassReplies) {w : DiffWorld} (hfree : w.state.inFlight = false) :
    runPass hashDiff self replies w =
      match replies.git with
      | .error _ => (.degraded, w)
      | .ok diff =>
          if isBlank diff = true then
            (.empty, ⟨⟨some (hashDiff ""), some .empty, false⟩, w.tree, w.emitted⟩)
          else if w.state.lastHash = some (hashDiff diff) then (.skippedUnchanged, w)
          else
            match replies.explainer with
            | .error _ => (.degraded, w)
            | .ok explanation =>
                (.emitted (hashDiff diff), ⟨⟨some (hashDiff diff), some explanation, false⟩, w.tree,
                  w.emitted ++ [{ sessionId := self.sessionId, explanation }]⟩) := by
  obtain ⟨⟨lastHash, lastExplanation, inFlight⟩, tree, emitted⟩ := w
  obtain rfl : inFlight = false := hfree
  obtain ⟨git, explainer⟩ := replies
  rcases git with ⟨msg⟩ | diff
  · rfl
  · by_cases hblank : isBlank diff = true
    · simp [runPass, DiffPipeline.runOnce, DiffPipeline.runInner, handler, hblank]
    · by_cases hlast : lastHash = some (hashDiff diff)
      · simp [runPass, DiffPipeline.runOnce, DiffPipeline.runInner, handler, hblank, hlast]
      · rcases explainer with error | explanation <;>
          simp [runPass, DiffPipeline.runOnce, DiffPipeline.runInner, handler, hblank, hlast]

/-- What a pass alone leaves. -/
theorem passed_runPass (replies : PassReplies) {w : DiffWorld}
    (hfree : w.state.inFlight = false) :
    Passed hashDiff self w (runPass hashDiff self replies w).1
      (runPass hashDiff self replies w).2 := by
  rw [runPass_eq replies hfree]
  split
  · exact .degraded
  · split_ifs
    · exact .empty
    · exact .skippedUnchanged
    · split
      · exact .degraded
      · exact .emitted _ _

/-- A pass alone gives the slot back. -/
theorem free_runPass (replies : PassReplies) {w : DiffWorld} (hfree : w.state.inFlight = false) :
    (runPass hashDiff self replies w).2.state.inFlight = false := by
  have hpassed : Passed hashDiff self w (runPass hashDiff self replies w).1
    (runPass hashDiff self replies w).2 := passed_runPass replies hfree
  generalize (runPass hashDiff self replies w).1 = outcome at hpassed
  generalize (runPass hashDiff self replies w).2 = w' at hpassed ⊢
  cases hpassed with
  | emitted | empty => rfl
  | skippedUnchanged | degraded => exact hfree

end

-- ============================================================================
-- The panel
-- ============================================================================

/-- What the panel shows: nothing until it has read or received an explanation. -/
abbrev Panel := Option DiffExplanation

namespace Panel

/-- The reply of the read on mount; a panel that shows something keeps it. -/
def hydrate (prev : Panel) (current : Option DiffExplanation) : Panel :=
  match current with
  | some explanation => some (prev.getD explanation)
  | none => prev

/-- An event; those of other sessions are ignored. -/
def apply (sessionId : String) (prev : Panel) (payload : DiffUpdated) : Panel :=
  if payload.sessionId = sessionId then some payload.explanation else prev

end Panel

/-- The pipeline, and the panel over it. -/
structure Screen where
  world : DiffWorld
  panel : Panel

section

variable (hashDiff : String → Nat) (self : DiffPipeline)

/-- The panel of the pipeline's session, mounted between passes. -/
def mounted (w : DiffWorld) : Screen where
  world := w
  panel := Panel.hydrate none (DiffPipeline.currentExplanation w)

/-- A pass, and its events applied. -/
def Screen.pass (s : Screen) (replies : PassReplies) : Screen :=
  let w := (runPass hashDiff self replies s.world).2
  { world := w
    panel := (w.emitted.drop s.world.emitted.length).foldl (Panel.apply self.sessionId) s.panel }

/-- The outcomes of passes, one after the other. -/
def Screen.outcomes : Screen → List PassReplies → List RunOutcome
  | _, [] => []
  | s, replies :: rest =>
      (runPass hashDiff self replies s.world).1 :: (s.pass hashDiff self replies).outcomes rest

/-- The world after some passes over a new pipeline. -/
def afterPasses (tree : String) (history : List PassReplies) : DiffWorld :=
  history.foldl (fun w replies => (runPass hashDiff self replies w).2) (.start tree)

end

/-- A pass has emitted. -/
def emits : RunOutcome → Bool
  | .emitted _ => true
  | _ => false

/-- A clean tree was found since the last emission, now that a pass came to
    `outcome`. -/
def cleanAfter (clean : Bool) : RunOutcome → Bool
  | .emitted _ => false
  | .empty => true
  | .skippedUnchanged | .degraded => clean

/-- A clean tree was found since the last emission. -/
def cleanSince (outcomes : List RunOutcome) : Bool := outcomes.foldl cleanAfter false

/-- What the panel shows after some passes since it was mounted: the current
    explanation, unless a clean tree was found since the last emission.  Then the
    current one is the empty one, and the panel shows what it showed since. -/
structure PanelLaw (hashDiff : String → Nat) (pipeline : DiffPipeline) (start : Screen)
    (passes : List PassReplies) : Prop where
  shows : cleanSince (start.outcomes hashDiff pipeline passes) = false →
    (passes.foldl (Screen.pass hashDiff pipeline) start).panel =
      DiffPipeline.currentExplanation (passes.foldl (Screen.pass hashDiff pipeline) start).world
  clean : cleanSince (start.outcomes hashDiff pipeline passes) = true →
    DiffPipeline.currentExplanation
      (passes.foldl (Screen.pass hashDiff pipeline) start).world = some .empty
  keeps : ∀ before after, passes = before ++ after →
    (∀ outcome ∈ (before.foldl (Screen.pass hashDiff pipeline) start).outcomes
      hashDiff pipeline after, emits outcome = false) →
      (passes.foldl (Screen.pass hashDiff pipeline) start).panel =
        (before.foldl (Screen.pass hashDiff pipeline) start).panel

section

variable {hashDiff : String → Nat} {self : DiffPipeline} {s : Screen}

/-- What a pass does to the panel and to the current explanation. -/
theorem pass_cases (hashDiff : String → Nat) (self : DiffPipeline) (replies : PassReplies)
    (hfree : s.world.state.inFlight = false) :
    match (runPass hashDiff self replies s.world).1 with
    | .emitted _ => (s.pass hashDiff self replies).panel =
        DiffPipeline.currentExplanation (s.pass hashDiff self replies).world
    | .empty => (s.pass hashDiff self replies).panel = s.panel ∧
        DiffPipeline.currentExplanation (s.pass hashDiff self replies).world = some .empty
    | .skippedUnchanged | .degraded => (s.pass hashDiff self replies).panel = s.panel ∧
        DiffPipeline.currentExplanation (s.pass hashDiff self replies).world =
          DiffPipeline.currentExplanation s.world := by
  have hpassed : Passed hashDiff self s.world (runPass hashDiff self replies s.world).1
    (s.pass hashDiff self replies).world := passed_runPass replies hfree
  have hpanel : (s.pass hashDiff self replies).panel =
    ((s.pass hashDiff self replies).world.emitted.drop s.world.emitted.length).foldl
      (Panel.apply self.sessionId) s.panel := rfl
  rw [hpanel]
  generalize (runPass hashDiff self replies s.world).1 = outcome at hpassed
  generalize (s.pass hashDiff self replies).world = w at hpassed
  cases hpassed with
  | emitted hash explanation => simp [Panel.apply, DiffPipeline.currentExplanation]
  | empty => simp [DiffPipeline.currentExplanation]
  | skippedUnchanged => simp
  | degraded => simp

/-- The panel agrees with the current explanation; after a clean tree, that is the
    empty one. -/
def Agree (clean : Bool) (s : Screen) : Prop :=
  s.world.state.inFlight = false ∧
    (clean = false → s.panel = DiffPipeline.currentExplanation s.world) ∧
    (clean = true → DiffPipeline.currentExplanation s.world = some .empty)

theorem agree_pass {clean : Bool} (replies : PassReplies) (h : Agree clean s) :
    Agree (cleanAfter clean (runPass hashDiff self replies s.world).1)
      (s.pass hashDiff self replies) := by
  obtain ⟨hfree, hshows, hclean⟩ := h
  have hcases := pass_cases hashDiff self replies hfree
  refine ⟨free_runPass replies hfree, ?_⟩
  cases houtcome : (runPass hashDiff self replies s.world).1 with
  | emitted hash =>
      rw [houtcome] at hcases
      exact ⟨fun _ => hcases, nofun⟩
  | empty =>
      rw [houtcome] at hcases
      exact ⟨nofun, fun _ => hcases.2⟩
  | skippedUnchanged | degraded =>
      rw [houtcome] at hcases
      obtain ⟨hpanel, hcurrent⟩ := hcases
      rw [hpanel, hcurrent]
      exact ⟨hshows, hclean⟩

theorem agree_run {clean : Bool} (passes : List PassReplies) (h : Agree clean s) :
    Agree ((s.outcomes hashDiff self passes).foldl cleanAfter clean)
      (passes.foldl (Screen.pass hashDiff self) s) := by
  induction passes generalizing s clean with
  | nil => exact h
  | cons replies rest ih => exact ih (agree_pass replies h)

/-- Without an emission, the panel keeps what it shows. -/
theorem panel_kept {passes : List PassReplies} (hfree : s.world.state.inFlight = false)
    (h : ∀ outcome ∈ s.outcomes hashDiff self passes, emits outcome = false) :
    (passes.foldl (Screen.pass hashDiff self) s).panel = s.panel := by
  induction passes generalizing s with
  | nil => rfl
  | cons replies rest ih =>
      have hcases := pass_cases hashDiff self replies hfree
      have hrest := ih (s := s.pass hashDiff self replies) (free_runPass replies hfree)
        fun outcome hmem => h outcome (List.mem_cons_of_mem _ hmem)
      rw [List.foldl_cons, hrest]
      have hquiet := h _ List.mem_cons_self
      cases houtcome : (runPass hashDiff self replies s.world).1 with
      | emitted hash =>
          rw [houtcome] at hquiet
          cases hquiet
      | empty | skippedUnchanged | degraded =>
          rw [houtcome] at hcases
          exact hcases.1

/-- The slot is free between passes. -/
theorem free_afterPasses (tree : String) (history : List PassReplies) :
    (afterPasses hashDiff self tree history).state.inFlight = false := by
  induction history using List.reverseRecOn with
  | nil => rfl
  | append_singleton history replies ih =>
      rw [afterPasses, List.foldl_append]
      exact free_runPass replies ih

/-- A panel agrees with the pipeline when it is mounted. -/
theorem agree_mounted {w : DiffWorld} (hfree : w.state.inFlight = false) :
    Agree false (mounted w) := by
  refine ⟨hfree, fun _ => ?_, nofun⟩
  show Panel.hydrate none (DiffPipeline.currentExplanation w) = DiffPipeline.currentExplanation w
  cases DiffPipeline.currentExplanation w <;> rfl

/-- What a panel shows, mounted after any passes, after any further ones. -/
theorem panel_law (hashDiff : String → Nat) (self : DiffPipeline) (tree : String)
    (history passes : List PassReplies) :
    PanelLaw hashDiff self (mounted (afterPasses hashDiff self tree history)) passes := by
  have hmounted : Agree false (mounted (afterPasses hashDiff self tree history)) :=
    agree_mounted (free_afterPasses tree history)
  refine ⟨(agree_run passes hmounted).2.1, (agree_run passes hmounted).2.2, ?_⟩
  rintro before after rfl hquiet
  rw [List.foldl_append]
  exact panel_kept (agree_run before hmounted).1 hquiet

end

/-- A changed file, then a clean tree: the panel goes on showing the
    explanation of the change. -/
theorem panel_stale :
    let explanation : DiffExplanation := ⟨[⟨"f.rs", "a fix"⟩], "one file"⟩
    let passes : List PassReplies := [⟨.ok "+x", .ok explanation⟩, ⟨.ok "", .ok explanation⟩]
    let s := passes.foldl (Screen.pass String.length ⟨"0", "/w"⟩) (mounted (.start "+x"))
    (mounted (.start "+x")).outcomes String.length ⟨"0", "/w"⟩ passes = [.emitted 2, .empty] ∧
      s.panel = some explanation ∧ DiffPipeline.currentExplanation s.world = some .empty ∧
      s.panel ≠ DiffPipeline.currentExplanation s.world := by
  refine ⟨rfl, rfl, rfl, ?_⟩
  decide

end Spectty.Diff
