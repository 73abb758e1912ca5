/-
  Spectty.Core.Progress

  Two records of how far a plan is: the state of each task, and the log of
  moves.  `Consistent` ties them together; each change keeps it (`Consistent.change`),
  so it holds along every run (`progress_run`).

  `applyProgressInPlace` is `applyProgress` on a contract that the call owns: what an
  error leaves behind is there to be seen.
-/

import Spectty.Core.Spec
import Mathlib.Data.List.Chain

namespace Spectty.Core

namespace TaskState

/-- A move that the transition makes. -/
def Legal (s t : TaskState) : Prop := s ≠ t ∧ s.transition t = t

instance : DecidableRel Legal := fun _ _ => inferInstanceAs (Decidable (_ ∧ _))

/-- Whatever the transition changes, it changes to the target. -/
theorem legal_of_transition_ne {s t : TaskState} (h : s.transition t ≠ s) :
    Legal s t ∧ s.transition t = t := by
  cases s <;> cases t <;> first | exact absurd rfl h | decide

theorem Legal.transition_ne {s t : TaskState} (h : Legal s t) : s.transition t ≠ s :=
  fun heq => h.1 (heq.symm.trans h.2)

/-- Nothing follows `done` or `skipped`. -/
theorem not_legal_done {t : TaskState} : ¬ Legal .done t := by cases t <;> decide

theorem not_legal_skipped {t : TaskState} : ¬ Legal .skipped t := by cases t <;> decide

/-- Only work in progress is done. -/
theorem Legal.to_done {s : TaskState} (h : Legal s .done) : s = .inProgress := by
  cases s <;> revert h <;> decide

end TaskState

open TaskState (Legal)

namespace SpecContract

/-- Advance a task of the contract that is held. -/
def applyProgressInPlace (taskId : String) (target : TaskState) :
    ExceptT SpecError (StateM SpecContract) Unit := do
  let self ← get
  if target = .inProgress ∧ self.mayBeginEdits = false then
    throw .gateNotApproved
  else
    match self.tasks.find? (·.id = taskId) with
    | none => throw (.unknownTask taskId)
    | some task =>
        let next := task.state.transition target
        if next = task.state then
          return ()
        else
          modify fun c => { c with tasks := setTask taskId next c.tasks }
          modify fun c => { c with progress := c.progress ++ [{ taskId, state := next }] }

/-- The answer of a call and the contract after it. -/
def call (self : SpecContract) (taskId : String) (target : TaskState) :
    Except SpecError Unit × SpecContract :=
  (applyProgressInPlace taskId target).run.run self

/-- In place, an error leaves the contract as it was. -/
theorem call_eq (self : SpecContract) (taskId : String) (target : TaskState) :
    self.call taskId target =
      match self.applyProgress taskId target with
      | .ok c => (.ok (), c)
      | .error e => (.error e, self) := by
  show (ite (target = .inProgress ∧ self.mayBeginEdits = false)
    (throw .gateNotApproved : ExceptT SpecError (StateM SpecContract) Unit) _).run.run self = _
  unfold applyProgress
  split
  · rfl
  · cases self.tasks.find? (·.id = taskId) with
    | none => rfl
    | some task =>
        dsimp only
        split <;> rfl

/-- The contract with a task moved, and the move logged. -/
def advanced (self : SpecContract) (taskId : String) (target : TaskState) : SpecContract :=
  { self with
    tasks := self.tasks.map fun t => if t.id = taskId then { t with state := target } else t
    progress := self.progress ++ [{ taskId, state := target }] }

/-- The states that are logged for an id, in order. -/
def entriesOf (self : SpecContract) (id : String) : List TaskState :=
  (self.progress.filter (·.taskId = id)).map (·.state)

/-- The last state that is logged for an id. -/
def lastEntry (self : SpecContract) (id : String) : TaskState :=
  (self.entriesOf id).getLast?.getD .pending

variable {self : SpecContract} {id taskId : String} {s target : TaskState} {t : SpecTask}

theorem setTask_eq_map {tasks : List SpecTask} (h : (tasks.map (·.id)).Nodup) :
    setTask taskId s tasks =
      tasks.map fun t => if t.id = taskId then { t with state := s } else t := by
  induction tasks with
  | nil => rfl
  | cons t tasks ih =>
      rw [List.map_cons, List.nodup_cons] at h
      by_cases hid : t.id = taskId
      · have hrest : tasks.map (fun t => if t.id = taskId then { t with state := s } else t) =
            tasks := by
          refine List.map_congr_left (fun t' ht' => ?_) |>.trans tasks.map_id
          rw [if_neg fun heq : t'.id = taskId =>
            h.1 (by rw [hid, ← heq]; exact List.mem_map_of_mem ht'), id_eq]
        simp [setTask, hid, hrest]
      · simp [setTask, hid, ih h.2]

theorem entriesOf_advanced_self :
    (self.advanced taskId s).entriesOf taskId = self.entriesOf taskId ++ [s] := by
  simp [entriesOf, advanced, List.filter_append]

theorem entriesOf_advanced_of_ne (h : taskId ≠ id) :
    (self.advanced taskId s).entriesOf id = self.entriesOf id := by
  simp [entriesOf, advanced, List.filter_append, h]

-- ============================================================================
-- The invariant
-- ============================================================================

/-- The states of the tasks and the log of moves tell the same. -/
structure Consistent (c : SpecContract) : Prop where
  distinct : (c.tasks.map (·.id)).Nodup
  states : ∀ t ∈ c.tasks, t.state = c.lastEntry t.id
  legal : ∀ id, List.IsChain Legal (.pending :: c.entriesOf id)

/-- What a call does to a contract whose ids are distinct. -/
inductive CallEffect (self : SpecContract) (taskId : String) (target : TaskState) :
    Except SpecError Unit × SpecContract → Prop where
  | refused (begins : target = .inProgress) (gate : self.mayBeginEdits = false) :
      CallEffect self taskId target (.error .gateNotApproved, self)
  | unknown (absent : ∀ t ∈ self.tasks, t.id ≠ taskId)
      (gate : target = .inProgress → self.mayBeginEdits = true) :
      CallEffect self taskId target (.error (.unknownTask taskId), self)
  | ignored (t : SpecTask) (mem : t ∈ self.tasks) (is : t.id = taskId)
      (illegal : ¬ Legal t.state target) (gate : target = .inProgress → self.mayBeginEdits = true) :
      CallEffect self taskId target (.ok (), self)
  | moved (t : SpecTask) (mem : t ∈ self.tasks) (is : t.id = taskId)
      (legal : Legal t.state target) (gate : target = .inProgress → self.mayBeginEdits = true) :
      CallEffect self taskId target (.ok (), self.advanced taskId target)

theorem callEffect (h : (self.tasks.map (·.id)).Nodup) :
    CallEffect self taskId target (self.call taskId target) := by
  rw [call_eq]
  unfold applyProgress
  by_cases hgate : target = .inProgress ∧ self.mayBeginEdits = false
  · rw [if_pos hgate]
    exact .refused hgate.1 hgate.2
  · rw [if_neg hgate]
    have hopen : target = .inProgress → self.mayBeginEdits = true := fun hp => by
      simpa [hp] using hgate
    cases htask : self.tasks.find? (·.id = taskId) with
    | none => exact .unknown (by simpa using List.find?_eq_none.mp htask) hopen
    | some t =>
        have hmem := List.mem_of_find?_eq_some htask
        have hid : t.id = taskId := by simpa using List.find?_some htask
        dsimp only
        by_cases hnext : t.state.transition target = t.state
        · rw [if_pos hnext]
          exact .ignored t hmem hid (fun hlegal => hlegal.transition_ne hnext) hopen
        · rw [if_neg hnext]
          obtain ⟨hlegal, htarget⟩ := TaskState.legal_of_transition_ne hnext
          rw [htarget, setTask_eq_map h]
          exact .moved t hmem hid hlegal hopen

theorem lastEntry_advanced :
    (self.advanced taskId s).lastEntry id = if taskId = id then s else self.lastEntry id := by
  unfold lastEntry
  split
  case isTrue h => rw [← h, entriesOf_advanced_self, List.getLast?_concat, Option.getD_some]
  case isFalse h => rw [entriesOf_advanced_of_ne h]

/-- A logged path that ends in `s` goes on with a legal move from `s`. -/
theorem isChain_concat {path : List TaskState} (h : List.IsChain Legal (.pending :: path))
    (hlegal : Legal (path.getLast?.getD .pending) target) :
    List.IsChain Legal (.pending :: (path ++ [target])) := by
  rw [← List.cons_append, List.isChain_append]
  refine ⟨h, List.isChain_singleton target, fun x hx y hy => ?_⟩
  rw [List.getLast?_cons, Option.mem_some_iff] at hx
  rw [List.head?_cons, Option.mem_some_iff] at hy
  rwa [← hx, ← hy]

theorem Consistent.advanced (h : self.Consistent) (hmem : t ∈ self.tasks) (hid : t.id = taskId)
    (hlegal : Legal t.state target) : (self.advanced taskId target).Consistent where
  distinct := by
    have hids : (self.advanced taskId target).tasks.map (·.id) = self.tasks.map (·.id) := by
      simp only [SpecContract.advanced, List.map_map]
      refine List.map_congr_left fun t' _ => ?_
      rw [Function.comp_apply]
      split <;> rfl
    rw [hids]
    exact h.distinct
  states := by
    intro t' ht'
    obtain ⟨t₀, ht₀, rfl⟩ := List.mem_map.mp ht'
    rw [lastEntry_advanced]
    by_cases ht : t₀.id = taskId
    · simp [ht]
    · rw [if_neg ht, if_neg fun heq => ht heq.symm]
      exact h.states t₀ ht₀
  legal := by
    intro id
    by_cases heq : taskId = id
    · subst heq
      rw [entriesOf_advanced_self]
      refine isChain_concat (h.legal taskId) ?_
      have hstate := h.states t hmem
      rw [hid] at hstate
      rwa [lastEntry, ← hstate] at *
    · rw [entriesOf_advanced_of_ne heq]
      exact h.legal id

-- ============================================================================
-- Runs
-- ============================================================================

/-- What happens to a contract: a call, or a change of what the gate looks at. -/
inductive Change where
  | progress (taskId : String) (target : TaskState)
  | approval (state : ApprovalState)
  | devOverride (on : Bool)

def change (self : SpecContract) : Change → SpecContract
  | .progress taskId target => (self.call taskId target).2
  | .approval state => { self with approval := state }
  | .devOverride on => { self with devOverride := on }

def run (self : SpecContract) (changes : List Change) : SpecContract := changes.foldl change self

theorem run_concat (changes : List Change) (x : Change) :
    self.run (changes ++ [x]) = (self.run changes).change x := by
  rw [run, List.foldl_append]
  rfl

theorem Consistent.change (h : self.Consistent) (x : Change) : (self.change x).Consistent := by
  cases x with
  | progress taskId target =>
      have heffect : CallEffect self taskId target (self.call taskId target) :=
        callEffect h.distinct
      rw [SpecContract.change]
      generalize self.call taskId target = r at heffect
      cases heffect with
      | refused begins gate => exact h
      | unknown absent gate => exact h
      | ignored t mem is illegal gate => exact h
      | moved t mem is legal gate => exact h.advanced mem is legal
  | approval state => exact ⟨h.distinct, h.states, h.legal⟩
  | devOverride on => exact ⟨h.distinct, h.states, h.legal⟩

theorem Consistent.run (h : self.Consistent) (changes : List Change) :
    (self.run changes).Consistent := by
  induction changes generalizing self with
  | nil => exact h
  | cons x changes ih => exact ih (h.change x)

/-- What one change does to the log. -/
theorem progress_change (h : (self.tasks.map (·.id)).Nodup) (x : Change) :
    (self.change x).progress = self.progress ∨
      ∃ taskId target, x = .progress taskId target ∧
        (self.change x).progress = self.progress ++ [{ taskId, state := target }] ∧
        (target = .inProgress → self.mayBeginEdits = true) := by
  cases x with
  | progress taskId target =>
      have heffect : CallEffect self taskId target (self.call taskId target) := callEffect h
      rw [SpecContract.change]
      generalize self.call taskId target = r at heffect
      cases heffect with
      | refused begins gate => exact .inl rfl
      | unknown absent gate => exact .inl rfl
      | ignored t mem is illegal gate => exact .inl rfl
      | moved t mem is legal gate => exact .inr ⟨taskId, target, rfl, rfl, gate⟩
  | approval state => exact .inl rfl
  | devOverride on => exact .inl rfl

/-- Each entry that work began comes from a call made with the gate open. -/
theorem gated_run (h : self.Consistent) (hnil : self.progress = []) {changes : List Change}
    {before after : List TaskProgress} {entry : TaskProgress}
    (hentry : (self.run changes).progress = before ++ entry :: after)
    (hbegin : entry.state = .inProgress) :
    ∃ earlier later, changes = earlier ++ .progress entry.taskId .inProgress :: later ∧
      (self.run earlier).progress = before ∧ (self.run earlier).mayBeginEdits = true := by
  induction changes using List.reverseRecOn generalizing after with
  | nil =>
      rw [run, List.foldl_nil, hnil] at hentry
      simp at hentry
  | append_singleton changes x ih =>
      rw [run_concat] at hentry
      rcases progress_change (h.run changes).distinct x with
        hsame | ⟨taskId, target, hx, hnew, hgate⟩
      · obtain ⟨earlier, later, hsplit, hrest⟩ := ih (hsame ▸ hentry)
        exact ⟨earlier, later ++ [x], by rw [hsplit]; simp, hrest⟩
      · rw [hnew] at hentry
        rcases List.eq_nil_or_concat after with rfl | ⟨after', last, rfl⟩
        · -- the entry is the one that this call appends
          obtain ⟨hbefore, heq⟩ := List.append_inj' hentry rfl
          obtain rfl := List.singleton_inj.mp heq
          subst hbegin hx
          exact ⟨changes, [], rfl, hbefore, hgate rfl⟩
        · rw [List.concat_eq_append, ← List.cons_append, ← List.append_assoc] at hentry
          obtain ⟨earlier, later, hsplit, hrest⟩ := ih (List.append_inj' hentry rfl).1
          exact ⟨earlier, later ++ [x], by rw [hsplit]; simp, hrest⟩

theorem eq_nil_of_isChain {before after : List TaskState}
    (h : List.IsChain Legal (.pending :: (before ++ s :: after)))
    (hlast : ∀ t, ¬ Legal s t) : after = [] := by
  cases after with
  | nil => rfl
  | cons t after =>
      rw [← List.cons_append, List.isChain_append_cons_cons] at h
      exact absurd h.2.1 (hlast t)

theorem inProgress_mem_of_isChain {before after : List TaskState}
    (h : List.IsChain Legal (.pending :: (before ++ .done :: after))) : .inProgress ∈ before := by
  rw [← List.cons_append, List.isChain_append] at h
  have hlegal := h.2.2 _ (by rw [List.getLast?_cons]; rfl) _ (by rw [List.head?_cons]; rfl)
  cases hbefore : before.getLast? with
  | none =>
      rw [hbefore] at hlegal
      exact absurd hlegal.to_done (by decide)
  | some s =>
      rw [hbefore] at hlegal
      rw [← hlegal.to_done]
      exact List.mem_of_getLast? hbefore

/-- What holds of a contract after changes. -/
structure RunLaw (c₀ : SpecContract) (changes : List Change) : Prop where
  states : ∀ t ∈ (c₀.run changes).tasks, t.state = (c₀.run changes).lastEntry t.id
  legal : ∀ id, List.IsChain Legal (.pending :: (c₀.run changes).entriesOf id)
  done_last : ∀ id before after, (c₀.run changes).entriesOf id = before ++ .done :: after →
    .inProgress ∈ before ∧ after = []
  skipped_last : ∀ id before after,
    (c₀.run changes).entriesOf id = before ++ .skipped :: after → after = []
  gated : ∀ before entry after, (c₀.run changes).progress = before ++ entry :: after →
    entry.state = .inProgress → ∃ earlier later,
      changes = earlier ++ .progress entry.taskId .inProgress :: later ∧
        (c₀.run earlier).progress = before ∧ (c₀.run earlier).mayBeginEdits = true
  calls : ∀ taskId target,
    CallEffect (c₀.run changes) taskId target ((c₀.run changes).call taskId target)

/-- From a contract with distinct ids on which nothing was done, the tasks and
    the log tell the same after all changes, and no rule was broken on the way. -/
theorem progress_run (c₀ : SpecContract) (hdistinct : (c₀.tasks.map (·.id)).Nodup)
    (hpending : ∀ t ∈ c₀.tasks, t.state = .pending) (hnil : c₀.progress = [])
    (changes : List Change) : RunLaw c₀ changes := by
  have hfresh : c₀.Consistent :=
    { distinct := hdistinct
      states := fun t ht => by simp [hpending t ht, lastEntry, entriesOf, hnil]
      legal := fun id => by simp [entriesOf, hnil] }
  have hrun := hfresh.run changes
  exact
    { states := hrun.states
      legal := hrun.legal
      done_last := fun id before after hsplit => by
        have hpath := hsplit ▸ hrun.legal id
        exact ⟨inProgress_mem_of_isChain hpath,
          eq_nil_of_isChain hpath fun _ => TaskState.not_legal_done⟩
      skipped_last := fun id before after hsplit =>
        eq_nil_of_isChain (hsplit ▸ hrun.legal id) fun _ => TaskState.not_legal_skipped
      gated := fun _ _ _ => gated_run hfresh hnil
      calls := fun _ _ => callEffect hrun.distinct }

/-- A plan of two tasks: one is begun and done, a call for the other is refused. -/
theorem progress_run_two :
    RunLaw
      { intent := "add a flag", proposal := none,
        tasks := [⟨"1", "parse it", .pending, none⟩, ⟨"2", "test it", .pending, none⟩],
        progress := [], approval := .pending, steeringNotes := [], devOverride := false }
      [.progress "2" .inProgress, .approval .approved, .progress "1" .inProgress,
        .progress "1" .done] :=
  progress_run _ (by decide) (by simp) rfl _

end SpecContract

end Spectty.Core
