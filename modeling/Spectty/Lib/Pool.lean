/-
  Spectty.Lib.Pool

  Threads over one shared state.  Each thread is a `Prog`; a step lets one
  thread perform its next operation, with a reply and a new shared state
  that the semantics admits.  A `Run` is any interleaving of such steps, so
  a theorem about every run holds for every schedule.

  The trace of a run records each step with the shared state before and
  after it.  `Run.coupled` is the rule for threads that each follow a protocol
  (`Prog.Follows`): an invariant over the protocol states, the trace and the
  shared state that each admitted event keeps holds after every run.
-/

import Spectty.Lib.Prog
import Mathlib.Data.List.Induction

namespace Spectty.Lib

/-- Threads, indexed by `ι`, over a shared state. -/
structure Pool (ι σ : Type) (S : Sig) (α : Type) where
  shared : σ
  threads : ι → Prog S α

/-- One step of a run: who performed which event, and the shared state on
    both sides. -/
structure Moment (ι σ : Type) (S : Sig) where
  thread : ι
  event : Event S
  before : σ
  after : σ

variable {ι σ α Q : Type} {S : Sig} [DecidableEq ι]

namespace Pool

/-- A thread performs its next operation. -/
inductive Step (H : Prog.Semantics S σ) : Pool ι σ S α → Moment ι σ S → Pool ι σ S α → Prop where
  | mk {P : Pool ι σ S α} {i : ι} {o : S.Op} {k : S.Reply o → Prog S α} {r : S.Reply o} {s' : σ} :
      P.threads i = .op o k → H P.shared ⟨o, r⟩ s' →
      Step H P ⟨i, ⟨o, r⟩, P.shared, s'⟩ ⟨s', Function.update P.threads i (k r)⟩

/-- `Run H P₀ tr P`: an interleaving of the threads of `P₀` with trace `tr`
    reaches the pool `P`. -/
inductive Run (H : Prog.Semantics S σ) (P₀ : Pool ι σ S α) :
    List (Moment ι σ S) → Pool ι σ S α → Prop where
  | nil : Run H P₀ [] P₀
  | snoc {tr : List (Moment ι σ S)} {P P' : Pool ι σ S α} {m : Moment ι σ S} :
      Run H P₀ tr P → Step H P m P' → Run H P₀ (tr ++ [m]) P'

variable {H : Prog.Semantics S σ} {P₀ P P' : Pool ι σ S α} {tr : List (Moment ι σ S)}
  {m : Moment ι σ S}

-- ============================================================================
-- What one step does
-- ============================================================================

theorem Step.before_eq (h : Step H P m P') : m.before = P.shared := by
  cases h; rfl

theorem Step.after_eq (h : Step H P m P') : m.after = P'.shared := by
  cases h; rfl

/-- The shared state moves as the semantics of the event says. -/
theorem Step.semantics (h : Step H P m P') : H m.before m.event m.after := by
  cases h with
  | mk _ hs => exact hs

/-- The thread that steps performs its next operation and continues with the
    reply. -/
theorem Step.inv (h : Step H P m P') : ∃ o k r, P.threads m.thread = .op o k ∧
    m.event = ⟨o, r⟩ ∧ P'.threads m.thread = k r := by
  cases h with
  | mk hop _ => exact ⟨_, _, _, hop, rfl, Function.update_self ..⟩

/-- A step leaves the other threads as they are. -/
theorem Step.frame (h : Step H P m P') {j : ι} (hj : j ≠ m.thread) :
    P'.threads j = P.threads j := by
  cases h with
  | mk _ _ => exact Function.update_of_ne hj _ _

-- ============================================================================
-- Runs
-- ============================================================================

/-- Extend a run by a step of thread `i`, which continues as `p`. -/
theorem Run.next {s s' : σ} {t : ι → Prog S α} {o : S.Op} {k : S.Reply o → Prog S α}
    {r : S.Reply o} {p : Prog S α} (hr : Run H P₀ tr ⟨s, t⟩) (i : ι) (hi : t i = .op o k)
    (hs : H s ⟨o, r⟩ s') (hk : k r = p) :
    Run H P₀ (tr ++ [⟨i, ⟨o, r⟩, s, s'⟩]) ⟨s', Function.update t i p⟩ := by
  subst hk
  exact .snoc hr (.mk (P := ⟨s, t⟩) hi hs)

/-- An element of an extended list is its last one, or one of the list before. -/
theorem concat_eq_append_cons {β : Type} {l pre post : List β} {x y : β}
    (h : l ++ [x] = pre ++ y :: post) :
    (pre = l ∧ y = x ∧ post = []) ∨ ∃ post', post = post' ++ [x] ∧ l = pre ++ y :: post' := by
  induction post using List.reverseRecOn with
  | nil =>
      left
      obtain ⟨hl, hx⟩ := List.append_inj' h rfl
      exact ⟨hl.symm, (List.cons.inj hx).1.symm, rfl⟩
  | append_singleton post z _ =>
      right
      rw [← List.cons_append, ← List.append_assoc] at h
      obtain ⟨hl, hx⟩ := List.append_inj' h rfl
      obtain rfl : x = z := (List.cons.inj hx).1
      exact ⟨post, rfl, hl⟩

/-- Each step of the trace, after the steps before it, satisfies `C`. -/
def Steps (C : List (Moment ι σ S) → Moment ι σ S → Prop) (tr : List (Moment ι σ S)) : Prop :=
  ∀ pre m post, tr = pre ++ m :: post → C pre m

omit [DecidableEq ι] in
theorem steps_nil (C : List (Moment ι σ S) → Moment ι σ S → Prop) : Steps C [] := by
  intro pre m post h
  simp at h

omit [DecidableEq ι] in
theorem steps_concat {C : List (Moment ι σ S) → Moment ι σ S → Prop} :
    Steps C (tr ++ [m]) ↔ Steps C tr ∧ C tr m := by
  constructor
  · intro h
    refine ⟨fun pre m' post he => h pre m' (post ++ [m]) (by simp [he]), h tr m [] rfl⟩
  · rintro ⟨htr, hm⟩ pre m' post he
    rcases concat_eq_append_cons he with ⟨rfl, rfl, -⟩ | ⟨post', -, htr'⟩
    · exact hm
    · exact htr pre m' post' htr'

omit [DecidableEq ι] in
theorem Steps.of_append {C : List (Moment ι σ S) → Moment ι σ S → Prop}
    {tr' : List (Moment ι σ S)} (h : Steps C (tr ++ tr')) : Steps C tr := by
  intro pre m post he
  exact h pre m (post ++ tr') (by simp [he])

/-- A run splits at each of its steps. -/
theorem Run.split {pre post : List (Moment ι σ S)} (hr : Run H P₀ tr P)
    (he : tr = pre ++ m :: post) :
    ∃ P₁ P₂, Run H P₀ pre P₁ ∧ Step H P₁ m P₂ ∧ Run H P₂ post P := by
  induction hr generalizing post with
  | nil => simp at he
  | @snoc tr P P' m' hr hs ih =>
      rcases concat_eq_append_cons he with ⟨rfl, rfl, rfl⟩ | ⟨post', rfl, htr⟩
      · exact ⟨P, P', hr, hs, .nil⟩
      · obtain ⟨P₁, P₂, h₁, h₂, h₃⟩ := ih htr
        exact ⟨P₁, P₂, h₁, h₂, .snoc h₃ hs⟩

-- ============================================================================
-- The protocol of each thread
-- ============================================================================

/-- The events of thread `i`, in order. -/
def eventsOf (i : ι) (tr : List (Moment ι σ S)) : List (Event S) :=
  (tr.filter (·.thread = i)).map (·.event)

@[simp] theorem eventsOf_nil (i : ι) : eventsOf i ([] : List (Moment ι σ S)) = [] := rfl

theorem eventsOf_concat_self :
    eventsOf m.thread (tr ++ [m]) = eventsOf m.thread tr ++ [m.event] := by
  simp [eventsOf]

theorem eventsOf_concat_of_ne {i : ι} (h : m.thread ≠ i) :
    eventsOf i (tr ++ [m]) = eventsOf i tr := by
  simp [eventsOf, h]

/-- What is left of a thread is what its events leave of its program. -/
theorem Run.performs (hr : Run H P₀ tr P) (i : ι) :
    Prog.Performs (P₀.threads i) (eventsOf i tr) (P.threads i) := by
  induction hr with
  | nil => exact .refl
  | @snoc tr P P' m hr hs ih =>
      by_cases hi : m.thread = i
      · subst hi
        obtain ⟨o, k, r, hop, hevent, hnext⟩ := hs.inv
        rw [eventsOf_concat_self, hevent, hnext]
        rw [hop] at ih
        exact ih.concat r
      · rw [eventsOf_concat_of_ne hi, hs.frame (Ne.symm hi)]
        exact ih

/-- Each thread performs only operations it may perform. -/
theorem Run.allOps {N : ι → S.Op → Prop} (hops : ∀ i, Prog.AllOps (N i) (P₀.threads i))
    (hr : Run H P₀ tr P) :
    (∀ i, Prog.AllOps (N i) (P.threads i)) ∧ ∀ m ∈ tr, N m.thread m.event.op := by
  induction hr with
  | nil => exact ⟨hops, by simp⟩
  | @snoc tr P P' m hr hs ih =>
      obtain ⟨hthreads, htrace⟩ := ih
      obtain ⟨o, k, r, hop, hevent, hnext⟩ := hs.inv
      have hthread := hthreads m.thread
      rw [hop] at hthread
      refine ⟨fun i => ?_, fun m' hm' => ?_⟩
      · by_cases hi : i = m.thread
        · subst hi
          rw [hnext]
          exact hthread.2 r
        · rw [hs.frame hi]
          exact hthreads i
      · rcases List.mem_append.mp hm' with hm' | hm'
        · exact htrace m' hm'
        · rw [List.mem_singleton.mp hm', hevent]
          exact hthread.1

/-- What no other thread changes, a thread goes through as if it were alone. -/
theorem Run.alone {τ : Type} {view : σ → τ} {N : S.Op → Prop} {i : ι}
    (hview : ∀ s e s', N e.op → H s e s' → view s' = view s)
    (hothers : ∀ j, j ≠ i → Prog.AllOps N (P₀.threads j)) (hr : Run H P₀ tr P) :
    Prog.Reaches (Prog.seenThrough view H) (view P₀.shared) (P₀.threads i) (view P.shared)
      (P.threads i) := by
  have hops : ∀ j, Prog.AllOps (fun o => j ≠ i → N o) (P₀.threads j) := by
    intro j
    by_cases hj : j = i
    · exact Prog.allOps_of_forall fun _ h => absurd hj h
    · exact (hothers j hj).mono fun _ h _ => h
  induction hr with
  | nil => exact .refl
  | @snoc tr P P' m hr hs ih =>
      obtain ⟨o, k, r, hop, hevent, hnext⟩ := hs.inv
      have hstep := hs.semantics
      rw [hs.before_eq, hs.after_eq, hevent] at hstep
      by_cases hi : m.thread = i
      · subst hi
        refine ih.trans ?_
        rw [hop, hnext]
        exact .op ⟨_, _, rfl, rfl, hstep⟩ .refl
      · have hthread := (hr.allOps hops).1 m.thread
        rw [hop] at hthread
        rw [hs.frame (Ne.symm hi), hview _ _ _ (hthread.1 hi) hstep]
        exact ih

/-- A program that is run alone is a run of a pool with one thread. -/
theorem Run.of_exec {s s' : σ} {p : Prog S α} {es : List (Event S)} {a : α}
    (hx : Prog.Exec H s p es s' a) :
    ∃ tr, Run H ⟨s, fun _ : Unit => p⟩ tr ⟨s', fun _ => .ret a⟩ := by
  have hgo : ∀ {P₀ : Pool Unit σ S α} {tr : List (Moment Unit σ S)},
      Run H P₀ tr ⟨s, fun _ => p⟩ → ∃ tr, Run H P₀ tr ⟨s', fun _ => .ret a⟩ := by
    induction hx with
    | ret => exact fun hr => ⟨_, hr⟩
    | @op s s' s'' o k r es a hstep _ ih =>
        intro P₀ tr hr
        have hthreads : Function.update (fun _ : Unit => .op o k) () (k r) = fun _ => k r :=
          funext fun _ => Function.update_self ..
        have hnext := hr.next () rfl hstep rfl
        rw [hthreads] at hnext
        exact ih hnext
  exact hgo .nil

/-- The protocol state of thread `i` after a trace. -/
def phase (δ : ι → Prog.Protocol S Q) (q₀ : ι → Q) (i : ι) (tr : List (Moment ι σ S)) : Option Q :=
  (δ i).run (q₀ i) (eventsOf i tr)

/-- A step moves the protocol state of the thread that performs it, and of no
    other. -/
theorem phase_concat {δ : ι → Prog.Protocol S Q} {q₀ q : ι → Q} {q' : Q}
    (hq : ∀ i, phase δ q₀ i tr = some (q i)) (hm : δ m.thread (q m.thread) m.event = some q')
    (i : ι) : phase δ q₀ i (tr ++ [m]) = some (Function.update q m.thread q' i) := by
  unfold phase at hq ⊢
  by_cases hi : i = m.thread
  · subst hi
    rw [eventsOf_concat_self, Prog.Protocol.run_concat, hq, Function.update_self]
    exact hm
  · rw [eventsOf_concat_of_ne (Ne.symm hi), Function.update_of_ne hi]
    exact hq i

/-- A state that the moved thread is not in is that of another thread. -/
theorem of_update_eq {q : ι → Q} {i j : ι} {q' x : Q}
    (h : Function.update q i q' j = x) (hx : q' ≠ x) : q j = x := by
  by_cases hj : j = i
  · subst hj
    rw [Function.update_self] at h
    exact absurd h hx
  · rw [Function.update_of_ne hj] at h
    exact h

/-- The rule for interleavings.  Each thread follows its own protocol; the
    invariant relates the protocol states to the trace and the shared state,
    and each event its protocol allows keeps it.  Then the invariant holds
    after every run, for runs whose steps all satisfy `C`, and each thread
    goes on following its protocol. -/
theorem Run.coupled {δ : ι → Prog.Protocol S Q} {q₀ : ι → Q} {post : ι → α → Q → Prop}
    {C : List (Moment ι σ S) → Moment ι σ S → Prop}
    {I : (ι → Q) → List (Moment ι σ S) → σ → Prop}
    (hf : ∀ i, Prog.Follows (δ i) (q₀ i) (P₀.threads i) (post i)) (h0 : I q₀ [] P₀.shared)
    (hstep : ∀ q tr m q', (∀ i, phase δ q₀ i tr = some (q i)) → I q tr m.before → C tr m →
      δ m.thread (q m.thread) m.event = some q' → H m.before m.event m.after →
      I (Function.update q m.thread q') (tr ++ [m]) m.after)
    (hr : Run H P₀ tr P) (hC : Steps C tr) :
    ∃ q, (∀ i, phase δ q₀ i tr = some (q i)) ∧
      (∀ i, Prog.Follows (δ i) (q i) (P.threads i) (post i)) ∧ I q tr P.shared := by
  induction hr with
  | nil => exact ⟨q₀, fun _ => rfl, hf, h0⟩
  | @snoc tr P P' m hr hs ih =>
      obtain ⟨htr, hm⟩ := steps_concat.mp hC
      obtain ⟨q, hq, hfollows, hI⟩ := ih htr
      obtain ⟨o, k, r, hop, hev, hop'⟩ := hs.inv
      have hthread := hfollows m.thread
      rw [hop] at hthread
      obtain ⟨q', hq', hk⟩ := hthread r
      rw [← hev] at hq'
      rw [← hs.before_eq] at hI
      refine ⟨Function.update q m.thread q', phase_concat hq hq', fun i => ?_, ?_⟩
      · by_cases hi : i = m.thread
        · subst hi
          rw [Function.update_self, hop']
          exact hk
        · rw [Function.update_of_ne hi, hs.frame hi]
          exact hfollows i
      · rw [← hs.after_eq]
        exact hstep q tr m q' hq hI hm hq' hs.semantics

end Pool

end Spectty.Lib
