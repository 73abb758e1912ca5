/-
  Spectty.Lib.Serial

  Serial orders of threads.  A pool is serialized by an order of the threads
  that have returned when running them one after the other, each alone, gives
  the same results and the same shared state, and a thread that returned
  before another began comes first.

  `Run.serialized` is the rule for threads that take effect in their last
  step: every other step leaves the shared state, and the last one does what
  the whole thread would do, run alone at that moment.
-/

import Spectty.Lib.Pool

namespace Spectty.Lib

variable {ι σ α : Type} {S : Sig} [DecidableEq ι]

namespace Pool

variable {H : Prog.Semantics S σ} {P₀ P P' : Pool ι σ S α} {tr : List (Moment ι σ S)}
  {m : Moment ι σ S} {order : List (ι × α)}

/-- The threads of `order` run one after the other, each alone and to its
    end, with the given results. -/
inductive SerialRun (H : Prog.Semantics S σ) (threads : ι → Prog S α) :
    σ → List (ι × α) → σ → Prop where
  | nil {s : σ} : SerialRun H threads s [] s
  | snoc {s t t' : σ} {order : List (ι × α)} {i : ι} {es : List (Event S)} {a : α} :
      SerialRun H threads s order t → Prog.Exec H t (threads i) es t' a →
      SerialRun H threads s (order ++ [(i, a)]) t'

omit [DecidableEq ι] in
/-- The last thread of a serial run runs from where the others leave. -/
theorem serialRun_concat {threads : ι → Prog S α} {s s' : σ} {i : ι} {a : α}
    (h : SerialRun H threads s (order ++ [(i, a)]) s') :
    ∃ t es, SerialRun H threads s order t ∧ Prog.Exec H t (threads i) es s' a := by
  generalize hconcat : order ++ [(i, a)] = order' at h
  cases h with
  | nil => simp at hconcat
  | snoc hrest hx =>
      obtain ⟨rfl, hlast⟩ := List.append_inj' hconcat rfl
      obtain ⟨rfl, rfl⟩ := Prod.mk.inj (List.singleton_inj.mp hlast)
      exact ⟨_, _, hrest, hx⟩

/-- Thread `i` is through before thread `j` begins. -/
def Precedes (tr : List (Moment ι σ S)) (i j : ι) : Prop :=
  ∃ pre post, tr = pre ++ post ∧ (∀ m ∈ post, m.thread ≠ i) ∧ ∀ m ∈ pre, m.thread ≠ j

/-- The order serializes what the threads of `P₀` did up to `P`. -/
structure Serialized (H : Prog.Semantics S σ) (P₀ : Pool ι σ S α) (tr : List (Moment ι σ S))
    (P : Pool ι σ S α) (order : List (ι × α)) : Prop where
  /-- Run in this order, the threads leave the shared state of `P`. -/
  serial : SerialRun H P₀.threads P₀.shared order P.shared
  /-- Each thread runs once. -/
  nodup : (order.map Prod.fst).Nodup
  /-- The order is that of the threads that have returned, with their results. -/
  returned : ∀ i a, (i, a) ∈ order ↔ P.threads i = .ret a
  /-- The order keeps to the order of threads that do not overlap. -/
  realTime : ∀ i j a b, (i, a) ∈ order → (j, b) ∈ order → Precedes tr i j →
    [(i, a), (j, b)].Sublist order

/-- A step on the way of a thread. -/
def Quiet (P' : Pool ι σ S α) (m : Moment ι σ S) : Prop :=
  m.after = m.before ∧ ∀ a, P'.threads m.thread ≠ .ret a

/-- The last step of a thread, which does what the whole thread would. -/
def Commits (H : Prog.Semantics S σ) (P₀ P' : Pool ι σ S α) (m : Moment ι σ S) : Prop :=
  ∃ a es, P'.threads m.thread = .ret a ∧ Prog.Exec H m.before (P₀.threads m.thread) es m.after a

omit [DecidableEq ι] in
/-- A thread that precedes one of a longer trace, and another that has begun
    before. -/
theorem precedes_concat {i j : ι} (h : Precedes (tr ++ [m]) i j)
    (hj : ∃ m' ∈ tr ++ [m], m'.thread = j) : m.thread ≠ i ∧ Precedes tr i j := by
  obtain ⟨pre, post, hsplit, hpost, hpre⟩ := h
  induction post using List.reverseRecOn with
  | nil =>
      rw [List.append_nil] at hsplit
      obtain ⟨m', hm', hthread⟩ := hj
      exact absurd hthread (hpre m' (hsplit ▸ hm'))
  | append_singleton post m' _ =>
      rw [← List.append_assoc] at hsplit
      obtain ⟨rfl, hm⟩ := List.append_inj' hsplit rfl
      obtain rfl : m = m' := (List.cons.inj hm).1
      exact ⟨hpost m (by simp), pre, post, rfl, fun m' hm' => hpost m' (by simp [hm']), hpre⟩

/-- A thread that has returned has taken a step, if it had not returned at
    the start. -/
theorem Run.exists_step_of_ret {i : ι} {a : α} (hr : Run H P₀ tr P)
    (hstart : P₀.threads i ≠ .ret a) (hret : P.threads i = .ret a) :
    ∃ m ∈ tr, m.thread = i := by
  induction hr with
  | nil => exact absurd hret hstart
  | @snoc tr P P' m hr hs ih =>
      by_cases hi : i = m.thread
      · exact ⟨m, by simp, hi.symm⟩
      · rw [hs.frame hi] at hret
        obtain ⟨m', hm', hthread⟩ := ih hret
        exact ⟨m', by simp [hm'], hthread⟩

/-- A step on the way changes nothing of the order. -/
theorem Serialized.quiet (h : Serialized H P₀ tr P order) (hr : Run H P₀ tr P)
    (hstart : ∀ i a, P₀.threads i ≠ .ret a) (hs : Step H P m P') (hquiet : Quiet P' m) :
    Serialized H P₀ (tr ++ [m]) P' order := by
  have hreturned : ∀ i a, (i, a) ∈ order ↔ P'.threads i = .ret a := by
    intro i a
    rw [h.returned]
    by_cases hi : i = m.thread
    · obtain ⟨o, k, r, hop, -, -⟩ := hs.inv
      rw [hi, hop]
      exact iff_of_false (fun h => by cases h) (hquiet.2 a)
    · rw [hs.frame hi]
  refine ⟨?_, h.nodup, hreturned, ?_⟩
  · rw [← hs.after_eq, hquiet.1, hs.before_eq]
    exact h.serial
  · intro i j a b hi hj hprecedes
    have hstep : ∃ m' ∈ tr ++ [m], m'.thread = j :=
      (Run.snoc hr hs).exists_step_of_ret (hstart j b) ((hreturned j b).mp hj)
    exact h.realTime i j a b hi hj (precedes_concat hprecedes hstep).2

/-- A thread that commits comes last. -/
theorem Serialized.commit (h : Serialized H P₀ tr P order) (hr : Run H P₀ tr P)
    (hstart : ∀ i a, P₀.threads i ≠ .ret a) (hs : Step H P m P') {a : α} {es : List (Event S)}
    (hret : P'.threads m.thread = .ret a)
    (hx : Prog.Exec H m.before (P₀.threads m.thread) es m.after a) :
    Serialized H P₀ (tr ++ [m]) P' (order ++ [(m.thread, a)]) := by
  obtain ⟨o, k, r, hop, -, -⟩ := hs.inv
  have hnew : ∀ b, (m.thread, b) ∉ order := by
    intro b hb
    rw [h.returned, hop] at hb
    cases hb
  have hreturned : ∀ i b, (i, b) ∈ order ++ [(m.thread, a)] ↔ P'.threads i = .ret b := by
    intro i b
    rw [List.mem_append, List.mem_singleton, Prod.mk.injEq]
    by_cases hi : i = m.thread
    · subst hi
      rw [hret]
      constructor
      · rintro (hb | ⟨-, rfl⟩)
        · exact absurd hb (hnew b)
        · rfl
      · intro hb
        cases hb
        exact Or.inr ⟨rfl, rfl⟩
    · rw [hs.frame hi, h.returned]
      exact ⟨fun hb => hb.resolve_right fun hc => hi hc.1, Or.inl⟩
  constructor
  case serial =>
    rw [hs.before_eq, hs.after_eq] at hx
    exact .snoc h.serial hx
  case nodup =>
    rw [List.map_append, List.nodup_append]
    refine ⟨h.nodup, List.pairwise_singleton _ _, fun i hi j hj heq => ?_⟩
    obtain ⟨⟨i, b⟩, hb, rfl⟩ := List.mem_map.mp hi
    have hthread : i = m.thread := heq.trans (List.mem_singleton.mp hj)
    exact hnew b (hthread ▸ hb)
  case returned => exact hreturned
  case realTime =>
    intro i j b c hi hj hprecedes
    have hstep : ∃ m' ∈ tr ++ [m], m'.thread = j :=
      (Run.snoc hr hs).exists_step_of_ret (hstart j c) ((hreturned j c).mp hj)
    obtain ⟨hne, hbefore⟩ := precedes_concat hprecedes hstep
    have hi' : (i, b) ∈ order := by
      refine (List.mem_append.mp hi).resolve_right fun hlast => hne ?_
      exact (Prod.mk.inj (List.mem_singleton.mp hlast)).1.symm
    rcases List.mem_append.mp hj with hj | hj
    · exact (h.realTime i j b c hi' hj hbefore).trans (List.sublist_append_left _ _)
    · rw [List.mem_singleton.mp hj]
      exact (List.singleton_sublist.mpr hi').append (List.Sublist.refl _)

/-- Threads that take effect in their last step are serialized in the order
    in which they return. -/
theorem Run.serialized (hr : Run H P₀ tr P) (hstart : ∀ i a, P₀.threads i ≠ .ret a)
    (heffect : ∀ pre m post P P', tr = pre ++ m :: post → Run H P₀ pre P → Step H P m P' →
      Quiet P' m ∨ Commits H P₀ P' m) :
    ∃ order, Serialized H P₀ tr P order := by
  induction hr with
  | nil =>
      refine ⟨[], .nil, List.nodup_nil, fun i a => ?_, ?_⟩
      · exact iff_of_false List.not_mem_nil (hstart i a)
      · intro i j a b hi
        cases hi
  | @snoc tr P P' m hr hs ih =>
      obtain ⟨order, h⟩ := ih fun pre m' post P₁ P₂ hsplit =>
        heffect pre m' (post ++ [m]) P₁ P₂ (by rw [hsplit]; simp)
      rcases heffect tr m [] P P' rfl hr hs with hquiet | ⟨a, es, hret, hx⟩
      · exact ⟨order, h.quiet hr hstart hs hquiet⟩
      · exact ⟨_, h.commit hr hstart hs hret hx⟩

end Pool

end Spectty.Lib
