/-
  Spectty.Lib.Atomic

  Operations that are implemented by several accesses, of which the last one counts.

  An implementation of an operation is `Atomic` when each of its accesses but the last
  leaves the abstract state as it is, and the last one does what the operation may do.
  Threads whose operations are implemented so do, in any interleaving of their
  accesses, what the threads over the operations do in some interleaving of these
  (`Run.refines`).
-/

import Spectty.Lib.Pool

namespace Spectty.Lib

variable {S T : Sig} {σ τ α ι : Type}

namespace Prog

section

variable (H : Semantics S σ) (K : Semantics T τ) (R : τ → σ → Prop)

/-- What is left of an implementation of `o`: it does not return without an access, and
    an access either keeps related states related and leaves the rest to do, or the
    program returns with it and the operation may do the same. -/
def Atomic (o : S.Op) : Prog T (S.Reply o) → Prop
  | .ret _ => False
  | .op e k => ∀ (r : T.Reply e) (t t' : τ) (s : σ), R t s → K t ⟨e, r⟩ t' →
      R t' s ∧ Atomic o (k r) ∨ ∃ v s', k r = .ret v ∧ H s ⟨o, v⟩ s' ∧ R t' s'

/-- What is left of an implemented program, next to what is left of the program: an
    operation stands there until its implementation has made the last access. -/
inductive Simulates (impl : (o : S.Op) → Prog T (S.Reply o)) : Prog T α → Prog S α → Prop
  | ret (a : α) : Simulates impl (.ret a) (.ret a)
  | op (o : S.Op) (k : S.Reply o → Prog S α) (c : Prog T (S.Reply o)) (hc : Atomic H K R o c) :
      Simulates impl (c >>= fun r => (k r).implement impl) (.op o k)

end

variable {H : Semantics S σ} {K : Semantics T τ} {R : τ → σ → Prop}
  {impl : (o : S.Op) → Prog T (S.Reply o)}

theorem implement_bind {β : Type} (p : Prog S α) (f : α → Prog S β) :
    (p >>= f).implement impl = p.implement impl >>= fun a => (f a).implement impl := by
  induction p with
  | ret a => rfl
  | op o k ih =>
      have hnext : ∀ r, (k r >>= f).implement impl =
          (k r).implement impl >>= fun a => (f a).implement impl := ih
      show (impl o >>= fun r => (k r >>= f).implement impl) =
        (impl o >>= fun r => (k r).implement impl) >>= fun a => (f a).implement impl
      rw [bind_assoc]
      exact congrArg (impl o >>= ·) (funext hnext)

/-- An operation that is one access. -/
theorem atomic_access {o : S.Op} {e : T.Op} {f : T.Reply e → S.Reply o}
    (h : ∀ r t t' s, R t s → K t ⟨e, r⟩ t' → ∃ s', H s ⟨o, f r⟩ s' ∧ R t' s') :
    Atomic H K R o (.op e fun r => .ret (f r)) := by
  intro r t t' s hR hK
  obtain ⟨s', hH, hR'⟩ := h r t t' s hR hK
  exact Or.inr ⟨f r, s', rfl, hH, hR'⟩

theorem simulates_implement (himpl : ∀ o, Atomic H K R o (impl o)) (p : Prog S α) :
    Simulates H K R impl (p.implement impl) p := by
  cases p with
  | ret a => exact .ret a
  | op o k => exact .op o k (impl o) (himpl o)

/-- What has returned stands for what has returned the same. -/
theorem Simulates.eq_ret {p : Prog S α} {a : α} (h : Simulates H K R impl (.ret a) p) :
    p = .ret a := by
  generalize hq : (.ret a : Prog T α) = q at h
  cases h with
  | ret b => cases hq; rfl
  | op o k c hc =>
      cases c with
      | ret v => exact absurd hc id
      | op e k' => cases hq

/-- An access of an implemented program is one within an operation, or an operation. -/
theorem Simulates.access (himpl : ∀ o, Atomic H K R o (impl o)) {e : T.Op}
    {k : T.Reply e → Prog T α} {p : Prog S α} {r : T.Reply e} {t t' : τ} {s : σ}
    (h : Simulates H K R impl (.op e k) p) (hR : R t s) (hK : K t ⟨e, r⟩ t') :
    R t' s ∧ Simulates H K R impl (k r) p ∨
      ∃ o k' v s', p = .op o k' ∧ H s ⟨o, v⟩ s' ∧ R t' s' ∧
        Simulates H K R impl (k r) (k' v) := by
  generalize hq : Prog.op e k = q at h
  cases h with
  | ret a => cases hq
  | op o k' c hc =>
      cases c with
      | ret v => exact absurd hc id
      | op e' rest =>
          cases hq
          rcases hc r t t' s hR hK with ⟨hR', hrest⟩ | ⟨v, s', hret, hH, hR'⟩
          · exact Or.inl ⟨hR', .op o k' (rest r) hrest⟩
          · refine Or.inr ⟨o, k', v, s', rfl, hH, hR', ?_⟩
            show Simulates H K R impl (rest r >>= fun r => (k' r).implement impl) (k' v)
            rw [hret]
            exact simulates_implement himpl (k' v)

end Prog

namespace Pool

variable [DecidableEq ι] {H : Prog.Semantics S σ} {K : Prog.Semantics T τ} {R : τ → σ → Prop}
  {impl : ι → (o : S.Op) → Prog T (S.Reply o)}

/-- The pool over the accesses and the pool over the operations, thread by thread. -/
structure Refines (H : Prog.Semantics S σ) (K : Prog.Semantics T τ) (R : τ → σ → Prop)
    (impl : ι → (o : S.Op) → Prog T (S.Reply o)) (P : Pool ι τ T α) (Q : Pool ι σ S α) :
    Prop where
  shared : R P.shared Q.shared
  threads : ∀ i, Prog.Simulates H K R (impl i) (P.threads i) (Q.threads i)

omit [DecidableEq ι] in
theorem Refines.implement (himpl : ∀ i o, Prog.Atomic H K R o (impl i o)) {t : τ} {s : σ}
    (hR : R t s) (threads : ι → Prog S α) :
    Refines H K R impl ⟨t, fun i => (threads i).implement (impl i)⟩ ⟨s, threads⟩ where
  shared := hR
  threads := fun i => Prog.simulates_implement (himpl i) (threads i)

/-- One access: nothing happens above, or the thread performs its operation. -/
theorem Refines.step (himpl : ∀ i o, Prog.Atomic H K R o (impl i o)) {P P' : Pool ι τ T α}
    {Q : Pool ι σ S α} {m : Moment ι τ T} (h : Refines H K R impl P Q) (hs : Step K P m P') :
    Refines H K R impl P' Q ∨
      ∃ m' Q', m'.thread = m.thread ∧ Step H Q m' Q' ∧ Refines H K R impl P' Q' := by
  cases hs with
  | @mk i e k r t' hop hK =>
      have hthread := h.threads i
      rw [hop] at hthread
      rcases hthread.access (himpl i) h.shared hK with
        ⟨hR', hsim⟩ | ⟨o, k', v, s', hp, hH, hR', hsim⟩
      · refine Or.inl ⟨hR', fun j => ?_⟩
        by_cases hj : j = i
        · subst hj
          simpa using hsim
        · simpa [Function.update_of_ne hj] using h.threads j
      · refine Or.inr ⟨_, _, rfl, .mk hp hH, hR', fun j => ?_⟩
        by_cases hj : j = i
        · subst hj
          simpa using hsim
        · simpa [Function.update_of_ne hj] using h.threads j

/-- Each interleaving of the accesses is one of the operations: with the same results,
    and with the operations in an order in which their threads made accesses. -/
theorem Run.refines (himpl : ∀ i o, Prog.Atomic H K R o (impl i o)) {P₀ P : Pool ι τ T α}
    {Q₀ : Pool ι σ S α} {tr : List (Moment ι τ T)} (h : Refines H K R impl P₀ Q₀)
    (hr : Run K P₀ tr P) :
    ∃ tr' Q, Run H Q₀ tr' Q ∧ Refines H K R impl P Q ∧
      (tr'.map (·.thread)).Sublist (tr.map (·.thread)) := by
  induction hr with
  | nil => exact ⟨[], Q₀, .nil, h, List.Sublist.refl _⟩
  | @snoc tr P P' m hr hs ih =>
      obtain ⟨tr', Q, hrun, hrefines, hsub⟩ := ih
      rw [List.map_append]
      rcases hrefines.step himpl hs with hrefines' | ⟨m', Q', hthread, hstep, hrefines'⟩
      · exact ⟨tr', Q, hrun, hrefines', hsub.trans (List.sublist_append_left _ _)⟩
      · have hlast : [m'].map (·.thread) = [m].map (·.thread) := congrArg (fun i => [i]) hthread
        refine ⟨tr' ++ [m'], Q', .snoc hrun hstep, hrefines', ?_⟩
        rw [List.map_append, hlast]
        exact hsub.append (List.Sublist.refl _)

end Pool

end Spectty.Lib
