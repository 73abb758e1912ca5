/-
  Spectty.Lib.Prog

  Programs over a signature of effects.  A program is a finite tree: it
  either returns, or performs one operation and continues with the reply.
  The same tree is read in three ways:

  - `Prog.interp` runs it alone, through a deterministic handler;
  - `Prog.Exec` runs it alone, through any semantics of the operations
    (failing operations, lost replies);
  - `Pool` (`Spectty.Lib.Pool`) interleaves it with other programs, one
    operation at a time.

  `Prog.Follows` is the bridge to invariants: a program follows a protocol
  when each operation it performs, with any reply, is a step of the
  protocol.
-/

import Mathlib.Logic.Function.Basic

namespace Spectty.Lib

/-- The operations a program may perform, with the type of each reply. -/
structure Sig where
  Op : Type
  Reply : Op → Type

/-- One performed operation together with its reply. -/
structure Event (S : Sig) where
  op : S.Op
  reply : S.Reply op

/-- A program over `S` returning an `α`. -/
inductive Prog (S : Sig) (α : Type) where
  | ret (a : α)
  | op (o : S.Op) (k : S.Reply o → Prog S α)

variable {S : Sig} {α β γ σ Q : Type}

namespace Prog

-- ============================================================================
-- The monad
-- ============================================================================

/-- Sequencing: continue with `f` where the program returns. -/
def bind : Prog S α → (α → Prog S β) → Prog S β
  | ret a, f => f a
  | op o k, f => op o fun r => (k r).bind f

instance : Monad (Prog S) where
  pure := ret
  bind := bind

@[simp] theorem pure_eq (a : α) : (pure a : Prog S α) = ret a := rfl

@[simp] theorem ret_bind (a : α) (f : α → Prog S β) : (ret a >>= f) = f a := rfl

@[simp] theorem op_bind (o : S.Op) (k : S.Reply o → Prog S α) (f : α → Prog S β) :
    (op o k >>= f) = op o fun r => k r >>= f := rfl

theorem bind_ret (p : Prog S α) : (p >>= ret) = p := by
  induction p with
  | ret a => rfl
  | op o k ih =>
      rw [op_bind]
      exact congrArg (op o) (funext ih)

theorem bind_assoc (p : Prog S α) (f : α → Prog S β) (g : β → Prog S γ) :
    ((p >>= f) >>= g) = p >>= fun a => f a >>= g := by
  induction p with
  | ret a => rfl
  | op o k ih =>
      simp only [op_bind]
      exact congrArg (op o) (funext ih)

instance : LawfulMonad (Prog S) :=
  LawfulMonad.mk' (Prog S) bind_ret (fun _ _ => rfl) bind_assoc

-- ============================================================================
-- Running alone
-- ============================================================================

/-- How each operation acts on a state, when it acts in one way only. -/
abbrev Handler (S : Sig) (σ : Type) := (o : S.Op) → σ → S.Reply o × σ

/-- How each operation may act on a state: the state before, the operation
    with its reply, the state after. -/
abbrev Semantics (S : Sig) (σ : Type) := σ → Event S → σ → Prop

/-- Run a program from a state through a handler. -/
def interp (h : Handler S σ) : Prog S α → σ → α × σ
  | ret a, s => (a, s)
  | op o k, s => interp h (k (h o s).1) (h o s).2

@[simp] theorem interp_ret (h : Handler S σ) (a : α) (s : σ) :
    interp h (ret a) s = (a, s) := rfl

@[simp] theorem interp_op (h : Handler S σ) (o : S.Op) (k : S.Reply o → Prog S α) (s : σ) :
    interp h (op o k) s = interp h (k (h o s).1) (h o s).2 := rfl

theorem interp_bind (h : Handler S σ) (p : Prog S α) (f : α → Prog S β) (s : σ) :
    interp h (p >>= f) s = interp h (f (interp h p s).1) (interp h p s).2 := by
  induction p generalizing s with
  | ret a => rfl
  | op o k ih => exact ih (h o s).1 (h o s).2

/-- `Exec H s p es s' a`: run alone from `s`, the program `p` performs the
    events `es`, returns `a` and leaves `s'`. -/
inductive Exec (H : Semantics S σ) : σ → Prog S α → List (Event S) → σ → α → Prop where
  | ret {s : σ} {a : α} : Exec H s (.ret a) [] s a
  | op {s s' s'' : σ} {o : S.Op} {k : S.Reply o → Prog S α} {r : S.Reply o}
      {es : List (Event S)} {a : α} :
      H s ⟨o, r⟩ s' → Exec H s' (k r) es s'' a → Exec H s (.op o k) (⟨o, r⟩ :: es) s'' a

/-- Executing a sequence is executing its first part and then the rest. -/
theorem exec_bind {H : Semantics S σ} {s s' : σ} {p : Prog S α} {f : α → Prog S β}
    {es : List (Event S)} {b : β} (hx : Exec H s (p >>= f) es s' b) :
    ∃ es₁ es₂ t a, es = es₁ ++ es₂ ∧ Exec H s p es₁ t a ∧ Exec H t (f a) es₂ s' b := by
  induction p generalizing s es with
  | ret a => exact ⟨[], es, s, a, rfl, .ret, hx⟩
  | op o k ih =>
      rw [op_bind] at hx
      cases hx with
      | op hstep hrest =>
          obtain ⟨es₁, es₂, t, a, rfl, h₁, h₂⟩ := ih _ hrest
          exact ⟨_ :: es₁, es₂, t, a, rfl, .op hstep h₁, h₂⟩

/-- `Reaches H s p s' p'`: from `s`, the program `p` gets to state `s'` with
    `p'` left to do. -/
inductive Reaches (H : Semantics S σ) : σ → Prog S α → σ → Prog S α → Prop where
  | refl {s : σ} {p : Prog S α} : Reaches H s p s p
  | op {s s' s'' : σ} {o : S.Op} {k : S.Reply o → Prog S α} {r : S.Reply o} {p : Prog S α} :
      H s ⟨o, r⟩ s' → Reaches H s' (k r) s'' p → Reaches H s (.op o k) s'' p

/-- A run to the end reaches the returned program. -/
theorem Exec.reaches {H : Semantics S σ} {s s' : σ} {p : Prog S α} {es : List (Event S)} {a : α}
    (hx : Exec H s p es s' a) : Reaches H s p s' (.ret a) := by
  induction hx with
  | ret => exact .refl
  | op hstep _ ih => exact .op hstep ih

/-- What a program reaches, a sequence that starts with it reaches. -/
theorem Reaches.bind {H : Semantics S σ} {s s' : σ} {p p' : Prog S α} (hr : Reaches H s p s' p')
    (f : α → Prog S β) : Reaches H s (p >>= f) s' (p' >>= f) := by
  induction hr with
  | refl => exact .refl
  | op hstep _ ih => exact .op hstep ih

theorem Reaches.trans {H : Semantics S σ} {s s' s'' : σ} {p p' p'' : Prog S α}
    (h₁ : Reaches H s p s' p') (h₂ : Reaches H s' p' s'' p'') : Reaches H s p s'' p'' := by
  induction h₁ with
  | refl => exact h₂
  | op hstep _ ih => exact .op hstep (ih h₂)

theorem Reaches.mono {H H' : Semantics S σ} {s s' : σ} {p p' : Prog S α} (hr : Reaches H s p s' p')
    (h : ∀ s e s', H s e s' → H' s e s') : Reaches H' s p s' p' := by
  induction hr with
  | refl => exact .refl
  | op hstep _ ih => exact .op (h _ _ _ hstep) ih

/-- A program that reaches its end was run to it. -/
theorem Reaches.exec {H : Semantics S σ} {s s' : σ} {p : Prog S α} {a : α}
    (hr : Reaches H s p s' (.ret a)) : ∃ es, Exec H s p es s' a := by
  generalize hq : (.ret a : Prog S α) = q at hr
  induction hr with
  | refl => exact ⟨[], hq ▸ .ret⟩
  | op hstep _ ih =>
      obtain ⟨es, hx⟩ := ih hq
      exact ⟨_ :: es, .op hstep hx⟩

/-- A run through a handler is an execution where the semantics admits it. -/
theorem exec_interp {H : Semantics S σ} {h : Handler S σ}
    (hH : ∀ o s, H s ⟨o, (h o s).1⟩ (h o s).2) (p : Prog S α) (s : σ) :
    ∃ es, Exec H s p es (interp h p s).2 (interp h p s).1 := by
  induction p generalizing s with
  | ret a => exact ⟨[], .ret⟩
  | op o k ih =>
      obtain ⟨es, hx⟩ := ih (h o s).1 (h o s).2
      exact ⟨_ :: es, .op (hH o s) hx⟩

/-- Where every operation can be performed, every program can be run to its
    end. -/
theorem exists_reaches_ret {H : Semantics S σ} (h : Handler S σ)
    (hH : ∀ o s, H s ⟨o, (h o s).1⟩ (h o s).2) (p : Prog S α) (s : σ) :
    ∃ s' a, Reaches H s p s' (.ret a) := by
  obtain ⟨es, hx⟩ := exec_interp hH p s
  exact ⟨_, _, hx.reaches⟩

/-- A semantics, seen through a part of the state. -/
def seenThrough {τ : Type} (view : σ → τ) (H : Semantics S σ) : Semantics S τ :=
  fun t e t' => ∃ s s', view s = t ∧ view s' = t' ∧ H s e s'

theorem Exec.seenThrough {τ : Type} {H : Semantics S σ} {s s' : σ} {p : Prog S α}
    {es : List (Event S)} {a : α} (view : σ → τ) (hx : Exec H s p es s' a) :
    Exec (Prog.seenThrough view H) (view s) p es (view s') a := by
  induction hx with
  | ret => exact .ret
  | op hstep _ ih => exact .op ⟨_, _, rfl, rfl, hstep⟩ ih

/-- `Performs p es q`: with the replies in `es`, the program `p` performs these
    events and has `q` left to do. -/
inductive Performs : Prog S α → List (Event S) → Prog S α → Prop where
  | refl {p : Prog S α} : Performs p [] p
  | op {o : S.Op} {k : S.Reply o → Prog S α} {r : S.Reply o} {es : List (Event S)}
      {q : Prog S α} : Performs (k r) es q → Performs (.op o k) (⟨o, r⟩ :: es) q

theorem Performs.concat {p : Prog S α} {es : List (Event S)} {o : S.Op}
    {k : S.Reply o → Prog S α} (hp : Performs p es (.op o k)) (r : S.Reply o) :
    Performs p (es ++ [⟨o, r⟩]) (k r) := by
  generalize hq : Prog.op o k = q at hp
  induction hp with
  | refl => exact hq ▸ .op .refl
  | op _ ih => exact .op (ih hq)

/-- Every operation the program may come to perform satisfies `P`. -/
def AllOps (P : S.Op → Prop) : Prog S α → Prop
  | ret _ => True
  | op o k => P o ∧ ∀ r, AllOps P (k r)

theorem AllOps.bind {P : S.Op → Prop} {p : Prog S α} {f : α → Prog S β}
    (hp : AllOps P p) (hf : ∀ a, AllOps P (f a)) : AllOps P (p >>= f) := by
  induction p with
  | ret a => exact hf a
  | op o k ih => exact ⟨hp.1, fun r => ih r (hp.2 r)⟩

theorem AllOps.mono {P P' : S.Op → Prop} {p : Prog S α} (hp : AllOps P p)
    (h : ∀ o, P o → P' o) : AllOps P' p := by
  induction p with
  | ret a => trivial
  | op o k ih => exact ⟨h o hp.1, fun r => ih r (hp.2 r)⟩

theorem allOps_of_forall {P : S.Op → Prop} {p : Prog S α} (h : ∀ o, P o) : AllOps P p := by
  induction p with
  | ret a => trivial
  | op o k ih => exact ⟨h o, ih⟩

/-- A program performs only operations it may perform. -/
theorem AllOps.exec {H : Semantics S σ} {P : S.Op → Prop} {s s' : σ} {p : Prog S α}
    {es : List (Event S)} {a : α} (hp : AllOps P p) (hx : Exec H s p es s' a) :
    ∀ e ∈ es, P e.op := by
  induction hx with
  | ret => simp
  | op _ _ ih =>
      intro e he
      rcases List.mem_cons.mp he with rfl | he
      · exact hp.1
      · exact ih (hp.2 _) e he

/-- An invariant that each admitted operation keeps holds in every state the
    program reaches. -/
theorem Reaches.invariant {H : Semantics S σ} {P : S.Op → Prop} {I : σ → Prop}
    (hI : ∀ s o r s', P o → I s → H s ⟨o, r⟩ s' → I s')
    {s s' : σ} {p p' : Prog S α} (hr : Reaches H s p s' p') (hp : AllOps P p) (hs : I s) :
    I s' := by
  induction hr with
  | refl => exact hs
  | op hstep _ ih => exact ih (hp.2 _) (hI _ _ _ _ hp.1 hs hstep)

/-- From a state, `p` keeps `I` at every point of every run, and returns only
    where `post` holds. -/
def Keeps (H : Semantics S σ) (I : σ → Prop) (post : α → σ → Prop) : Prog S α → σ → Prop
  | ret a, s => I s ∧ post a s
  | op o k, s => I s ∧ ∀ r s', H s ⟨o, r⟩ s' → Keeps H I post (k r) s'

theorem Keeps.here {H : Semantics S σ} {I : σ → Prop} {post : α → σ → Prop} {p : Prog S α} {s : σ}
    (hk : Keeps H I post p s) : I s := by
  cases p with
  | ret a => exact hk.1
  | op o k => exact hk.1

theorem Keeps.mono {H : Semantics S σ} {I : σ → Prop} {post post' : α → σ → Prop} {p : Prog S α}
    {s : σ} (hk : Keeps H I post p s) (h : ∀ a s, post a s → post' a s) :
    Keeps H I post' p s := by
  induction p generalizing s with
  | ret a => exact ⟨hk.1, h a s hk.2⟩
  | op o k ih => exact ⟨hk.1, fun r s' hstep => ih r (hk.2 r s' hstep)⟩

/-- What a program keeps holds in every state it reaches. -/
theorem Keeps.reaches {H : Semantics S σ} {I : σ → Prop} {post : α → σ → Prop} {p p' : Prog S α}
    {s s' : σ} (hk : Keeps H I post p s) (hr : Reaches H s p s' p') : I s' := by
  induction hr with
  | refl => exact hk.here
  | op hstep _ ih => exact ih (hk.2 _ _ hstep)

/-- A sequence keeps what its first part keeps, and the rest from where that
    returns. -/
theorem Keeps.bind {H : Semantics S σ} {I : σ → Prop} {mid : α → σ → Prop} {post : β → σ → Prop}
    {p : Prog S α} {f : α → Prog S β} {s : σ} (hp : Keeps H I mid p s)
    (hf : ∀ a s, mid a s → Keeps H I post (f a) s) : Keeps H I post (p >>= f) s := by
  induction p generalizing s with
  | ret a => exact hf a s hp.2
  | op o k ih => exact ⟨hp.1, fun r s' hstep => ih r (hp.2 r s' hstep)⟩

-- ============================================================================
-- Implementing a signature
-- ============================================================================

/-- Perform each operation by a program over another signature. -/
def implement {T : Sig} (impl : (o : S.Op) → Prog T (S.Reply o)) : Prog S α → Prog T α
  | ret a => ret a
  | op o k => (impl o).bind fun r => (k r).implement impl

/-- Where the implementation of each operation, run alone, does what the
    operation may do, an implemented program does what the program may do. -/
theorem exec_implement {T : Sig} {τ : Type} {H : Semantics S σ} {K : Semantics T τ}
    {impl : (o : S.Op) → Prog T (S.Reply o)} {P : S.Op → Prop} {R : σ → τ → Prop}
    (himpl : ∀ o s t es t' r, P o → R s t → Exec K t (impl o) es t' r →
      ∃ s', H s ⟨o, r⟩ s' ∧ R s' t')
    {p : Prog S α} {s : σ} {t t' : τ} {es : List (Event T)} {a : α} (hp : AllOps P p)
    (hR : R s t) (hx : Exec K t (p.implement impl) es t' a) :
    ∃ es' s', Exec H s p es' s' a ∧ R s' t' := by
  induction p generalizing s t es with
  | ret b =>
      cases hx
      exact ⟨[], s, .ret, hR⟩
  | op o k ih =>
      obtain ⟨es₁, es₂, t₁, r, -, hfirst, hrest⟩ := exec_bind hx
      obtain ⟨s₁, hstep, hR₁⟩ := himpl o s t es₁ t₁ r hp.1 hR hfirst
      obtain ⟨es', s', hx', hR'⟩ := ih r (hp.2 r) hR₁ hrest
      exact ⟨_ :: es', s', .op hstep hx', hR'⟩

-- ============================================================================
-- Protocols
-- ============================================================================

/-- A protocol: how each event moves its state, `none` where the event is not
    allowed. -/
abbrev Protocol (S : Sig) (Q : Type) := Q → Event S → Option Q

/-- The protocol's state after a list of events. -/
def Protocol.run (δ : Protocol S Q) (q : Q) (es : List (Event S)) : Option Q :=
  es.foldlM δ q

@[simp] theorem Protocol.run_nil (δ : Protocol S Q) (q : Q) : δ.run q [] = some q := rfl

theorem Protocol.run_concat (δ : Protocol S Q) (q : Q) (es : List (Event S)) (e : Event S) :
    δ.run q (es ++ [e]) = (δ.run q es).bind (δ · e) := by
  simp [Protocol.run]

/-- `Follows δ q p post`: from protocol state `q`, whatever the replies, each
    operation of `p` is a step of `δ`, and `p` returns an `a` in a protocol
    state `q'` only with `post a q'`. -/
def Follows (δ : Protocol S Q) (q : Q) (p : Prog S α) (post : α → Q → Prop) : Prop :=
  match p with
  | ret a => post a q
  | op o k => ∀ r, ∃ q', δ q ⟨o, r⟩ = some q' ∧ Follows δ q' (k r) post

variable {δ : Protocol S Q} {q : Q}

@[simp] theorem follows_ret {a : α} {post : α → Q → Prop} :
    Follows δ q (.ret a) post ↔ post a q := Iff.rfl

@[simp] theorem follows_op {o : S.Op} {k : S.Reply o → Prog S α} {post : α → Q → Prop} :
    Follows δ q (.op o k) post ↔
      ∀ r, ∃ q', δ q ⟨o, r⟩ = some q' ∧ Follows δ q' (k r) post := Iff.rfl

theorem Follows.mono {p : Prog S α} {post post' : α → Q → Prop} (hp : Follows δ q p post)
    (h : ∀ a q', post a q' → post' a q') : Follows δ q p post' := by
  induction p generalizing q with
  | ret a => exact h a q hp
  | op o k ih =>
      intro r
      obtain ⟨q', hq', hk⟩ := hp r
      exact ⟨q', hq', ih r hk⟩

theorem Follows.bind {p : Prog S α} {f : α → Prog S β} {mid : α → Q → Prop}
    {post : β → Q → Prop} (hp : Follows δ q p mid)
    (hf : ∀ a q', mid a q' → Follows δ q' (f a) post) : Follows δ q (p >>= f) post := by
  induction p generalizing q with
  | ret a => exact hf a q hp
  | op o k ih =>
      intro r
      obtain ⟨q', hq', hk⟩ := hp r
      exact ⟨q', hq', ih r hk⟩

/-- A program follows the protocol that admits the operations it may
    perform, and stays where it is. -/
theorem AllOps.follows {P : S.Op → Bool} {p : Prog S α} (hp : AllOps (P · = true) p) (q : Q) :
    Follows (fun q e => if P e.op then some q else none) q p fun _ q' => q' = q := by
  induction p with
  | ret a => rfl
  | op o k ih =>
      intro r
      exact ⟨q, if_pos hp.1, ih r (hp.2 r)⟩

/-- Every program follows the protocol that admits everything. -/
theorem follows_any (p : Prog S α) (q : Q) :
    Follows (fun q _ => some q) q p fun _ _ => True := by
  induction p with
  | ret a => trivial
  | op o k ih => exact fun r => ⟨q, rfl, ih r⟩

end Prog

end Spectty.Lib
