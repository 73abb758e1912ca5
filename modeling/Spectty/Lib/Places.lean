/-
  Spectty.Lib.Places

  Programs over one of many places: each operation names the place it is done at.

  Where what is done at one place is not seen at the others, a pool whose threads
  each keep to one place is as many pools side by side, one for each place:
  whatever the interleaving, what happens at a place is a run of its own
  threads (`Run.component`).
-/

import Spectty.Lib.Pool

namespace Spectty.Lib

variable {S : Sig} {A B α β ι σ τ : Type}

/-- The operations of `S`, each at a place. -/
abbrev Sig.at (S : Sig) (A : Type) : Sig where
  Op := A × S.Op
  Reply := fun o => S.Reply o.2

namespace Prog

/-- A program at the place `a`, which returns `f` of its result. -/
def placed (a : A) (f : α → β) : Prog S α → Prog (S.at A) β
  | ret x => ret (f x)
  | op o k => op (a, o) fun r => (k r).placed a f

/-- A result that is passed on is renamed twice. -/
theorem placed_bind_ret {γ : Type} (a : A) (f : α → β) (g : β → γ) (p : Prog S α) :
    (p >>= fun x => ret (f x)).placed a g = p.placed a fun x => g (f x) := by
  induction p with
  | ret x => rfl
  | op o k ih => exact congrArg (fun rest => (op (a, o) rest : Prog (S.at A) γ)) (funext ih)

/-- The semantics `K` of operations at places does `H` at the place of each `b`, and
    leaves what is seen of the others. -/
structure Local (K : Semantics (S.at A) τ) (H : Semantics S σ) (place : B → A)
    (view : B → τ → σ) : Prop where
  here : ∀ b o r t t', K t ⟨(place b, o), r⟩ t' → H (view b t) ⟨o, r⟩ (view b t')
  elsewhere : ∀ b c o r t t', K t ⟨(place b, o), r⟩ t' → c ≠ b → view c t' = view c t

end Prog

namespace Pool

variable [DecidableEq ι] [DecidableEq B]

section

variable (view : B → τ → σ) (b : B)

/-- A moment of a thread of `b`, as it is seen there. -/
def momentAt (m : Moment (B × ι) τ (S.at A)) : Option (Moment ι σ S) :=
  if m.thread.1 = b then
    some ⟨m.thread.2, ⟨m.event.op.2, m.event.reply⟩, view b m.before, view b m.after⟩
  else none

/-- The moments of the threads of `b`. -/
def component (tr : List (Moment (B × ι) τ (S.at A))) : List (Moment ι σ S) :=
  tr.filterMap (momentAt view b)

end

variable {K : Prog.Semantics (S.at A) τ} {H : Prog.Semantics S σ} {place : B → A}
  {view : B → τ → σ} {b : B} {f : ι → α → β} {P₀ P P' : Pool (B × ι) τ (S.at A) β}
  {Q₀ Q : Pool ι σ S α} {tr : List (Moment (B × ι) τ (S.at A))} {m : Moment (B × ι) τ (S.at A)}

omit [DecidableEq ι] in
theorem component_concat : component view b (tr ++ [m]) =
    component view b tr ++ (momentAt view b m).toList := by
  unfold component
  cases h : momentAt view b m <;> simp [h]

/-- The part of a pool that keeps to the place of `b`. -/
structure Component (place : B → A) (view : B → τ → σ) (b : B) (f : ι → α → β)
    (P : Pool (B × ι) τ (S.at A) β) (Q : Pool ι σ S α) : Prop where
  shared : Q.shared = view b P.shared
  threads : ∀ i, P.threads (b, i) = (Q.threads i).placed (place b) (f i)

/-- A step of another component is not seen. -/
theorem Component.elsewhere (hlocal : Prog.Local K H place view)
    (h : Component place view b f P Q) {c : B} {i : ι} {p : Prog S α} {f' : α → β}
    (hthread : m.thread = (c, i)) (hp : P.threads (c, i) = p.placed (place c) f') (hc : c ≠ b)
    (hs : Step K P m P') : Component place view b f P' Q := by
  have hframe : ∀ j, (b, j) ≠ m.thread := by
    intro j hj
    rw [hthread] at hj
    exact hc (congrArg Prod.fst hj).symm
  refine ⟨?_, fun j => (hs.frame (hframe j)).trans (h.threads j)⟩
  cases hs with
  | @mk k o rest r t' hop hK =>
      obtain rfl : k = (c, i) := hthread
      rw [hop] at hp
      cases p with
      | ret x => cases hp
      | op o' rest' =>
          cases hp
          exact h.shared.trans (hlocal.elsewhere c b o' r _ _ hK (Ne.symm hc)).symm

/-- A step of the component is a step of its own pool. -/
theorem Component.here (hlocal : Prog.Local K H place view)
    (h : Component place view b f P Q) {i : ι} (hthread : m.thread = (b, i))
    (hs : Step K P m P') :
    ∃ m' Q', momentAt view b m = some m' ∧ Step H Q m' Q' ∧
      Component place view b f P' Q' := by
  obtain ⟨shared, threads⟩ := Q
  obtain rfl : shared = view b P.shared := h.shared
  cases hs with
  | @mk k o rest r t' hop hK =>
      obtain rfl : k = (b, i) := hthread
      have hp := h.threads i
      rw [hop] at hp
      cases hthread : threads i with
      | ret x =>
          simp only [hthread] at hp
          cases hp
      | op o' rest' =>
          simp only [hthread] at hp
          cases hp
          refine ⟨_, _, if_pos rfl, .mk hthread (hlocal.here b o' r _ _ hK), rfl, fun j => ?_⟩
          by_cases hj : j = i
          · subst hj
            simp only [Function.update_self]
          · have hne : (b, j) ≠ (b, i) := fun heq => hj (congrArg Prod.snd heq)
            simp only [Function.update_of_ne hj, Function.update_of_ne hne]
            exact h.threads j

/-- Each thread keeps to its place, and the threads of a place are a pool of their own:
    in any interleaving, what happens at a place is a run of that pool. -/
theorem Run.component (hlocal : Prog.Local K H place view) {Q₀ : B → Pool ι σ S α}
    {f : B → ι → α → β} (h : ∀ b, Component place view b (f b) P₀ (Q₀ b)) (hr : Run K P₀ tr P) :
    ∀ b, ∃ Q, Run H (Q₀ b) (component view b tr) Q ∧ Component place view b (f b) P Q := by
  induction hr with
  | nil => exact fun b => ⟨Q₀ b, .nil, h b⟩
  | @snoc tr P P' m hr hs ih =>
      intro b
      obtain ⟨Q, hrun, hcomponent⟩ := ih b
      rw [component_concat]
      by_cases hb : m.thread.1 = b
      · obtain ⟨m', Q', hm, hstep, hcomponent'⟩ :=
          hcomponent.here hlocal (i := m.thread.2) (by rw [← hb]) hs
        rw [hm]
        exact ⟨Q', .snoc hrun hstep, hcomponent'⟩
      · obtain ⟨Q'', -, hother⟩ := ih m.thread.1
        have hnone : momentAt (S := S) view b m = none := if_neg hb
        rw [hnone, Option.toList_none, List.append_nil]
        exact ⟨Q, hrun, hcomponent.elsewhere hlocal rfl (hother.threads m.thread.2) hb hs⟩

end Pool

end Spectty.Lib
