/-
  Spectty.Lib.Machine

  A state that commands move, one at a time.  `Along P s cs` says that each
  command of a sequence satisfies `P` in the state it finds, and `Ever P s cs`
  that one does; `invariant` is the rule for properties that such commands
  keep.
-/

import Mathlib.Data.List.Induction

namespace Spectty.Lib.Machine

variable {σ C : Type} {step : σ → C → σ} {P : σ → C → Prop} {s : σ} {cs : List C} {c : C}

/-- The state after a sequence of commands. -/
def run (step : σ → C → σ) (s : σ) (cs : List C) : σ := cs.foldl step s

@[simp] theorem run_nil : run step s [] = s := rfl

@[simp] theorem run_cons : run step s (c :: cs) = run step (step s c) cs := rfl

@[simp] theorem run_concat : run step s (cs ++ [c]) = step (run step s cs) c := by
  simp [run]

theorem run_append (cs cs' : List C) : run step s (cs ++ cs') = run step (run step s cs) cs' :=
  List.foldl_append

/-- Each command satisfies `P` in the state it finds. -/
def Along (step : σ → C → σ) (P : σ → C → Prop) (s : σ) (cs : List C) : Prop :=
  ∀ pre c post, cs = pre ++ c :: post → P (run step s pre) c

theorem along_nil : Along step P s [] := by
  intro pre c post h
  simp at h

theorem Along.of_prefix {pre : List C} (h : Along step P s cs) (hpre : pre <+: cs) :
    Along step P s pre := by
  obtain ⟨rest, rfl⟩ := hpre
  intro pre' c post hsplit
  exact h pre' c (post ++ rest) (by rw [hsplit, List.append_assoc, List.cons_append])

theorem along_cons :
    Along step P s (c :: cs) ↔ P s c ∧ Along step P (step s c) cs := by
  constructor
  · intro h
    refine ⟨h [] c cs rfl, fun pre c' post hsplit => ?_⟩
    exact h (c :: pre) c' post (by rw [hsplit, List.cons_append])
  · rintro ⟨hc, hcs⟩ pre c' post hsplit
    cases pre with
    | nil =>
        obtain rfl := (List.cons.inj hsplit).1
        exact hc
    | cons x pre =>
        obtain ⟨rfl, hrest⟩ := List.cons.inj hsplit
        exact hcs pre c' post hrest

theorem along_concat :
    Along step P s (cs ++ [c]) ↔ Along step P s cs ∧ P (run step s cs) c := by
  constructor
  · intro h
    refine ⟨fun pre c' post hsplit => h pre c' (post ++ [c]) (by simp [hsplit]), ?_⟩
    exact h cs c [] rfl
  · rintro ⟨hcs, hc⟩ pre c' post hsplit
    induction post using List.reverseRecOn with
    | nil =>
        obtain ⟨rfl, hlast⟩ := List.append_inj' hsplit rfl
        obtain rfl := (List.cons.inj hlast).1
        exact hc
    | append_singleton post x _ =>
        rw [← List.cons_append, ← List.append_assoc] at hsplit
        exact hcs pre c' post (List.append_inj' hsplit rfl).1

/-- Some command satisfies `P` in the state it finds. -/
def Ever (step : σ → C → σ) (P : σ → C → Prop) (s : σ) (cs : List C) : Prop :=
  ∃ pre c post, cs = pre ++ c :: post ∧ P (run step s pre) c

theorem not_ever_nil : ¬ Ever step P s [] := by
  rintro ⟨pre, c, post, h, -⟩
  simp at h

theorem ever_iff_not_along : Ever step P s cs ↔ ¬ Along step (fun s c => ¬ P s c) s cs := by
  constructor
  · rintro ⟨pre, c, post, hsplit, hP⟩ hall
    exact hall pre c post hsplit hP
  · intro h
    by_contra hnone
    exact h fun pre c post hsplit hP => hnone ⟨pre, c, post, hsplit, hP⟩

theorem ever_concat :
    Ever step P s (cs ++ [c]) ↔ Ever step P s cs ∨ P (run step s cs) c := by
  rw [ever_iff_not_along, ever_iff_not_along, along_concat, not_and_or, not_not]

/-- What holds at the start and is kept by each command that satisfies `P`
    holds after every sequence of such commands. -/
theorem invariant {I : List C → σ → Prop} (h0 : I [] s)
    (hstep : ∀ cs c, P (run step s cs) c → I cs (run step s cs) →
      I (cs ++ [c]) (step (run step s cs) c))
    (h : Along step P s cs) : I cs (run step s cs) := by
  induction cs using List.reverseRecOn with
  | nil => exact h0
  | append_singleton cs c ih =>
      obtain ⟨hcs, hc⟩ := along_concat.mp h
      rw [run_concat]
      exact hstep cs c hc (ih hcs)

end Spectty.Lib.Machine
