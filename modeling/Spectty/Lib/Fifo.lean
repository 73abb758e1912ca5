/-
  Spectty.Lib.Fifo

  Buffers that take items in at the back and hand them out at the front, command
  by command.

  `Fifo.conserves` is the law of one command; `conserve` is the law of a
  run: what was held and what was taken in is what was handed out and what
  is held, in this order.
-/

import Spectty.Lib.Machine
import Mathlib.Data.List.Infix

namespace Spectty.Lib

/-- A buffer: what it holds, what a command takes in, and what it hands out in the
    state it finds. -/
structure Fifo (σ C α : Type) where
  step : σ → C → σ
  held : σ → List α
  input : C → List α
  output : σ → C → List α
  conserves : ∀ s c, held s ++ input c = output s c ++ held (step s c)

namespace Fifo

open Machine (run)

variable {σ C α : Type} (B : Fifo σ C α)

/-- What a sequence of commands takes in. -/
def inputs (cs : List C) : List α := cs.flatMap B.input

/-- What a sequence of commands hands out. -/
def outputs : σ → List C → List α
  | _, [] => []
  | s, c :: cs => B.output s c ++ outputs (B.step s c) cs

variable {B} {s : σ} {c : C} {cs pre : List C}

@[simp] theorem inputs_nil : B.inputs [] = [] := rfl

theorem inputs_append (cs cs' : List C) : B.inputs (cs ++ cs') = B.inputs cs ++ B.inputs cs' :=
  List.flatMap_append

theorem outputs_append (s : σ) (cs cs' : List C) :
    B.outputs s (cs ++ cs') = B.outputs s cs ++ B.outputs (run B.step s cs) cs' := by
  induction cs generalizing s with
  | nil => rfl
  | cons c cs ih => rw [List.cons_append, outputs, ih, outputs, List.append_assoc, Machine.run_cons]

theorem outputs_concat (s : σ) (cs : List C) (c : C) :
    B.outputs s (cs ++ [c]) = B.outputs s cs ++ B.output (run B.step s cs) c := by
  rw [outputs_append, outputs, outputs, List.append_nil]

/-- Nothing is lost, added or reordered. -/
theorem conserve (s : σ) (cs : List C) :
    B.held s ++ B.inputs cs = B.outputs s cs ++ B.held (run B.step s cs) := by
  induction cs generalizing s with
  | nil => rw [inputs_nil, List.append_nil, outputs, List.nil_append, Machine.run_nil]
  | cons c cs ih =>
      calc B.held s ++ B.inputs (c :: cs)
          = B.held s ++ B.input c ++ B.inputs cs := by
            rw [List.append_assoc]
            rfl
        _ = B.output s c ++ (B.held (B.step s c) ++ B.inputs cs) := by
            rw [B.conserves, List.append_assoc]
        _ = B.outputs s (c :: cs) ++ B.held (run B.step s (c :: cs)) := by
            rw [ih, outputs, List.append_assoc, Machine.run_cons]

/-- From an empty buffer, what was handed out is the beginning of what was taken
    in. -/
theorem outputs_isPrefix (h : B.held s = []) (cs : List C) : B.outputs s cs <+: B.inputs cs := by
  have hall := conserve (B := B) s cs
  rw [h, List.nil_append] at hall
  exact ⟨_, hall.symm⟩

/-- What the first commands took in has been handed out by the end of the run
    just when so much has been handed out. -/
theorem inputs_prefix_outputs_iff (h : B.held s = []) (hpre : pre <+: cs) :
    B.inputs pre <+: B.outputs s cs ↔ (B.inputs pre).length ≤ (B.outputs s cs).length := by
  refine ⟨List.IsPrefix.length_le, fun hlen => ?_⟩
  obtain ⟨post, rfl⟩ := hpre
  have hin : B.inputs pre <+: B.inputs (pre ++ post) := by
    rw [inputs_append]
    exact List.prefix_append _ _
  exact List.prefix_of_prefix_length_le hin (outputs_isPrefix h _) hlen

end Fifo

end Spectty.Lib
