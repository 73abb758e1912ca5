/-
  Spectty.Lib.Kv

  A key-to-latest-content store behind an unreliable connection.

  A read answers the stored content or fails; a failed read changes nothing.
  A write stores the content and succeeds, or fails, and then it may or may
  not have been stored (the reply can be lost after the store was updated).
-/

import Mathlib.Logic.Function.Basic

namespace Spectty.Lib.Kv

/-- The latest content under each key. -/
abbrev Store (K V : Type) := K → Option V

variable {K V E : Type} {s s' : Store K V} {k j : K} {v : V}

/-- A read of `k` in `s` may answer `r`. -/
def Get (s : Store K V) (k : K) (r : Except E (Option V)) : Prop :=
  ∀ v, r = .ok v → v = s k

theorem Get.ok {v : Option V} (h : Get s k (.ok v : Except E (Option V))) : v = s k :=
  h v rfl

theorem get_latest : Get s k (.ok (s k) : Except E (Option V)) := by
  intro v hv
  cases hv
  rfl

theorem get_error (e : E) : Get s k (.error e) := by
  intro v hv
  cases hv

variable [DecidableEq K]

/-- The store after a write took effect. -/
def write (s : Store K V) (k : K) (v : V) : Store K V := Function.update s k (some v)

@[simp] theorem write_same : write s k v k = some v := Function.update_self ..

@[simp] theorem write_other (h : j ≠ k) : write s k v j = s j := Function.update_of_ne h ..

/-- A write of `v` under `k` may answer `r` and leave `s'`. -/
def Put (s : Store K V) (k : K) (v : V) (r : Except E Unit) (s' : Store K V) : Prop :=
  s' = write s k v ∨ s' = s ∧ ∃ e, r = .error e

theorem put_stored (r : Except E Unit) : Put s k v r (write s k v) := Or.inl rfl

theorem put_refused (e : E) : Put s k v (.error e) s := Or.inr ⟨rfl, e, rfl⟩

/-- A write that succeeds is stored. -/
theorem Put.ok (h : Put s k v (.ok () : Except E Unit) s') : s' = write s k v := by
  rcases h with h | ⟨-, e, he⟩
  · exact h
  · cases he

/-- A write leaves the other keys as they are. -/
theorem Put.other {r : Except E Unit} (h : Put s k v r s') (hj : j ≠ k) : s' j = s j := by
  rcases h with rfl | ⟨rfl, -⟩
  · exact write_other hj
  · rfl

end Spectty.Lib.Kv
