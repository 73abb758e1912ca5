/-
  Spectty.Lib.Decimal

  Decimal numerals padded with zeros to one width: as texts they are ordered
  as the numbers are.
-/

import Mathlib.Data.String.Basic

namespace Spectty.Lib.Decimal

/-- The decimal digits of a number, padded with zeros to `width`. -/
def padded (width n : Nat) : List Char :=
  List.replicate (width - (Nat.toDigits 10 n).length) '0' ++ Nat.toDigits 10 n

variable {width n m : Nat}

theorem isDigit_of_mem_padded {c : Char} (h : c ∈ padded width n) : c.isDigit = true := by
  rcases List.mem_append.mp h with h | h
  · rw [(List.mem_replicate.mp h).2]
    rfl
  · exact Nat.isDigit_of_mem_toDigits (by decide) (by decide) h

theorem length_padded (h : n < 10 ^ width) (hwidth : 0 < width) :
    (padded width n).length = width := by
  have hlen := (Nat.length_toDigits_le_iff (b := 10) (by decide) hwidth).mpr h
  rw [padded, List.length_append, List.length_replicate]
  omega

/-- The value of a padded numeral is the number. -/
theorem ofDigitChars_padded : Nat.ofDigitChars 10 (padded width n) 0 = n := by
  rw [padded, Nat.ofDigitChars_append, Nat.ofDigitChars_replicate_zero, Nat.mul_zero,
    Nat.ofDigitChars_ten_toDigits]

/-- Digit lists of one length are ordered as their values are, after the
    values of what stands before them. -/
theorem ofDigitChars_lt_iff {xs ys : List Char} (hlen : xs.length = ys.length)
    (hxs : ∀ c ∈ xs, c.isDigit = true) (hys : ∀ c ∈ ys, c.isDigit = true) (a b : Nat) :
    Nat.ofDigitChars 10 xs a < Nat.ofDigitChars 10 ys b ↔ a < b ∨ a = b ∧ xs < ys := by
  induction xs generalizing ys a b with
  | nil =>
      obtain rfl : ys = [] := List.eq_nil_of_length_eq_zero hlen.symm
      simp
  | cons x xs ih =>
      cases ys with
      | nil => cases hlen
      | cons y ys =>
          have hx := Char.isDigit_iff_toNat.mp (hxs x List.mem_cons_self)
          have hy := Char.isDigit_iff_toNat.mp (hys y List.mem_cons_self)
          have hchar : x < y ↔ x.toNat < y.toNat := Iff.rfl
          have heq : x = y ↔ x.toNat = y.toNat := Char.toNat_inj.symm
          rw [Nat.ofDigitChars_cons, Nat.ofDigitChars_cons,
            ih (Nat.succ.inj hlen) (fun c hc => hxs c (List.mem_cons_of_mem _ hc))
              (fun c hc => hys c (List.mem_cons_of_mem _ hc)),
            List.cons_lt_cons_iff, hchar, heq]
          have hzero : '0'.toNat = 48 := rfl
          have hnine : '9'.toNat = 57 := rfl
          by_cases hlt : xs < ys
          · simp only [hlt, and_true]
            omega
          · simp only [hlt, and_false, or_false]
            omega

/-- Padded numerals are ordered as the numbers are. -/
theorem padded_lt_iff (hn : n < 10 ^ width) (hm : m < 10 ^ width) (hwidth : 0 < width) :
    padded width n < padded width m ↔ n < m := by
  have hlen : (padded width n).length = (padded width m).length := by
    rw [length_padded hn hwidth, length_padded hm hwidth]
  have hlt := ofDigitChars_lt_iff hlen (fun _ => isDigit_of_mem_padded)
    (fun _ => isDigit_of_mem_padded) 0 0
  rw [ofDigitChars_padded, ofDigitChars_padded] at hlt
  rw [hlt]
  simp

end Spectty.Lib.Decimal
