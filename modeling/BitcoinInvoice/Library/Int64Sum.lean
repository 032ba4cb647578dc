/-
# Sums of 64-bit signed integers

Addition of `Int64` wraps at `2^64`.  It is still commutative and associative,
so a list of them has a sum; `toInt_sum` compares that sum with the sum of the
integers they stand for, and `bmod_eq_add_iff` says when a sum may leave terms out.
-/

import Mathlib.Algebra.BigOperators.Group.List.Basic
import Mathlib.Algebra.Order.BigOperators.Group.List
import Mathlib.Tactic.NormNum

namespace Int64

instance addCommMonoid : AddCommMonoid Int64 where
  add_assoc := Int64.add_assoc
  zero_add := Int64.zero_add
  add_zero := Int64.add_zero
  add_comm := Int64.add_comm
  nsmul := nsmulRec

/-- The wrapped sum is the exact sum reduced into `[-2^63, 2^63)`: it does not matter at which
additions it has wrapped. -/
theorem toInt_sum (xs : List Int64) :
    xs.sum.toInt = ((xs.map Int64.toInt).sum).bmod (2 ^ 64) := by
  induction xs with
  | nil => rfl
  | cons x xs ih => simp [ih]

/-- A multiple of a number of 64 bits is the multiple of its value, wrapped once at the end. -/
theorem toInt_nsmul (n : ℕ) (x : Int64) : (n • x).toInt = (n * x.toInt).bmod (2 ^ 64) := by
  induction n with
  | zero => simp
  | succ n ih =>
      rw [succ_nsmul, toInt_add, ih]
      push_cast
      rw [Int.add_mul, Int.one_mul]
      simp

/-- A wrapped sum of multiples is the exact one, reduced; a term that counts several times need
not be added several times. -/
theorem toInt_sum_nsmul {α : Type*} (n : α → ℕ) (f : α → Int64) (xs : List α) :
    (xs.map fun x => n x • f x).sum.toInt =
      ((xs.map fun x => n x * (f x).toInt).sum).bmod (2 ^ 64) := by
  induction xs with
  | nil => rfl
  | cons x xs ih => simp [ih, toInt_nsmul]

/-- A sum that wraps is right about more terms exactly where the terms cancel out
modulo `2^64` and the whole fits. -/
theorem bmod_eq_add_iff {a b : ℤ} :
    a.bmod (2 ^ 64) = a + b ↔ (-2 ^ 63 ≤ a + b ∧ a + b < 2 ^ 63) ∧ 2 ^ 64 ∣ b := by
  constructor
  · intro h
    have hlow := Int.le_bmod (x := a) (m := 2 ^ 64) (by norm_num)
    have hupp := Int.bmod_lt (x := a) (m := 2 ^ 64) (by norm_num)
    have hdvd := Int.dvd_bmod_sub_self (x := a) (m := 2 ^ 64)
    rw [h] at hlow hupp hdvd
    refine ⟨⟨by omega, by omega⟩, ?_⟩
    rw [show a + b - a = b by omega] at hdvd
    exact_mod_cast hdvd
  · rintro ⟨⟨hlow, hupp⟩, k, rfl⟩
    rw [← Int.add_mul_bmod_self_left a (2 ^ 64) k]
    exact Int.bmod_eq_of_le (by omega) (by omega)

/-- A difference that is in range does not wrap. -/
theorem toInt_sub_of_bounds {a b : Int64} (h0 : -2 ^ 63 ≤ a.toInt - b.toInt)
    (h1 : a.toInt - b.toInt < 2 ^ 63) : (a - b).toInt = a.toInt - b.toInt := by
  rw [toInt_sub]
  exact Int.bmod_eq_of_le (by omega) (by omega)

end Int64
