/-
# How JavaScript prints a number

`Number.prototype.toString` looks for the fewest decimal digits that still denote the
number: an `s` of `k` digits with `s * 10 ^ (n - k)` rounding to it (`Shortest`).  So
what is printed of `x` is some numeral that rounds to `x`, and need not be the one `x`
came from.

For an amount of satoshis, divided by `10 ^ 8`, it is: up to `2 ^ 51` satoshis no other
amount rounds to the same number, and no shorter numeral does
(`Shortest.eq_of_satoshis`).
-/

import BitcoinInvoice.Go.Perturbed

namespace BitcoinInvoice
namespace Js

open Float64

/-- The `k` digits of `s`, with the point behind the first `n` of them, are read as `x`. -/
structure ReadsAs (s k : ℕ) (n : ℤ) (x : ℚ) : Prop where
  pos : 1 ≤ k
  low : 10 ^ (k - 1) ≤ s
  high : s < 10 ^ k
  value : Float64.round (s * 10 ^ (n - k)) = x

/-- They are as few as possible. -/
structure Shortest (s k : ℕ) (n : ℤ) (x : ℚ) : Prop extends ReadsAs s k n x where
  least : ∀ s' k' n', ReadsAs s' k' n' x → k ≤ k'

/-- `display` prints `x` with as few digits as possible. -/
def Prints (display : Float64 → String) (x : ℚ) : Prop :=
  ∃ (s k : ℕ) (n : ℤ), Shortest s k n x ∧
    parseDecimal (display (finite x)).toList = some ((s : ℚ) * 10 ^ (n - k))

/-- `round` has the relative error from below a satoshi on, so it bounds what dividing by a
hundred million does to any amount. -/
theorem perturbs_satoshi : Binary.Perturbs 53 (1 / 10 ^ 9) Float64.round := by
  refine (Binary.round_perturbs 53 (-1074)).mono ?_
  calc (2 : ℚ) ^ ((-1074 : ℤ) + ((53 : ℕ) - 1)) ≤ 2 ^ (-30 : ℤ) :=
        zpow_le_zpow_right₀ one_le_two (by norm_num)
    _ ≤ 1 / 10 ^ 9 := by norm_num

/-- **Two amounts that round to one number are close:** each is within half the spacing of the
format of it, which is a relative error. -/
theorem abs_sub_le_of_round_eq {d y : ℚ} (hd : 0 ≤ d) (hy : 1 / 10 ^ 8 ≤ y)
    (h : Float64.round d = Float64.round y) : |d - y| ≤ 3 * y / 2 ^ 53 := by
  have hery := abs_le.1 (perturbs_satoshi y (by norm_num at hy ⊢; linarith))
  have hlow : 1 / 10 ^ 9 ≤ d := by
    by_contra hlt
    have hmono := Float64.round_mono hd (not_le.1 hlt).le
    have herr := abs_le.1 (perturbs_satoshi (1 / 10 ^ 9) le_rfl)
    rw [h] at hmono
    norm_num at hery herr hy hmono
    linarith [hery.1, herr.2]
  have herd := abs_le.1 (perturbs_satoshi d hlow)
  rw [h] at herd
  rw [abs_le]
  norm_num at hery herd ⊢
  constructor <;> linarith [hery.1, hery.2, herd.1, herd.2]

/-- The digits of an amount read as it, so what is printed can be no longer than they are; this is
the competitor that a shortest numeral is measured against. -/
theorem readsAs_digits {m : ℕ} (hm : 0 < m) :
    ReadsAs m (Nat.log 10 m + 1) (Nat.log 10 m - 7) (Float64.round ((m : ℚ) / 10 ^ 8)) where
  pos := Nat.le_add_left ..
  low := Nat.pow_log_le_self 10 hm.ne'
  high := Nat.lt_pow_succ_log_self (by norm_num) m
  value := by
    congr 1
    rw [show ((Nat.log 10 m : ℤ) - 7 - ((Nat.log 10 m + 1 : ℕ) : ℤ)) = -8 by push_cast; ring]
    rw [zpow_neg, ← div_eq_mul_inv]
    norm_cast

/-- A power of ten is one digit, and so is what is printed of one satoshi, ten, and so on. -/
theorem readsAs_pow (n : ℤ) : ReadsAs 1 1 n (Float64.round (10 ^ (n - 1))) where
  pos := le_rfl
  low := le_rfl
  high := by norm_num
  value := by norm_num

section Satoshis

variable {s k m : ℕ} {n : ℤ}

/-- **The last digit printed is that of a satoshi or one before it.** A numeral that went on below
the satoshi would be longer than the digits of the amount, which read as the same number. -/
theorem Shortest.exponent_le (hm : 0 < m)
    (h : Shortest s k n (Float64.round ((m : ℚ) / 10 ^ 8))) : (k : ℤ) - 8 ≤ n := by
  have hk := h.least _ _ _ (readsAs_digits hm)
  by_contra hlt
  set l := Nat.log 10 m with hl
  have hnl : n ≤ l - 8 := by
    have : (k : ℤ) ≤ l + 1 := by exact_mod_cast hk
    omega
  -- the power of ten below the amount lies between the two numerals
  have hmlow : (10 : ℚ) ^ l ≤ m := by exact_mod_cast Nat.pow_log_le_self 10 hm.ne'
  have hmhigh : (m : ℚ) < 10 ^ (l + 1) := by
    exact_mod_cast Nat.lt_pow_succ_log_self (b := 10) (by norm_num) m
  have hp : (10 : ℚ) ^ ((l : ℤ) - 8) = 10 ^ l / 10 ^ 8 := by
    rw [zpow_sub₀ (by norm_num), zpow_natCast]
    norm_cast
  set p : ℚ := 10 ^ ((l : ℤ) - 8) with hpdef
  have hp0 : 0 < p := zpow_pos (by norm_num) _
  have hpy : p ≤ (m : ℚ) / 10 ^ 8 := by
    rw [hp]
    exact div_le_div_of_nonneg_right hmlow (by norm_num)
  have hyp : (m : ℚ) / 10 ^ 8 < 10 * p := by
    rw [hp, ← mul_div_assoc, ← pow_succ']
    exact div_lt_div_of_pos_right hmhigh (by norm_num)
  have hs0 : (0 : ℚ) ≤ s * 10 ^ (n - k) :=
    mul_nonneg (Nat.cast_nonneg s) (zpow_nonneg (by norm_num) _)
  have hdlt : (s : ℚ) * 10 ^ (n - k) < 10 ^ n := by
    have hs : (s : ℚ) < 10 ^ (k : ℤ) := by exact_mod_cast h.high
    calc (s : ℚ) * 10 ^ (n - k) < 10 ^ (k : ℤ) * 10 ^ (n - k) :=
          mul_lt_mul_of_pos_right hs (zpow_pos (by norm_num) _)
      _ = 10 ^ n := by
          rw [← zpow_add₀ (by norm_num)]
          congr 1
          ring
  have hdp : (s : ℚ) * 10 ^ (n - k) ≤ p :=
    hdlt.le.trans (zpow_le_zpow_right₀ (by norm_num) hnl)
  have hround : Float64.round p = Float64.round ((m : ℚ) / 10 ^ 8) :=
    le_antisymm (Float64.round_mono hp0.le hpy) (h.value ▸ Float64.round_mono hs0 hdp)
  -- so one digit is enough, and one digit below it is too far away
  have hone : ReadsAs 1 1 ((l : ℤ) - 7) (Float64.round ((m : ℚ) / 10 ^ 8)) := by
    have := readsAs_pow ((l : ℤ) - 7)
    rwa [show (l : ℤ) - 7 - 1 = l - 8 by ring, ← hpdef, hround] at this
  obtain rfl : k = 1 := le_antisymm (h.least _ _ _ hone) h.pos
  have hs9 : (s : ℚ) ≤ 9 := by
    have := h.high
    have : s ≤ 9 := by omega
    exact_mod_cast this
  have hd : (s : ℚ) * 10 ^ (n - (1 : ℕ)) ≤ 9 / 10 * p := by
    calc (s : ℚ) * 10 ^ (n - (1 : ℕ)) ≤ 9 * 10 ^ ((l : ℤ) - 8 - 1) :=
          mul_le_mul hs9 (zpow_le_zpow_right₀ (by norm_num) (by push_cast; omega))
            (zpow_nonneg (by norm_num) _) (by norm_num)
      _ = 9 / 10 * p := by
          rw [zpow_sub_one₀ (by norm_num), ← hpdef]
          ring
  have hy : 1 / 10 ^ 8 ≤ (m : ℚ) / 10 ^ 8 := by
    have : (1 : ℚ) ≤ m := by exact_mod_cast hm
    exact div_le_div_of_nonneg_right this (by norm_num)
  have hnear := abs_le.1 (abs_sub_le_of_round_eq hs0 hy h.value)
  norm_num at hnear
  linarith [hnear.1]

/-- **What is printed of an amount of satoshis is the amount.** Up to `2^51` two multiples of a
satoshi that round to one number are the same, so the division has lost nothing that the display
does not restore. -/
theorem Shortest.eq_of_satoshis (hm : 0 < m) (hle : m ≤ 2 ^ 51)
    (h : Shortest s k n (Float64.round ((m : ℚ) / 10 ^ 8))) :
    (s : ℚ) * 10 ^ (n - k) = m / 10 ^ 8 := by
  obtain ⟨e, he⟩ := Int.eq_ofNat_of_zero_le (by have := h.exponent_le hm; omega : 0 ≤ n - k + 8)
  have hd : (s : ℚ) * 10 ^ (n - k) = (s * 10 ^ e : ℕ) / 10 ^ 8 := by
    rw [show n - (k : ℤ) = e - 8 by omega, zpow_sub₀ (by norm_num), zpow_natCast, zpow_ofNat,
      ← mul_div_assoc, Nat.cast_mul, Nat.cast_pow, Nat.cast_ofNat]
  have hs0 : (0 : ℚ) ≤ s * 10 ^ (n - k) :=
    mul_nonneg (Nat.cast_nonneg s) (zpow_nonneg (by norm_num) _)
  have hm1 : (1 : ℚ) ≤ m := by exact_mod_cast hm
  have hmax : (m : ℚ) ≤ 2251799813685248 := by exact_mod_cast hle
  have hnear := abs_sub_le_of_round_eq hs0
    (div_le_div_of_nonneg_right hm1 (by norm_num : (0 : ℚ) ≤ 10 ^ 8)) h.value
  rw [hd, ← sub_div, abs_div, abs_of_pos (by norm_num : (0 : ℚ) < 10 ^ 8)] at hnear
  -- two whole numbers of satoshis less than one apart
  have hlt : |((s * 10 ^ e : ℕ) : ℚ) - m| < 1 := by
    have hbound : |((s * 10 ^ e : ℕ) : ℚ) - m| ≤ 3 * m / 2 ^ 53 := by
      rw [div_le_iff₀ (by norm_num)] at hnear
      refine hnear.trans (le_of_eq ?_)
      ring
    norm_num at hbound ⊢
    linarith
  have hint : |((s * 10 ^ e : ℕ) : ℤ) - m| < 1 := by exact_mod_cast hlt
  have heq : s * 10 ^ e = m := by
    rw [Int.abs_lt_one_iff] at hint
    omega
  rw [hd, heq]

end Satoshis

end Js
end BitcoinInvoice
