/-
# Floating operations with a relative error

`Float64` rounds the exact result of each operation to the nearest number.  Here the
rounding is a parameter `fl`, of which only the relative error is used
(`Binary.Perturbs`): what is shown holds for every floating arithmetic that is precise
enough, and at `Float64.round` the operations are those of `Float64` (`mulWith_round`,
`divWith_round`).

An amount of cents that goes to dollars and back is less than half a cent off
(`abs_scaled_sub_lt`), and so is the amount in dollars itself (`abs_dollars_sub_lt`).
-/

import BitcoinInvoice.Go.Float64

namespace BitcoinInvoice
namespace Float64

/-- The result of an operation whose exact result is `x`. -/
def ofRatWith (fl : ℚ → ℚ) (x : ℚ) : Float64 :=
  if 2 ^ 1024 ≤ |fl x| then inf (decide (x < 0)) else finite (fl x)

def mulWith (fl : ℚ → ℚ) : Float64 → Float64 → Float64
  | finite a, finite b => ofRatWith fl (a * b)
  | finite a, inf t => if a = 0 then nan else inf (decide (a < 0) != t)
  | inf s, finite b => if b = 0 then nan else inf (s != decide (b < 0))
  | inf s, inf t => inf (s != t)
  | nan, _ | _, nan => nan

def divWith (fl : ℚ → ℚ) : Float64 → Float64 → Float64
  | finite a, finite b =>
      if b = 0 then if a = 0 then nan else inf (decide (a < 0)) else ofRatWith fl (a / b)
  | finite _, inf _ => finite 0
  | inf s, finite b => inf (s != decide (b < 0))
  | inf _, inf _ => nan
  | nan, _ | _, nan => nan

/-- With the rounding of `float64` the quotient is that of the machine, so what is proved of any
rounding with the relative error holds of it. -/
theorem divWith_round (x y : Float64) : divWith round x y = div x y := by
  cases x <;> cases y <;> rfl

/-- `round` has the relative error `2^(-53)` from a hundredth on, which is a cent in dollars: the
subnormal numbers, where it would not, are far below. -/
theorem perturbs_round : Binary.Perturbs 53 (1 / 100) round := by
  refine (Binary.round_perturbs 53 (-1074)).mono ?_
  calc (2 : ℚ) ^ ((-1074 : ℤ) + ((53 : ℕ) - 1)) ≤ 2 ^ (-7 : ℤ) :=
        zpow_le_zpow_right₀ one_le_two (by norm_num)
    _ ≤ 1 / 100 := by norm_num

section Cents

variable {fl : ℚ → ℚ}

/-- No overflow up to `2^100`: with the relative error a result stays far below the largest number
of the format. -/
theorem ofRatWith_eq_finite (hfl : Binary.Perturbs 53 (1 / 100) fl) {x : ℚ} (hlow : 1 / 100 ≤ x)
    (hx : x ≤ 2 ^ 100) : ofRatWith fl x = finite (fl x) := by
  have herr := abs_le.1 (hfl x hlow)
  have hsmall : x / 2 ^ 53 ≤ x := div_le_self (by linarith) (by norm_num)
  have hbound : |fl x| < 2 ^ 102 := by
    rw [abs_lt]
    constructor <;> norm_num at hx ⊢ <;> linarith [herr.1, herr.2]
  have hmax : (2 : ℚ) ^ 102 ≤ 2 ^ 1024 := pow_le_pow_right₀ one_le_two (by norm_num)
  exact if_neg (not_le.2 (hbound.trans_le hmax))

variable {c : ℚ}

/-- **An amount in dollars** is less than half a cent from the cents it is made of. -/
theorem abs_dollars_sub_lt (hfl : Binary.Perturbs 53 (1 / 100) fl) (hpos : 1 ≤ c)
    (hle : c ≤ 2 ^ 31) : |fl (c / 100) * 100 - c| < 1 / 2 := by
  have herr := abs_le.1 (hfl (c / 100) (by linarith))
  rw [abs_lt]
  constructor <;> norm_num at herr hle ⊢ <;> linarith [herr.1, herr.2]

/-- At least a cent, in dollars, is rounded to at least half a cent, so the product that follows
is not too small for the relative error either. -/
theorem le_dollars (hfl : Binary.Perturbs 53 (1 / 100) fl) (hpos : 1 ≤ c) :
    1 / 200 ≤ fl (c / 100) := by
  have herr := abs_le.1 (hfl (c / 100) (by linarith))
  norm_num at herr ⊢
  linarith [herr.1]

/-- Dollars of at most `2^31` cents are rounded to something far below the end of the range. -/
theorem dollars_le (hfl : Binary.Perturbs 53 (1 / 100) fl) (hpos : 1 ≤ c) (hle : c ≤ 2 ^ 31) :
    fl (c / 100) ≤ 2 ^ 31 := by
  have hnear := abs_lt.1 (abs_dollars_sub_lt hfl hpos hle)
  norm_num at hle ⊢
  linarith [hnear.2]

/-- The conversion of cents to dollars does not overflow, for all the cents that an `int32` can
hold. -/
theorem ofRatWith_dollars (hfl : Binary.Perturbs 53 (1 / 100) fl) (hpos : 1 ≤ c)
    (hle : c ≤ 2 ^ 31) : ofRatWith fl (c / 100) = finite (fl (c / 100)) := by
  refine ofRatWith_eq_finite hfl (by linarith) ?_
  norm_num at hle ⊢
  linarith

/-- Nor does the conversion of the rounded dollars back to cents, whose error is that of two
roundings. -/
theorem ofRatWith_scaled (hfl : Binary.Perturbs 53 (1 / 100) fl) (hpos : 1 ≤ c)
    (hle : c ≤ 2 ^ 31) :
    ofRatWith fl (fl (c / 100) * 100) = finite (fl (fl (c / 100) * 100)) := by
  have hlow := le_dollars hfl hpos
  have hhigh := dollars_le hfl hpos hle
  refine ofRatWith_eq_finite hfl (by linarith) ?_
  norm_num at hhigh ⊢
  linarith

/-- **To dollars and back** takes an amount less than half a cent away: two relative errors of
`2^(-53)` on at most `2^31` cents. So rounding to the nearest cent finds it again. -/
theorem abs_scaled_sub_lt (hfl : Binary.Perturbs 53 (1 / 100) fl) (hpos : 1 ≤ c)
    (hle : c ≤ 2 ^ 31) : |fl (fl (c / 100) * 100) - c| < 1 / 2 := by
  have hlow := le_dollars hfl hpos
  have hdollars := abs_le.1 (hfl (c / 100) (by linarith))
  have hscaled := abs_le.1 (hfl (fl (c / 100) * 100) (by linarith))
  rw [abs_lt]
  constructor <;> norm_num at hdollars hscaled hle ⊢ <;>
    linarith [hdollars.1, hdollars.2, hscaled.1, hscaled.2]

end Cents

end Float64
end BitcoinInvoice
