/-
# The two percent tolerance

`allowedInterval := (int64)(float64(amountToPay) * allowedIntervalPercentage)` of
`CheckInvoice`.  The constant `0.02` is not a `float64`, and the one nearest to it
is a little larger (`fiftieth_bounds`); the amount is rounded to a `float64`, and so
is the product.  Up to `2^53` satoshis, more than four times the coins there will
ever be, the result is still a fiftieth of the amount rounded down
(`allowedInterval_toInt`): the fraction of a fiftieth is at most `49/50`, and
neither the excess of the constant nor the rounding of the product closes the
last fiftieth.  Beyond, it stays below the amount (`allowedInterval_lt`).
-/

import BitcoinInvoice.Api.Models

namespace BitcoinInvoice

/-- `allowedIntervalPercentage`: within 2% of payment. -/
def allowedIntervalPercentage : Float64 := Float64.ofRat (2 / 100)

/-- `allowedInterval`.  The conversion is always in range
(`allowedInterval_eq`), so the implementation has no choice to make. -/
def allowedInterval (amountToPay : Int64) : Int64 :=
  ((Float64.ofRat amountToPay.toInt).mul allowedIntervalPercentage).toInt64 fun _ => 0

/-- The `float64` nearest to `0.02`. -/
def fiftieth : ℚ := 5764607523034235 / 2 ^ 58

/-- The constant 0.02 of the source is rounded to the nearest `float64`, which is a dyadic
fraction. -/
theorem round_fiftieth : Float64.round (2 / 100) = fiftieth := by decide +kernel

/-- This `float64` lies above a fiftieth, by no more than `2^-61`, so a product with it is never
too small. -/
theorem fiftieth_bounds : 1 / 50 ≤ fiftieth ∧ fiftieth ≤ 1 / 50 + 1 / 2 ^ 61 := by
  norm_num [fiftieth]

/-- The percentage of the handler is this `float64`. -/
theorem allowedIntervalPercentage_eq : allowedIntervalPercentage = .finite fiftieth := by
  have h : |Float64.round (2 / 100)| < 2 ^ 64 := by
    rw [round_fiftieth]
    norm_num [fiftieth]
  rw [allowedIntervalPercentage, Float64.ofRat_eq_finite h, round_fiftieth]

/-- The product before the last rounding. -/
def twoPercent (amount : ℤ) : ℚ := Float64.round amount * fiftieth

/-- An amount of 64 bits is converted to `float64` with an error of at most `2^10`, half the
distance of the numbers near `2^63`. -/
theorem abs_round_amount_sub_le (a : Int64) : |Float64.round a.toInt - a.toInt| ≤ 2 ^ 10 := by
  have h1 := a.le_toInt
  have h2 := a.toInt_lt
  have habs : |(a.toInt : ℚ)| < 2 ^ (64 : ℤ) := by
    rw [abs_lt]
    norm_cast
    constructor <;> omega
  exact_mod_cast Float64.abs_round_sub_le habs (by norm_num)

/-- Two percent of any amount of 64 bits stay below `2^58`, far from the end of the range. -/
theorem abs_twoPercent_lt (a : Int64) : |twoPercent a.toInt| < 2 ^ (58 : ℤ) := by
  have h1 : (-2 ^ 63 : ℚ) ≤ a.toInt := by exact_mod_cast a.le_toInt
  have h2 : (a.toInt : ℚ) < 2 ^ 63 := by exact_mod_cast a.toInt_lt
  have herr := abs_le.1 (abs_round_amount_sub_le a)
  have hround : |Float64.round a.toInt| ≤ 2 ^ 63 + 2 ^ 10 := by
    rw [abs_le]
    constructor <;> linarith [herr.1, herr.2]
  have hc : |fiftieth| = fiftieth := by
    refine abs_of_nonneg ?_
    linarith [fiftieth_bounds.1]
  rw [twoPercent, abs_mul, hc]
  calc |Float64.round a.toInt| * fiftieth ≤ (2 ^ 63 + 2 ^ 10) * (1 / 50 + 1 / 2 ^ 61) := by
        refine mul_le_mul hround fiftieth_bounds.2 ?_ (by norm_num)
        linarith [fiftieth_bounds.1]
    _ < 2 ^ (58 : ℤ) := by norm_num

/-- The product is rounded by at most 16, half the distance of the numbers near `2^58`, as a
fiftieth of an `int64` stays below that. -/
theorem abs_round_twoPercent_sub_le (a : Int64) :
    |Float64.round (twoPercent a.toInt) - twoPercent a.toInt| ≤ 16 := by
  have h := Float64.abs_round_sub_le (abs_twoPercent_lt a) (by norm_num)
  norm_num at h
  exact h

/-- **The conversion of `allowedInterval` is in range** for every amount, so its result does not
depend on the machine. -/
theorem toInt64_twoPercent (convert : Float64 → Int64) (a : Int64) :
    ((Float64.ofRat a.toInt).mul allowedIntervalPercentage).toInt64 convert =
      Int64.ofInt (Float64.trunc (Float64.round (twoPercent a.toInt))) := by
  have h1 : (-2 ^ 63 : ℚ) ≤ a.toInt := by exact_mod_cast a.le_toInt
  have h2 : (a.toInt : ℚ) < 2 ^ 63 := by exact_mod_cast a.toInt_lt
  have herr := abs_le.1 (abs_round_amount_sub_le a)
  have hamount : |Float64.round a.toInt| < 2 ^ 64 := by
    rw [abs_lt]
    constructor <;> linarith [herr.1, herr.2]
  have hlt := abs_lt.1 (abs_twoPercent_lt a)
  have herr' := abs_le.1 (abs_round_twoPercent_sub_le a)
  have hproduct : |Float64.round (twoPercent a.toInt)| < 2 ^ 63 := by
    norm_num at hlt
    rw [abs_lt]
    constructor <;> linarith [herr'.1, herr'.2, hlt.1, hlt.2]
  have hmul : Float64.ofRat (Float64.round a.toInt * fiftieth) =
      .finite (Float64.round (twoPercent a.toInt)) :=
    Float64.ofRat_eq_finite (hproduct.trans (by norm_num))
  rw [allowedIntervalPercentage_eq, Float64.ofRat_eq_finite hamount, Float64.mul, hmul,
    Float64.toInt64_of_abs_lt hproduct]

/-- The conversion of the product to an integer is in range, so what the machine does out of
range makes no difference. -/
theorem allowedInterval_eq (convert : Float64 → Int64) (a : Int64) :
    allowedInterval a =
      ((Float64.ofRat a.toInt).mul allowedIntervalPercentage).toInt64 convert := by
  rw [toInt64_twoPercent]
  exact toInt64_twoPercent _ a

/-- The tolerance is the product of the two roundings, truncated: in this form its error is a
matter of rational numbers. -/
theorem allowedInterval_toInt_eq_trunc (a : Int64) :
    (allowedInterval a).toInt = Float64.trunc (Float64.round (twoPercent a.toInt)) := by
  have hlt := abs_lt.1 (abs_twoPercent_lt a)
  have herr := abs_le.1 (abs_round_twoPercent_sub_le a)
  have habs : |(Float64.trunc (Float64.round (twoPercent a.toInt)) : ℚ)| < 2 ^ 62 := by
    refine (Float64.abs_trunc_le _).trans_lt ?_
    norm_num at hlt
    rw [abs_lt]
    constructor <;> linarith [herr.1, herr.2, hlt.1, hlt.2]
  have h1 : -2 ^ 62 < Float64.trunc (Float64.round (twoPercent a.toInt)) := by
    exact_mod_cast (abs_lt.1 habs).1
  have h2 : Float64.trunc (Float64.round (twoPercent a.toInt)) < 2 ^ 62 := by
    exact_mod_cast (abs_lt.1 habs).2
  rw [allowedInterval, toInt64_twoPercent]
  exact Int64.toInt_ofInt_of_le (by omega) (by omega)

/-- Up to `2^53` satoshis the exact product lies in `[k, k + 0.984)`, where `k` is the
fiftieth rounded down. -/
theorem twoPercent_bounds {a : Int64} (h0 : 0 ≤ a.toInt) (h1 : a.toInt ≤ 2 ^ 53) :
    ((a.toInt / 50 : ℤ) : ℚ) ≤ twoPercent a.toInt ∧
      twoPercent a.toInt ≤ (a.toInt / 50 : ℤ) + 49 / 50 + 1 / 2 ^ 8 := by
  have hround : Float64.round a.toInt = a.toInt := by
    refine Float64.round_intCast ?_
    rw [abs_of_nonneg h0]
    exact h1
  have ha : (0 : ℚ) ≤ a.toInt := by exact_mod_cast h0
  have ha' : (a.toInt : ℚ) ≤ 2 ^ 53 := by exact_mod_cast h1
  have hq := Int.mul_ediv_add_emod a.toInt 50
  have hr := Int.emod_lt_of_pos a.toInt (by norm_num : (0 : ℤ) < 50)
  have hr0 := Int.emod_nonneg a.toInt (by norm_num : (50 : ℤ) ≠ 0)
  have hk : (50 : ℚ) * (a.toInt / 50 : ℤ) ≤ a.toInt := by exact_mod_cast (by omega)
  have hk' : (a.toInt : ℚ) ≤ 50 * (a.toInt / 50 : ℤ) + 49 := by exact_mod_cast (by omega)
  rw [twoPercent, hround]
  constructor
  · nlinarith [fiftieth_bounds.1]
  · have hmul : (a.toInt : ℚ) * fiftieth ≤ a.toInt * (1 / 50 + 1 / 2 ^ 61) :=
      mul_le_mul_of_nonneg_left fiftieth_bounds.2 ha
    norm_num at hmul ha' ⊢
    linarith

/-- **Up to `2^53` satoshis the tolerance is a fiftieth, rounded down.** The amount is exact as a
float64, and the product exceeds the fiftieth by too little to reach the next integer. -/
theorem allowedInterval_toInt {a : Int64} (h0 : 0 ≤ a.toInt) (h1 : a.toInt ≤ 2 ^ 53) :
    (allowedInterval a).toInt = a.toInt / 50 := by
  obtain ⟨hlow, hhigh⟩ := twoPercent_bounds h0 h1
  have hk0 : (0 : ℚ) ≤ (a.toInt / 50 : ℤ) := by exact_mod_cast (by omega)
  have hk1 : ((a.toInt / 50 : ℤ) : ℚ) ≤ 2 ^ 53 / 50 := by
    rw [le_div_iff₀ (by norm_num)]
    exact_mod_cast (by omega)
  have hpos : 0 ≤ twoPercent a.toInt := hk0.trans hlow
  have hsmall : |twoPercent a.toInt| < 2 ^ (48 : ℤ) := by
    rw [abs_of_nonneg hpos]
    norm_num at hk1 hhigh ⊢
    linarith
  have herr := (abs_le.1 (Float64.abs_round_sub_le hsmall (by norm_num))).2
  rw [allowedInterval_toInt_eq_trunc, Float64.trunc_of_nonneg (Float64.round_nonneg hpos),
    Int.floor_eq_iff]
  constructor
  · have hfix : Float64.round (a.toInt / 50 : ℤ) = (a.toInt / 50 : ℤ) :=
      Float64.round_intCast (by rw [abs_of_nonneg (by omega)]; omega)
    rw [← hfix]
    exact Float64.round_mono hk0 hlow
  · norm_num at herr hhigh
    linarith

/-- **The two percent tolerance is exact:** up to the number of satoshis there will ever
be, neither the constant nor the product gains or loses one by its rounding.  The choice
of the implementation for a conversion that does not fit is never called for. -/
theorem allowedInterval_exact {d : ℤ} (h0 : 0 ≤ d) (h1 : d ≤ 21 * 10 ^ 14)
    (convert : Float64 → Int64) :
    Float64.trunc (Float64.round (d * Float64.round (2 / 100))) = ⌊(d : ℚ) / 50⌋ ∧
      (allowedInterval (Int64.ofInt d)).toInt = ⌊(d : ℚ) / 50⌋ ∧
      ((Float64.ofRat (Int64.ofInt d).toInt).mul allowedIntervalPercentage).toInt64 convert =
        allowedInterval (Int64.ofInt d) := by
  have hd : (Int64.ofInt d).toInt = d := Int64.toInt_ofInt_of_le (by omega) (by omega)
  have hfloor : ⌊(d : ℚ) / 50⌋ = d / 50 := Rat.floor_intCast_div_natCast d 50
  have htolerance : (allowedInterval (Int64.ofInt d)).toInt = d / 50 := by
    rw [allowedInterval_toInt (by omega) (by omega), hd]
  have hround : Float64.round d = d := Float64.round_intCast (by rw [abs_of_nonneg h0]; omega)
  have hproduct : twoPercent (Int64.ofInt d).toInt = d * Float64.round (2 / 100) := by
    rw [twoPercent, hd, hround, round_fiftieth]
  refine ⟨?_, htolerance.trans hfloor.symm, (allowedInterval_eq convert _).symm⟩
  rw [← hproduct, ← allowedInterval_toInt_eq_trunc, htolerance, hfloor]

/-- One satoshi short of all the coins, the furthest remainder above a multiple of 50. -/
theorem allowedInterval_exact_allCoins :
    Float64.trunc (Float64.round ((2099999999999999 : ℤ) * Float64.round (2 / 100))) =
        ⌊((2099999999999999 : ℤ) : ℚ) / 50⌋ ∧
      (allowedInterval (Int64.ofInt 2099999999999999)).toInt =
        ⌊((2099999999999999 : ℤ) : ℚ) / 50⌋ ∧
      ((Float64.ofRat (Int64.ofInt 2099999999999999).toInt).mul
          allowedIntervalPercentage).toInt64 (fun _ => 0) =
        allowedInterval (Int64.ofInt 2099999999999999) :=
  allowedInterval_exact (by norm_num) (by norm_num) fun _ => 0

/-- The tolerance of an amount that is not negative is not negative, so the band of paid amounts
holds the amount itself. -/
theorem allowedInterval_nonneg {a : Int64} (h : 0 ≤ a.toInt) : 0 ≤ (allowedInterval a).toInt := by
  have ha : (0 : ℚ) ≤ a.toInt := by exact_mod_cast h
  have hpos : 0 ≤ twoPercent a.toInt :=
    mul_nonneg (Float64.round_nonneg ha) (by linarith [fiftieth_bounds.1])
  rw [allowedInterval_toInt_eq_trunc, Float64.trunc_of_nonneg (Float64.round_nonneg hpos)]
  exact Int.floor_nonneg.2 (Float64.round_nonneg hpos)

/-- **The tolerance of a positive amount is less than the amount**, however large, so an invoice
for which nothing has arrived is never within it. -/
theorem allowedInterval_lt {a : Int64} (h : 0 < a.toInt) :
    (allowedInterval a).toInt < a.toInt := by
  by_cases hle : a.toInt ≤ 2 ^ 53
  · rw [allowedInterval_toInt h.le hle]
    omega
  · have ha : (2 ^ 53 : ℚ) < a.toInt := by exact_mod_cast not_le.1 hle
    have hpos : 0 ≤ twoPercent a.toInt :=
      mul_nonneg (Float64.round_nonneg (by linarith)) (by linarith [fiftieth_bounds.1])
    have herr := (abs_le.1 (abs_round_amount_sub_le a)).2
    have herr' := (abs_le.1 (abs_round_twoPercent_sub_le a)).2
    have hmul : twoPercent a.toInt ≤ (a.toInt + 2 ^ 10) * (1 / 50 + 1 / 2 ^ 61) := by
      refine mul_le_mul (by linarith) fiftieth_bounds.2 ?_ (by linarith)
      linarith [fiftieth_bounds.1]
    rw [allowedInterval_toInt_eq_trunc, Float64.trunc_of_nonneg (Float64.round_nonneg hpos),
      Int.floor_lt]
    norm_num at hmul ha
    linarith

end BitcoinInvoice
