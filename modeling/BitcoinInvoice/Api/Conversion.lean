/-
# From bitcoins to satoshis

`getPrice` parses the quote, a number of bitcoins, and multiplies it by `10^8`.  Both
steps round to a `float64`, and then `int64(digitalValue)` cuts the fraction off.  A
quote with at most 8 decimals stands for a whole number `s` of satoshis, but where the
product comes out below `s`, a satoshi is lost.

The product differs from `s` by the error of the quote, scaled (`round_quote_mul`), and
its rounding takes this back up to half a unit in the last place of `s`
(`le_round_of_binade`).  In the lower part of a binade of amounts a scaled unit of the
quote is three quarters of a unit of `s`, and the amount is exact (`trunc_of_lower`).  In
the upper part, from `10^8 / 2^26` times the power of two on, it is one and a half, and
the error may be too large (`trunc_of_upper`).  `FallsShort` says in integers for which
amounts it is, and `exact_quote_iff` that these are the ones that lose a satoshi.
-/

import BitcoinInvoice.Api.Derivation
import BitcoinInvoice.Go.Decimal

namespace BitcoinInvoice

open Float64

/-- The quote `s / 10^8`, scaled, lies above the nearest `float64` by more than half a
unit in the last place of `s`.  With `2^k` the power of two at the head of `s`, this takes
a quote of at least `2^(k - 26)`; its unit in the last place is then `2^(k - 78)`, and the
balanced remainder is its distance from the nearest `float64`, in parts of `10^8`. -/
def FallsShort (s : ℕ) : Prop :=
  10 ^ 8 * 2 ^ s.log2 ≤ s * 2 ^ 26 ∧
    2 ^ 25 < ((s * 2 ^ (78 - s.log2) : ℕ) : ℤ).bmod (10 ^ 8)

instance decidableFallsShort (s : ℕ) : Decidable (FallsShort s) := by
  unfold FallsShort
  infer_instance

/-! ### The two roundings -/

/-- The unit in the last place of the quote is `2^-e`, so the quote is the amount divided by a
hundred million, rounded to a multiple of it. -/
theorem round_quote {s e : ℕ} (he : e ≤ 1074) (hlow : 2 ^ 52 * 10 ^ 8 ≤ s * 2 ^ e)
    (hhigh : s * 2 ^ e < 2 ^ 53 * 10 ^ 8) :
    Float64.round ((s : ℚ) / 10 ^ 8) =
      Binary.nearestEven ((s * 2 ^ e : ℕ) / 10 ^ 8) / 2 ^ e := by
  have h2 : (0 : ℚ) < 2 ^ e := pow_pos two_pos e
  have hlow' : (2 : ℚ) ^ 52 * 10 ^ 8 ≤ s * 2 ^ e := by exact_mod_cast hlow
  have hhigh' : (s : ℚ) * 2 ^ e < 2 ^ 53 * 10 ^ 8 := by exact_mod_cast hhigh
  have hquantum : Binary.quantum 53 (-1074) ((s : ℚ) / 10 ^ 8) = -(e : ℤ) := by
    refine Binary.quantum_eq (by norm_num) (by omega) ?_ ?_
    · rw [zpow_neg, zpow_natCast, ← div_eq_mul_inv, div_le_div_iff₀ h2 (by norm_num)]
      exact hlow'
    · rw [zpow_neg, zpow_natCast, ← div_eq_mul_inv, div_lt_div_iff₀ (by norm_num) h2]
      exact hhigh'
  rw [Float64.round, Binary.round, hquantum, zpow_neg, zpow_natCast, ← div_eq_mul_inv]
  congr 3
  push_cast
  rw [div_inv_eq_mul]
  ring

/-- A multiple of `2^8` is never halfway between two multiples of `10^8`, as half of `10^8` has
only seven twos: the rounding of the quote has no ties. -/
theorem abs_bmod_lt {n : ℕ} (hn : 2 ^ 8 ∣ n) : 2 * |(n : ℤ).bmod (10 ^ 8)| < (10 ^ 8 : ℕ) := by
  obtain ⟨t, rfl⟩ := hn
  have hdiv := Int.bdiv_add_bmod ((2 ^ 8 * t : ℕ) : ℤ) (10 ^ 8)
  have hlow := Int.le_bmod (x := ((2 ^ 8 * t : ℕ) : ℤ)) (m := 10 ^ 8) (by norm_num)
  have hhigh := Int.bmod_lt (x := ((2 ^ 8 * t : ℕ) : ℤ)) (m := 10 ^ 8) (by norm_num)
  generalize ((2 ^ 8 * t : ℕ) : ℤ).bmod (10 ^ 8) = r at *
  generalize ((2 ^ 8 * t : ℕ) : ℤ).bdiv (10 ^ 8) = b at *
  push_cast at *
  rcases abs_cases r with ⟨hr, -⟩ | ⟨hr, -⟩
  · rw [hr]
    omega
  · rw [hr]
    omega

/-- **The product before its rounding** is the amount, less the error of the quote, which the
balanced remainder of a division by `10^8` says exactly. -/
theorem round_quote_mul {s e : ℕ} (he : e ≤ 1074) (h8 : 8 ≤ e) (hlow : 2 ^ 52 * 10 ^ 8 ≤ s * 2 ^ e)
    (hhigh : s * 2 ^ e < 2 ^ 53 * 10 ^ 8) :
    Float64.round ((s : ℚ) / 10 ^ 8) * 10 ^ 8 =
      s - (((s * 2 ^ e : ℕ) : ℤ).bmod (10 ^ 8) : ℚ) / 2 ^ e := by
  have h2 : (2 : ℚ) ^ e ≠ 0 := pow_ne_zero e two_ne_zero
  have hdvd : 2 ^ 8 ∣ s * 2 ^ e := Dvd.dvd.mul_left (pow_dvd_pow 2 h8) s
  have hnear : Binary.nearestEven ((s * 2 ^ e : ℕ) / 10 ^ 8) =
      ((s * 2 ^ e : ℕ) : ℤ).bdiv (10 ^ 8) := by
    have hdiv := Binary.nearestEven_div (abs_bmod_lt hdvd)
    rwa [Int.cast_natCast, Nat.cast_pow, Nat.cast_ofNat] at hdiv
  have hrem : (((s * 2 ^ e : ℕ) : ℤ).bmod (10 ^ 8) : ℚ) =
      s * 2 ^ e - 10 ^ 8 * ((s * 2 ^ e : ℕ) : ℤ).bdiv (10 ^ 8) := by
    exact_mod_cast Int.bmod_eq_self_sub_mul_bdiv ((s * 2 ^ e : ℕ) : ℤ) (10 ^ 8)
  rw [round_quote he hlow hhigh, hrem, hnear]
  field_simp
  ring

section Scaled

variable {s k : ℕ} {x : ℚ}

/-- From half a unit in its last place below, the second rounding reaches the amount,
whose significand is even. -/
theorem le_round_of_binade (hk : k ≤ 50) (hlow : 2 ^ k < s) (hhigh : s < 2 ^ (k + 1))
    (h : (s : ℚ) - 2 ^ k / 2 ^ 53 ≤ x) : s ≤ Float64.round x := by
  obtain ⟨j, hj⟩ : ∃ j, k + j = 52 := ⟨52 - k, by omega⟩
  have hpow : 2 ^ k * 2 ^ j = 2 ^ 52 := by rw [← pow_add, hj]
  have hpow' : (2 : ℚ) ^ k * 2 ^ j = 2 ^ 52 := by exact_mod_cast hpow
  have hunit : (2 : ℚ) ^ ((k : ℤ) - 52) = 2 ^ k / 2 ^ 52 := by
    rw [zpow_sub₀ two_ne_zero, zpow_natCast]
    norm_num
  have hamount : (((s * 2 ^ j : ℕ) : ℤ) : ℚ) * 2 ^ ((k : ℤ) - 52) = s := by
    rw [hunit, ← hpow']
    push_cast
    field_simp
  have heven : Even ((s * 2 ^ j : ℕ) : ℤ) := by
    have htwo : Even (2 ^ j) := Nat.even_pow.2 ⟨even_two, by omega⟩
    exact_mod_cast htwo.mul_left s
  have hbelow : 2 ^ (53 - 1) < ((s * 2 ^ j : ℕ) : ℤ) := by
    have hlt : 2 ^ k * 2 ^ j < s * 2 ^ j := Nat.mul_lt_mul_of_pos_right hlow (pow_pos two_pos j)
    rw [hpow] at hlt
    exact_mod_cast hlt
  have habove : ((s * 2 ^ j : ℕ) : ℤ) ≤ 2 ^ 53 := by
    have hle : s * 2 ^ j ≤ 2 ^ (k + 1) * 2 ^ j := Nat.mul_le_mul_right _ hhigh.le
    rw [pow_succ, mul_right_comm, hpow] at hle
    exact_mod_cast hle
  have hhalf : (((s * 2 ^ j : ℕ) : ℤ) : ℚ) * 2 ^ ((k : ℤ) - 52) - 2 ^ ((k : ℤ) - 52) / 2 ≤ x := by
    rw [hamount, hunit]
    linarith
  rw [← hamount]
  exact Binary.le_round_of_sub_half_le (by norm_num) heven hbelow habove (by omega) hhalf

/-- From further below than half a unit the rounding does not reach the amount, so something is
cut off. -/
theorem round_lt_of_binade (hk : k ≤ 50) (h0 : 0 ≤ x) (hhigh : s < 2 ^ (k + 1))
    (h : x < s - 2 ^ k / 2 ^ 53) : Float64.round x < s := by
  have hhigh' : (s : ℚ) < 2 ^ (k + 1) := by exact_mod_cast hhigh
  have hhalf : (2 : ℚ) ^ ((k + 1 : ℕ) - (53 : ℕ) : ℤ) / 2 = 2 ^ k / 2 ^ 53 := by
    rw [zpow_sub₀ two_ne_zero, zpow_natCast, zpow_natCast, pow_succ]
    ring
  have hpos : (0 : ℚ) ≤ 2 ^ k / 2 ^ 53 := by positivity
  refine Binary.round_lt_of_lt_sub_half (k := (k + 1 : ℕ)) ?_ (by omega) ?_
  · rw [abs_of_nonneg h0, zpow_natCast]
    linarith
  · rw [hhalf]
    exact h

/-- An amount is not passed from above: it is a number of the format, and rounding keeps the
order. -/
theorem le_round_of_le (hs : s ≤ 21 * 10 ^ 14) (h : s ≤ x) : s ≤ Float64.round x := by
  have hexact : Float64.round (s : ℤ) = (s : ℤ) := by
    refine Float64.round_intCast ?_
    rw [Nat.abs_cast]
    omega
  rw [Int.cast_natCast] at hexact
  have hmono : Float64.round s ≤ Float64.round x := Float64.round_mono (Nat.cast_nonneg s) h
  rwa [hexact] at hmono

/-- Near the amount the second rounding is off by an eighth at most, for amounts up to all the
bitcoins there will ever be. -/
theorem abs_round_sub_le_of_near (hs : s ≤ 21 * 10 ^ 14) (hx : |x - s| ≤ 1 / 5) :
    |Float64.round x - x| ≤ 1 / 8 := by
  have hs' : (s : ℚ) ≤ 21 * 10 ^ 14 := by exact_mod_cast hs
  have hnear := abs_le.1 hx
  have hs0 : (0 : ℚ) ≤ s := Nat.cast_nonneg s
  have hsmall : |x| < 2 ^ (51 : ℤ) := by
    have hbound : (21 * 10 ^ 14 + 1 : ℚ) < 2 ^ (51 : ℤ) := by norm_num
    rw [abs_lt]
    constructor <;> linarith [hnear.1, hnear.2]
  exact (Float64.abs_round_sub_le hsmall (by norm_num)).trans_eq (by norm_num)

/-- What is cut off where the rounding reaches the amount is less than a satoshi, and the amount
is what is left. -/
theorem trunc_round_of_le (hs : s ≤ 21 * 10 ^ 14) (hx : |x - s| ≤ 1 / 5)
    (h : s ≤ Float64.round x) : trunc (Float64.round x) = s := by
  have herr := abs_le.1 (abs_round_sub_le_of_near hs hx)
  have hnear := abs_le.1 hx
  have hs0 : (0 : ℚ) ≤ s := Nat.cast_nonneg s
  rw [trunc_of_nonneg (hs0.trans h), Int.floor_eq_iff]
  push_cast
  constructor <;> linarith [herr.2, hnear.2]

/-- What is cut off where the rounding stays below leaves one satoshi less than the amount, and
never two. -/
theorem trunc_round_of_lt (hs : s ≤ 21 * 10 ^ 14) (hpos : 0 < s) (hx : |x - s| ≤ 1 / 5)
    (h : Float64.round x < s) : trunc (Float64.round x) = s - 1 := by
  have herr := abs_le.1 (abs_round_sub_le_of_near hs hx)
  have hnear := abs_le.1 hx
  have hs1 : (1 : ℚ) ≤ s := by exact_mod_cast hpos
  rw [trunc_of_nonneg (by linarith [herr.1, hnear.1]), Int.floor_eq_iff]
  push_cast
  constructor <;> linarith [herr.1, hnear.1]

end Scaled

/-! ### Which amounts are exact -/

/-- The error of the quote, scaled to satoshis, is below a fifth of one, since the quote has at
least 28 bits behind the point. -/
theorem abs_error_le {n : ℕ} {e : ℕ} (he : 28 ≤ e) (hn : 2 ^ 8 ∣ n) :
    |((n : ℤ).bmod (10 ^ 8) : ℚ) / 2 ^ e| ≤ 1 / 5 := by
  have hrem : 2 * |((n : ℤ).bmod (10 ^ 8) : ℚ)| < 10 ^ 8 := by exact_mod_cast abs_bmod_lt hn
  have hunit : (2 : ℚ) ^ 28 ≤ 2 ^ e := pow_le_pow_right₀ one_le_two he
  rw [abs_div, abs_of_pos (pow_pos two_pos e : (0 : ℚ) < 2 ^ e), div_le_iff₀ (pow_pos two_pos e)]
  norm_num at hunit hrem
  linarith

/-- The product is within a fifth of the amount, so truncating its rounding gives the amount or
one satoshi less. -/
theorem abs_round_quote_mul_sub_le {s e : ℕ} (he : e ≤ 1074) (h28 : 28 ≤ e)
    (hlow : 2 ^ 52 * 10 ^ 8 ≤ s * 2 ^ e) (hhigh : s * 2 ^ e < 2 ^ 53 * 10 ^ 8) :
    |Float64.round ((s : ℚ) / 10 ^ 8) * 10 ^ 8 - s| ≤ 1 / 5 := by
  have hdvd : 2 ^ 8 ∣ s * 2 ^ e := Dvd.dvd.mul_left (pow_dvd_pow 2 (by omega)) s
  rw [round_quote_mul he (by omega) hlow hhigh, sub_sub_cancel_left, abs_neg]
  exact abs_error_le h28 hdvd

/-- Half a unit of the amount, in units of the quote: the distance that decides whether the second
rounding makes up for the first. -/
theorem half_unit_eq {k e d : ℕ} (h : k + e = 53 + d) :
    (2 : ℚ) ^ k / 2 ^ 53 = 2 ^ d / 2 ^ e := by
  rw [div_eq_div_iff (by norm_num) (pow_ne_zero e two_ne_zero), ← pow_add, ← pow_add, h, add_comm]

/-- **An amount in the upper part of its binade** is exact where the error of its quote is
at most half a unit, and loses a satoshi where it is more. -/
theorem trunc_of_upper {s k e : ℕ} (hs : s ≤ 21 * 10 ^ 14) (hk : k ≤ 50) (hke : k + e = 78)
    (hhigh : s < 2 ^ (k + 1)) (hupper : 10 ^ 8 * 2 ^ k ≤ s * 2 ^ 26) :
    trunc (Float64.round (Float64.round ((s : ℚ) / 10 ^ 8) * 10 ^ 8)) =
      if 2 ^ 25 < ((s * 2 ^ e : ℕ) : ℤ).bmod (10 ^ 8) then (s : ℤ) - 1 else s := by
  have hpow : 2 ^ k * 2 ^ e = 2 ^ 78 := by rw [← pow_add, hke]
  have hk0 : 0 < 2 ^ k := pow_pos two_pos k
  have h2 : (0 : ℚ) < 2 ^ e := pow_pos two_pos e
  have hlow : 2 ^ k < s := by omega
  have hquote : 2 ^ 52 * 10 ^ 8 ≤ s * 2 ^ e := by
    have hscaled : 10 ^ 8 * 2 ^ k * 2 ^ e ≤ s * 2 ^ 26 * 2 ^ e := Nat.mul_le_mul_right _ hupper
    rw [mul_assoc, hpow, mul_right_comm] at hscaled
    omega
  have hquote' : s * 2 ^ e < 2 ^ 53 * 10 ^ 8 := by
    have hscaled : s * 2 ^ e < 2 ^ (k + 1) * 2 ^ e :=
      Nat.mul_lt_mul_of_pos_right hhigh (pow_pos two_pos e)
    rw [pow_succ, mul_right_comm, hpow] at hscaled
    omega
  have hnear := abs_round_quote_mul_sub_le (by omega) (by omega) hquote hquote'
  have hproduct := round_quote_mul (by omega) (by omega) hquote hquote'
  have hhalf : (2 : ℚ) ^ k / 2 ^ 53 = 2 ^ 25 / 2 ^ e := half_unit_eq (by omega)
  split_ifs with hshort
  · have hshort' : (2 : ℚ) ^ 25 < ((s * 2 ^ e : ℕ) : ℤ).bmod (10 ^ 8) := by exact_mod_cast hshort
    have hs1 : (1 : ℚ) ≤ s := by exact_mod_cast hk0.trans hlow
    refine trunc_round_of_lt hs (hk0.trans hlow) hnear (round_lt_of_binade hk ?_ hhigh ?_)
    · linarith [(abs_le.1 hnear).1]
    · rw [hproduct, hhalf]
      exact sub_lt_sub_left (div_lt_div_of_pos_right hshort' h2) _
  · have hshort' : (((s * 2 ^ e : ℕ) : ℤ).bmod (10 ^ 8) : ℚ) ≤ 2 ^ 25 := by
      exact_mod_cast not_lt.1 hshort
    refine trunc_round_of_le hs hnear (le_round_of_binade hk hlow hhigh ?_)
    rw [hproduct, hhalf]
    exact sub_le_sub_left (div_le_div_of_nonneg_right hshort' h2.le) _

/-- **An amount in the lower part of its binade is exact:** half a unit of it is more than
half a unit of the quote, scaled.  A power of two has a smaller unit below it, but its
quote is rounded up. -/
theorem trunc_of_lower {s k e : ℕ} (hs : s ≤ 21 * 10 ^ 14) (hk : k ≤ 50) (hke : k + e = 79)
    (hlow : 2 ^ k ≤ s) (hhigh : s < 2 ^ (k + 1)) (hlower : s * 2 ^ 26 < 10 ^ 8 * 2 ^ k) :
    trunc (Float64.round (Float64.round ((s : ℚ) / 10 ^ 8) * 10 ^ 8)) = s := by
  have hpow : 2 ^ k * 2 ^ e = 2 ^ 79 := by rw [← pow_add, hke]
  have h2 : (0 : ℚ) < 2 ^ e := pow_pos two_pos e
  have hquote : 2 ^ 52 * 10 ^ 8 ≤ s * 2 ^ e := by
    have hscaled : 2 ^ k * 2 ^ e ≤ s * 2 ^ e := Nat.mul_le_mul_right _ hlow
    rw [hpow] at hscaled
    omega
  have hquote' : s * 2 ^ e < 2 ^ 53 * 10 ^ 8 := by
    have hscaled : s * 2 ^ 26 * 2 ^ e < 10 ^ 8 * 2 ^ k * 2 ^ e :=
      Nat.mul_lt_mul_of_pos_right hlower (pow_pos two_pos e)
    rw [mul_right_comm, mul_assoc (10 ^ 8), hpow] at hscaled
    omega
  have hnear := abs_round_quote_mul_sub_le (by omega) (by omega) hquote hquote'
  have hproduct := round_quote_mul (by omega) (by omega) hquote hquote'
  refine trunc_round_of_le hs hnear ?_
  rcases hlow.lt_or_eq with hlt | heq
  · have hhalf : (2 : ℚ) ^ k / 2 ^ 53 = 2 ^ 26 / 2 ^ e := half_unit_eq (by omega)
    have hrem : (((s * 2 ^ e : ℕ) : ℤ).bmod (10 ^ 8) : ℚ) ≤ 2 ^ 26 := by
      have hlt := Int.bmod_lt (x := ((s * 2 ^ e : ℕ) : ℤ)) (m := 10 ^ 8) (by norm_num)
      have hle : ((s * 2 ^ e : ℕ) : ℤ).bmod (10 ^ 8) ≤ 2 ^ 26 := by omega
      exact_mod_cast hle
    refine le_round_of_binade hk hlt hhigh ?_
    rw [hproduct, hhalf]
    exact sub_le_sub_left (div_le_div_of_nonneg_right hrem h2.le) _
  · have hrem : ((s * 2 ^ e : ℕ) : ℤ).bmod (10 ^ 8) = -12646912 := by
      rw [← heq, hpow]
      rfl
    have hneg : ((-12646912 : ℤ) : ℚ) / 2 ^ e ≤ 0 :=
      div_nonpos_of_nonpos_of_nonneg (by norm_num) h2.le
    refine le_round_of_le hs ?_
    rw [hproduct, hrem]
    linarith

/-- **The amount of a quote:** a satoshi is lost exactly where the quote falls short by more than
half a unit of the amount, and none is ever gained. -/
theorem satoshis_round {s : ℕ} (hs : s ≤ 21 * 10 ^ 14) :
    trunc (Float64.round (Float64.round ((s : ℚ) / 10 ^ 8) * 10 ^ 8)) =
      if FallsShort s then (s : ℤ) - 1 else s := by
  rcases s.eq_zero_or_pos with rfl | hpos
  · have hshort : ¬ FallsShort 0 := by decide
    rw [if_neg hshort]
    simp [Float64.round, trunc]
  have hlow : 2 ^ s.log2 ≤ s := Nat.log2_self_le hpos.ne'
  have hhigh : s < 2 ^ (s.log2 + 1) := Nat.lt_log2_self
  have hk : s.log2 ≤ 50 := by
    have hlt : s.log2 < 51 := (Nat.log2_lt hpos.ne').2 (hs.trans_lt (by norm_num))
    omega
  by_cases hupper : 10 ^ 8 * 2 ^ s.log2 ≤ s * 2 ^ 26
  · rw [trunc_of_upper hs hk (by omega : s.log2 + (78 - s.log2) = 78) hhigh hupper]
    refine if_congr ?_ rfl rfl
    exact ⟨fun h => ⟨hupper, h⟩, fun h => h.2⟩
  · have hshort : ¬ FallsShort s := fun h => hupper h.1
    rw [trunc_of_lower hs hk (by omega : s.log2 + (79 - s.log2) = 79) hlow hhigh
      (not_le.1 hupper), if_neg hshort]

/-! ### What becomes of a quote -/

/-- `body` is a decimal numeral for `s` satoshis, in bitcoins. -/
def Denominates (body : List Char) (s : ℕ) : Prop := parseDecimal body = some ((s : ℚ) / 10 ^ 8)

/-- The numerals with at most 8 decimals are such: shifting the point by eight places gives a
whole number of satoshis. -/
theorem denominates_point {whole fraction : List Char} (hw : Digits whole) (hne : whole ≠ [])
    (hf : Digits fraction) (hlen : fraction.length ≤ 8) :
    Denominates (whole ++ '.' :: fraction)
      (10 ^ 8 * digitsValue whole + digitsValue fraction * 10 ^ (8 - fraction.length)) :=
  parseDecimal_places hw hne hf hlen

/-- A numeral without a point denotes whole bitcoins, so its satoshis are a multiple of
`10^8`. -/
theorem denominates_digits {whole : List Char} (hw : Digits whole) (hne : whole ≠ []) :
    Denominates whole (10 ^ 8 * digitsValue whole) := by
  rw [Denominates, parseDecimal_digits hw hne]
  norm_num

/-- The quote does not overflow: up to 21 million bitcoins it is far below the largest number of a
64-bit integer. -/
theorem abs_round_quote_lt {s : ℕ} (hs : s ≤ 21 * 10 ^ 14) :
    |Float64.round ((s : ℚ) / 10 ^ 8)| < 2 ^ 64 := by
  have hs' : (s : ℚ) ≤ 21 * 10 ^ 14 := by exact_mod_cast hs
  have hs0 : (0 : ℚ) ≤ s := Nat.cast_nonneg s
  have hsmall : |(s : ℚ) / 10 ^ 8| < 2 ^ (51 : ℤ) := by
    have hbound : (21 * 10 ^ 14 / 10 ^ 8 : ℚ) < 2 ^ (51 : ℤ) := by norm_num
    rw [abs_of_nonneg (by positivity)]
    exact (div_le_div_of_nonneg_right hs' (by norm_num)).trans_lt hbound
  have herr := abs_le.1 (Float64.abs_round_sub_le hsmall (by norm_num))
  have hlt := abs_lt.1 hsmall
  norm_num at herr hlt
  rw [abs_lt]
  constructor <;> linarith [herr.1, herr.2, hlt.1, hlt.2]

/-- **The satoshis of a quote** in the body of a response: the numeral is rounded to a float64,
scaled, rounded again and truncated. -/
theorem quote_of_denominates {convert : Float64 → Int64} {body : List Char} {s : ℕ}
    (h : Denominates body s) (hs : s ≤ 21 * 10 ^ 14) :
    quote convert body = some (Int64.ofInt (if FallsShort s then s - 1 else s)) := by
  have htrunc := satoshis_round hs
  have hamount : -2 ^ 62 < (if FallsShort s then (s : ℤ) - 1 else s) ∧
      (if FallsShort s then (s : ℤ) - 1 else s) < 2 ^ 62 := by
    split_ifs <;> omega
  have hfits : Fits (Float64.round ((s : ℚ) / 10 ^ 8)) := by
    rw [Fits, htrunc]
    omega
  rw [quote, parseFloat_of_parseDecimal h (abs_round_quote_lt hs), Option.map_some, Option.some_inj,
    ← Int64.toInt_inj, satoshis_finite hfits, htrunc, Int64.toInt_ofInt_of_le (by omega) (by omega)]

/-- The feed answers the query for `fiatValue` with `body`. -/
structure HttpClient.Feeds (client : HttpClient) (fiatValue : Int32) (body : List Char) : Prop where
  request : ∃ u, client.newRequest = .ok u
  answer : ∃ resp, client.clientDo (priceURL fiatValue) = .ok resp ∧ resp.status = "200 OK" ∧
    resp.delivered = body

/-- **What `getPrice` returns for a quote of `s` satoshis** is `s`, or one less where the quote
falls short. -/
theorem getPrice_of_denominates {client : HttpClient} {convert : Float64 → Int64}
    {fiatValue : Int32} {body : List Char} {s : ℕ} (hfeed : client.Feeds fiatValue body)
    (h : Denominates body s) (hs : s ≤ 21 * 10 ^ 14) :
    getPrice client convert fiatValue =
      .ok (Int64.ofInt (if FallsShort s then s - 1 else s)) := by
  obtain ⟨resp, hresp, hstatus, rfl⟩ := hfeed.answer
  exact getPrice_eq_ok_iff.2 ⟨hfeed.request, resp, hresp, hstatus, quote_of_denominates h hs⟩

/-- `getPrice` returns `s` satoshis for `value`, and every call of `CreateInvoice` for it
that derives an address returns and stores an invoice for `s` satoshis. -/
structure CreateEnv.Exact {Key : Type} (env : CreateEnv Key) (value : Int32) (s : ℕ) : Prop where
  price : getPrice env.client env.convert value = .ok (Int64.ofInt s)
  stored : ∀ (server : Server) (address : String), 0 < value →
    deriveChild env.keychain server.xpub server.derivationIndex = .ok address →
      ∃ r server' invoice, createInvoice env server value = (.ok r, server') ∧
        r.invoiceId = address ∧ r.digitalValue = Int64.ofInt s ∧
          server'.invoices address = some invoice ∧ invoice.digitalValue = Int64.ofInt s

/-- **The quote is converted exactly where it does not fall short.** The condition is one on the
amount alone: the remainder of a division by `10^8`, after the scaling of the quote, against half
a unit. -/
theorem exact_quote_iff {Key : Type} {env : CreateEnv Key} {value : Int32} {body : List Char}
    {s : ℕ} (hfeed : env.client.Feeds value body) (h : Denominates body s)
    (hs : s ≤ 21 * 10 ^ 14) : env.Exact value s ↔ ¬ FallsShort s := by
  have hprice : getPrice env.client env.convert value = _ := getPrice_of_denominates hfeed h hs
  constructor
  · intro hexact hshort
    rw [hexact.price, if_pos hshort] at hprice
    have hpos : 0 < s := by
      by_contra hn
      obtain rfl : s = 0 := by omega
      exact absurd hshort (by decide)
    have hlost := congrArg Int64.toInt (Except.ok.inj hprice)
    rw [Int64.toInt_ofInt_of_le (by omega) (by omega),
      Int64.toInt_ofInt_of_le (by omega) (by omega)] at hlost
    omega
  · intro hexact
    rw [if_neg hexact] at hprice
    refine ⟨hprice, fun server address hvalue haddress => ?_⟩
    have hcreates : Creates env server value
        ⟨value, Int64.ofInt s, getExpiry env.now, address⟩ :=
      ⟨hvalue, rfl, hprice, rfl, haddress⟩
    exact ⟨_, _, _, createInvoice_of_creates hcreates, rfl, rfl, Server.issue_invoices_self _ _,
      rfl⟩

/-- The numeral `0.57` denotes 57 million satoshis, in the text in which the feed sends it. -/
theorem shortQuote_denominates : Denominates "0.57".toList 57000000 := by
  have hwhole : Digits "0".toList := by simp [Digits]
  have hfraction : Digits "57".toList := by simp [Digits]
  exact denominates_point hwhole (by simp) hfraction (by simp)

/-- The theorem at the quote `0.57`, of which the product is truncated to one satoshi less. -/
theorem exact_quote_iff_shortQuote :
    (unaryEnv "0.57".toList).Exact 228000 57000000 ↔ ¬ FallsShort 57000000 :=
  exact_quote_iff ⟨⟨(), rfl⟩, _, rfl, rfl, rfl⟩ shortQuote_denominates (by norm_num)

/-- The nearest `float64` to 0.57 is below it, and a satoshi is missing from the price,
the answer and the ledger. -/
theorem shortQuote_lost :
    Denominates "0.57".toList 57000000 ∧
      getPrice (HttpClient.constant "0.57".toList) (fun _ => 0) 228000 = .ok 56999999 ∧
      createInvoice (unaryEnv "0.57".toList) (Server.start "tpub") 228000 =
        (.ok ⟨228000, 56999999, 900, "m"⟩,
          (Server.start "tpub").issue ⟨228000, 56999999, 900, "m"⟩) ∧
      ¬ (unaryEnv "0.57".toList).Exact 228000 57000000 := by
  have hprice : getPrice (HttpClient.constant "0.57".toList) (fun _ => 0) 228000 =
      .ok 56999999 := by
    decide +kernel
  have hcreates : Creates (unaryEnv "0.57".toList) (Server.start "tpub") 228000
      ⟨228000, 56999999, 900, "m"⟩ :=
    ⟨by decide, rfl, hprice, by decide, by decide⟩
  refine ⟨shortQuote_denominates, hprice, createInvoice_of_creates hcreates, fun hexact => ?_⟩
  have hboth := hexact.price.symm.trans hprice
  exact absurd (Except.ok.inj hboth) (by decide)

end BitcoinInvoice
