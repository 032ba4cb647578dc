/-
# Rounding to a binary floating-point format

A format has `p` significant bits and a smallest exponent `emin`: its numbers
are the `m · 2^k` with `|m| ≤ 2^p` and `emin ≤ k` (`Representable`).  `round`
takes a rational to the nearest number of the format, ties to even: it finds the
exponent of the last place (`quantum`) and rounds to that multiple
(`nearestEven`).  Overflow is not part of rounding; a format with a largest
number tests the result.

The facts used of a format are that its numbers round to themselves
(`round_representable`), that rounding is monotone (`round_mono`), how far the result may
lie from the exact value, absolutely (`abs_round_sub_le_of_abs_lt`) or in proportion to
it (`round_perturbs`), and from where a number with an even significand is still reached
(`le_round_of_sub_half_le`).
-/

import Mathlib.Data.Int.Log
import Mathlib.Data.Rat.Floor
import Mathlib.Tactic.Linarith
import Mathlib.Tactic.FieldSimp
import Mathlib.Tactic.Ring

namespace Binary

/-- The integer nearest to `x`, the even one of two equally near. -/
def nearestEven (x : ℚ) : ℤ :=
  if 2 * (x - ⌊x⌋) < 1 then ⌊x⌋
  else if 1 < 2 * (x - ⌊x⌋) then ⌊x⌋ + 1
  else if ⌊x⌋ % 2 = 0 then ⌊x⌋ else ⌊x⌋ + 1

/-- The nearest integer is at most a half away. -/
theorem abs_nearestEven_sub_le (x : ℚ) : |(nearestEven x : ℚ) - x| ≤ 1 / 2 := by
  have h0 := Int.floor_le x
  have h1 := Int.lt_floor_add_one x
  rw [abs_le]
  unfold nearestEven
  split_ifs <;> push_cast <;> constructor <;> linarith

/-- An integer closer than a half is the nearest: no tie can come in between, so the rule for ties
does not matter. -/
theorem nearestEven_eq_of_abs_lt {x : ℚ} {n : ℤ} (h : |x - n| < 1 / 2) : nearestEven x = n := by
  have hnear := abs_le.1 (abs_nearestEven_sub_le x)
  have hlt := abs_lt.1 h
  have hup : (nearestEven x : ℚ) < n + 1 := by linarith [hnear.2, hlt.2]
  have hlow : (n : ℚ) < nearestEven x + 1 := by linarith [hnear.1, hlt.1]
  have hup' : nearestEven x < n + 1 := by exact_mod_cast hup
  have hlow' : n < nearestEven x + 1 := by exact_mod_cast hlow
  omega

/-- The nearest integer to a quotient leaves the balanced remainder, but for a tie, which is
excluded by the remainder being less than half of the divisor. -/
theorem nearestEven_div {n : ℤ} {m : ℕ} (h : 2 * |n.bmod m| < m) :
    nearestEven ((n : ℚ) / m) = n.bdiv m := by
  have hm : (0 : ℚ) < m := by
    have hpos : (0 : ℤ) < m := (mul_nonneg zero_le_two (abs_nonneg _)).trans_lt h
    exact_mod_cast hpos
  have hdiv : (n : ℚ) = m * n.bdiv m + n.bmod m := by exact_mod_cast (Int.bdiv_add_bmod n m).symm
  have hrem : (n : ℚ) / m - n.bdiv m = n.bmod m / m := by
    rw [hdiv]
    field_simp
    ring
  have h' : 2 * |(n.bmod m : ℚ)| < m := by exact_mod_cast h
  refine nearestEven_eq_of_abs_lt ?_
  rw [hrem, abs_div, abs_of_pos hm, div_lt_iff₀ hm]
  linarith

/-- An even integer no further than a half is the nearest: it wins the tie. -/
theorem nearestEven_eq_of_even {x : ℚ} {n : ℤ} (hn : Even n) (h : |x - n| ≤ 1 / 2) :
    nearestEven x = n := by
  rcases h.lt_or_eq with hlt | heq
  · exact nearestEven_eq_of_abs_lt hlt
  obtain ⟨a, rfl⟩ := hn
  rcases eq_or_eq_neg_of_abs_eq heq with hup | hdown
  · have hfloor : ⌊x⌋ = a + a := by
      rw [Int.floor_eq_iff]
      constructor <;> linarith
    have hhalf : 2 * (x - ((a + a : ℤ) : ℚ)) = 1 := by linarith
    rw [nearestEven, hfloor, hhalf, if_neg (lt_irrefl _), if_neg (lt_irrefl _), if_pos (by omega)]
  · have hfloor : ⌊x⌋ = a + a - 1 := by
      rw [Int.floor_eq_iff]
      push_cast at hdown ⊢
      constructor <;> linarith
    have hhalf : 2 * (x - ((a + a - 1 : ℤ) : ℚ)) = 1 := by
      push_cast at hdown ⊢
      linarith
    rw [nearestEven, hfloor, hhalf, if_neg (lt_irrefl _), if_neg (lt_irrefl _), if_neg (by omega)]
    omega

/-- The nearest integer is not below the floor. -/
theorem floor_le_nearestEven (x : ℚ) : ⌊x⌋ ≤ nearestEven x := by
  unfold nearestEven
  split_ifs <;> omega

/-- The nearest integer is not above the next one to the floor. -/
theorem nearestEven_le_floor_add_one (x : ℚ) : nearestEven x ≤ ⌊x⌋ + 1 := by
  unfold nearestEven
  split_ifs <;> omega

/-- An integer is its own nearest integer. -/
@[simp]
theorem nearestEven_intCast (n : ℤ) : nearestEven n = n := by
  simp [nearestEven]

/-- The nearest integer is monotone: two arguments with the same integer part
differ in their fractions, and otherwise the integer parts decide. -/
theorem nearestEven_mono {x y : ℚ} (h : x ≤ y) : nearestEven x ≤ nearestEven y := by
  rcases (Int.floor_le_floor h).lt_or_eq with hlt | heq
  · have h0 := nearestEven_le_floor_add_one x
    have h1 := floor_le_nearestEven y
    omega
  · unfold nearestEven
    rw [heq]
    split_ifs <;> first | omega | (exfalso; linarith)

variable {p : ℕ} {emin : ℤ}

/-- The exponent of the last place of `x`: `p` bits from its leading one, and no
less than `emin`. -/
def quantum (p : ℕ) (emin : ℤ) (x : ℚ) : ℤ := max (Int.log 2 |x| - (p - 1)) emin

/-- The last place of a number with a full significand is the exponent of its last bit. -/
theorem quantum_eq {x : ℚ} {k : ℤ} (hp : 1 ≤ p) (hk : emin ≤ k) (hlow : 2 ^ (p - 1) * 2 ^ k ≤ x)
    (hhigh : x < 2 ^ p * 2 ^ k) : quantum p emin x = k := by
  have hpos : 0 < x := (mul_pos (pow_pos two_pos _) (zpow_pos two_pos k)).trans_le hlow
  have hle : ((p - 1 : ℕ) : ℤ) + k ≤ Int.log 2 x := by
    rw [← zpow_natCast, ← zpow_add₀ two_ne_zero] at hlow
    rw [← Int.zpow_le_iff_le_log one_lt_two hpos]
    exact_mod_cast hlow
  have hlt : Int.log 2 x < p + k := by
    rw [← zpow_natCast, ← zpow_add₀ two_ne_zero] at hhigh
    rw [← Int.lt_zpow_iff_log_lt one_lt_two hpos]
    exact_mod_cast hhigh
  rw [quantum, abs_of_pos hpos]
  omega

/-- The number of the format nearest to `x`, ties to an even significand. -/
def round (p : ℕ) (emin : ℤ) (x : ℚ) : ℚ :=
  nearestEven (x / 2 ^ quantum p emin x) * 2 ^ quantum p emin x

/-- `z` is a number of the format. -/
def Representable (p : ℕ) (emin : ℤ) (z : ℚ) : Prop :=
  ∃ m k : ℤ, |m| ≤ 2 ^ p ∧ emin ≤ k ∧ z = m * 2 ^ k

/-- Zero is rounded to itself, whatever the precision. -/
@[simp]
theorem round_zero : round p emin 0 = 0 := by
  have h : nearestEven 0 = 0 := nearestEven_intCast 0
  simp [round, h]

/-- The distance of the neighbouring numbers grows with the number. -/
theorem quantum_mono {x y : ℚ} (hx : 0 < x) (h : x ≤ y) : quantum p emin x ≤ quantum p emin y := by
  unfold quantum
  rw [abs_of_pos hx, abs_of_pos (hx.trans_le h)]
  have := Int.log_mono_right (b := 2) hx h
  omega

/-- A multiple of the last place rounds to itself, since it is an integer in units of this
place. -/
theorem round_eq_self {x : ℚ} {n : ℤ} (h : x = n * 2 ^ quantum p emin x) : round p emin x = x := by
  have h2 : (2 : ℚ) ^ quantum p emin x ≠ 0 := zpow_ne_zero _ two_ne_zero
  unfold round
  rw [(eq_div_of_mul_eq h2 h.symm).symm, nearestEven_intCast]
  exact h.symm

/-- A number whose significand has room left: its last place is no higher than `k`. -/
theorem round_mul_zpow_of_lt {m k : ℤ} (hm0 : m ≠ 0) (hm : |m| < 2 ^ p) (hk : emin ≤ k) :
    round p emin (m * 2 ^ k) = m * 2 ^ k := by
  have habs : |(m : ℚ) * 2 ^ k| = |m| * 2 ^ k := by
    rw [abs_mul, abs_of_pos (zpow_pos two_pos k : (0 : ℚ) < 2 ^ k), Int.cast_abs]
  have hz0 : 0 < |(m : ℚ) * 2 ^ k| :=
    abs_pos.2 (mul_ne_zero (Int.cast_ne_zero.2 hm0) (zpow_ne_zero k two_ne_zero))
  have hlog : Int.log 2 |(m : ℚ) * 2 ^ k| < p + k := by
    rw [← Int.lt_zpow_iff_log_lt one_lt_two hz0, habs]
    push_cast
    rw [zpow_add₀ two_ne_zero, zpow_natCast]
    exact mul_lt_mul_of_pos_right (by exact_mod_cast hm) (zpow_pos two_pos k)
  have hq : quantum p emin (m * 2 ^ k) ≤ k := by
    unfold quantum
    omega
  obtain ⟨j, hj⟩ : ∃ j : ℕ, k = quantum p emin (m * 2 ^ k) + j :=
    ⟨(k - quantum p emin (m * 2 ^ k)).toNat, by omega⟩
  refine round_eq_self (n := m * 2 ^ j) ?_
  push_cast
  rw [mul_assoc, ← zpow_natCast, ← zpow_add₀ two_ne_zero, add_comm (j : ℤ), ← hj]

/-- One whose significand is the power of two behind the last: its last place is
`k + 1`, and it is even. -/
theorem round_mul_zpow_of_eq (hp : 1 ≤ p) {m k : ℤ} (hm : |m| = 2 ^ p) (hk : emin ≤ k) :
    round p emin (m * 2 ^ k) = m * 2 ^ k := by
  have hlog : Int.log 2 |(m : ℚ) * 2 ^ k| = p + k := by
    rw [abs_mul, abs_of_pos (zpow_pos two_pos k : (0 : ℚ) < 2 ^ k), ← Int.cast_abs, hm]
    push_cast
    rw [← zpow_natCast, ← zpow_add₀ two_ne_zero]
    exact_mod_cast Int.log_zpow (R := ℚ) one_lt_two (p + k)
  have hq : quantum p emin (m * 2 ^ k) = k + 1 := by
    unfold quantum
    omega
  obtain ⟨n, hn⟩ : (2 : ℤ) ∣ m := by
    rw [← dvd_abs, hm]
    exact dvd_pow_self 2 (by omega)
  refine round_eq_self (n := n) ?_
  rw [hq, hn, zpow_add_one₀ two_ne_zero]
  push_cast
  ring

/-- **The numbers of the format are fixed by rounding,** so rounding twice is rounding once, and a
bound that is one of them survives. -/
theorem round_representable (hp : 1 ≤ p) {z : ℚ} (hz : Representable p emin z) :
    round p emin z = z := by
  obtain ⟨m, k, hm, hk, rfl⟩ := hz
  rcases eq_or_ne m 0 with rfl | hm0
  · simp
  rcases hm.lt_or_eq with hlt | heq
  · exact round_mul_zpow_of_lt hm0 hlt hk
  · exact round_mul_zpow_of_eq hp heq hk

/-- Small integers are numbers of the format. -/
theorem representable_intCast (hemin : emin ≤ 0) {n : ℤ} (hn : |n| ≤ 2 ^ p) :
    Representable p emin n :=
  ⟨n, 0, hn, hemin, by simp⟩

/-- The power of two at the head of `y` bounds the rounding of `y` from below: it is a number of
the format, and the nearest one is not below it. -/
theorem zpow_log_le_round (hp : 1 ≤ p) {y : ℚ} (hy : 0 < y)
    (hq : quantum p emin y = Int.log 2 y - (p - 1)) : 2 ^ Int.log 2 y ≤ round p emin y := by
  have hle : (2 : ℚ) ^ Int.log 2 y ≤ y := by exact_mod_cast Int.zpow_log_le_self one_lt_two hy
  have h2 : (0 : ℚ) < 2 ^ quantum p emin y := zpow_pos two_pos _
  have hsplit : (2 : ℚ) ^ Int.log 2 y = ((2 ^ (p - 1) : ℤ) : ℚ) * 2 ^ quantum p emin y := by
    push_cast
    rw [← zpow_natCast, ← zpow_add₀ two_ne_zero]
    congr 1
    omega
  rw [round, hsplit]
  refine mul_le_mul_of_nonneg_right ?_ h2.le
  rw [Int.cast_le, ← nearestEven_intCast (2 ^ (p - 1))]
  refine nearestEven_mono ?_
  rw [le_div_iff₀ h2, ← hsplit]
  exact hle

/-- The power of two above `x` bounds the rounding of `x` from above. -/
theorem round_le_zpow {x : ℚ} {k : ℤ} (hk : quantum p emin x ≤ k) (h : x ≤ 2 ^ k) :
    round p emin x ≤ 2 ^ k := by
  have h2 : (0 : ℚ) < 2 ^ quantum p emin x := zpow_pos two_pos _
  have hsplit : (2 : ℚ) ^ k = ((2 ^ (k - quantum p emin x).toNat : ℤ) : ℚ) *
      2 ^ quantum p emin x := by
    push_cast
    rw [← zpow_natCast, ← zpow_add₀ two_ne_zero]
    congr 1
    omega
  rw [round, hsplit]
  refine mul_le_mul_of_nonneg_right ?_ h2.le
  rw [Int.cast_le, ← nearestEven_intCast (2 ^ (k - quantum p emin x).toNat)]
  refine nearestEven_mono ?_
  rw [div_le_iff₀ h2, ← hsplit]
  exact h

/-- A number that is not positive is not rounded to a positive one. -/
theorem round_nonpos {x : ℚ} (hx : x ≤ 0) : round p emin x ≤ 0 := by
  have h2 : (0 : ℚ) < 2 ^ quantum p emin x := zpow_pos two_pos _
  have h0 : nearestEven (x / 2 ^ quantum p emin x) ≤ 0 := by
    rw [← nearestEven_intCast 0]
    exact nearestEven_mono (by push_cast; exact div_nonpos_of_nonpos_of_nonneg hx h2.le)
  exact mul_nonpos_of_nonpos_of_nonneg (by exact_mod_cast h0) h2.le

/-- A number that is not negative is not rounded to a negative one. -/
theorem round_nonneg {x : ℚ} (hx : 0 ≤ x) : 0 ≤ round p emin x := by
  have h2 : (0 : ℚ) < 2 ^ quantum p emin x := zpow_pos two_pos _
  have h0 : (0 : ℤ) ≤ nearestEven (x / 2 ^ quantum p emin x) := by
    rw [← nearestEven_intCast 0]
    exact nearestEven_mono (by push_cast; positivity)
  exact mul_nonneg (by exact_mod_cast h0) h2.le

/-- **Rounding is monotone** on the non-negative rationals.  With the same last
place the nearest integers decide; otherwise a power of two separates the two
roundings. -/
theorem round_mono (hp : 1 ≤ p) {x y : ℚ} (hx : 0 ≤ x) (h : x ≤ y) :
    round p emin x ≤ round p emin y := by
  rcases hx.eq_or_lt with rfl | hx
  · rw [round_zero]
    exact round_nonneg h
  have hy := hx.trans_le h
  have hmono : quantum p emin x ≤ quantum p emin y := quantum_mono hx h
  rcases hmono.eq_or_lt with heq | hlt
  · have h2 : (0 : ℚ) < 2 ^ quantum p emin y := zpow_pos two_pos _
    unfold round
    rw [heq]
    refine mul_le_mul_of_nonneg_right ?_ h2.le
    rw [Int.cast_le]
    exact nearestEven_mono (div_le_div_of_nonneg_right h h2.le)
  · have hqx : Int.log 2 x - (p - 1) ≤ quantum p emin x ∧ emin ≤ quantum p emin x := by
      unfold quantum
      rw [abs_of_pos hx]
      omega
    have hqy : quantum p emin y = Int.log 2 y - (p - 1) := by
      have hmax : quantum p emin y = max (Int.log 2 y - (p - 1)) emin := by
        rw [quantum, abs_of_pos hy]
      omega
    calc round p emin x ≤ 2 ^ Int.log 2 y := by
          refine round_le_zpow (by omega) ?_
          refine (Int.lt_zpow_succ_log_self (R := ℚ) one_lt_two x).le.trans ?_
          exact_mod_cast zpow_le_zpow_right₀ (one_le_two : (1 : ℚ) ≤ 2) (by omega)
      _ ≤ round p emin y := zpow_log_le_round hp hy hqy

/-- The error is at most half of the last place, at numbers of either sign and below the normal
ones too. -/
theorem abs_round_sub_le (x : ℚ) : |round p emin x - x| ≤ 2 ^ quantum p emin x / 2 := by
  have h2 : (0 : ℚ) < 2 ^ quantum p emin x := zpow_pos two_pos _
  have hx : x = x / 2 ^ quantum p emin x * 2 ^ quantum p emin x := (div_mul_cancel₀ x h2.ne').symm
  have hsub : round p emin x - x =
      (nearestEven (x / 2 ^ quantum p emin x) - x / 2 ^ quantum p emin x) *
        2 ^ quantum p emin x := by
    rw [sub_mul, ← hx, round]
  rw [hsub, abs_mul, abs_of_pos h2]
  linarith [mul_le_mul_of_nonneg_right (abs_nearestEven_sub_le (x / 2 ^ quantum p emin x)) h2.le]

/-- Below `2^k` the error is at most half of the last place there. -/
theorem abs_round_sub_le_of_abs_lt {x : ℚ} {k : ℤ} (hx : |x| < 2 ^ k) (hk : emin ≤ k - p) :
    |round p emin x - x| ≤ 2 ^ (k - p) / 2 := by
  rcases eq_or_ne x 0 with rfl | hx0
  · rw [round_zero, sub_zero, abs_zero]
    exact div_nonneg (zpow_nonneg zero_le_two _) zero_le_two
  have hlog : Int.log 2 |x| < k := by
    rw [← Int.lt_zpow_iff_log_lt one_lt_two (abs_pos.2 hx0)]
    exact_mod_cast hx
  have hq : quantum p emin x ≤ k - p := by
    unfold quantum
    omega
  have h2 : (2 : ℚ) ^ quantum p emin x ≤ 2 ^ (k - p) := zpow_le_zpow_right₀ one_le_two hq
  have herr : |round p emin x - x| ≤ 2 ^ quantum p emin x / 2 := abs_round_sub_le x
  linarith

/-- **An even significand is reached from half a unit below:** at the midpoint the tie
goes to it, and rounding is monotone. -/
theorem le_round_of_sub_half_le (hp : 1 ≤ p) {x : ℚ} {m k : ℤ} (hm : Even m)
    (hlow : 2 ^ (p - 1) < m) (hhigh : m ≤ 2 ^ p) (hk : emin ≤ k)
    (h : (m : ℚ) * 2 ^ k - 2 ^ k / 2 ≤ x) : m * 2 ^ k ≤ round p emin x := by
  have h2 : (0 : ℚ) < 2 ^ k := zpow_pos two_pos k
  have hlow' : (2 : ℚ) ^ (p - 1) + 1 ≤ m := by exact_mod_cast hlow
  have hhigh' : (m : ℚ) ≤ 2 ^ p := by exact_mod_cast hhigh
  have hmid : (m : ℚ) * 2 ^ k - 2 ^ k / 2 = (m - 1 / 2) * 2 ^ k := by ring
  have hquantum : quantum p emin ((m - 1 / 2 : ℚ) * 2 ^ k) = k := by
    refine quantum_eq hp hk (mul_le_mul_of_nonneg_right ?_ h2.le) (mul_lt_mul_of_pos_right ?_ h2)
    · linarith
    · linarith
  have hround : round p emin ((m - 1 / 2 : ℚ) * 2 ^ k) = m * 2 ^ k := by
    have hnear : |((m : ℚ) - 1 / 2) - m| ≤ 1 / 2 := by
      rw [abs_le]
      constructor <;> linarith
    rw [round, hquantum, mul_div_cancel_right₀ _ h2.ne', nearestEven_eq_of_even hm hnear]
  have hpos : (0 : ℚ) ≤ (m - 1 / 2) * 2 ^ k := by
    have hone : (0 : ℚ) < 2 ^ (p - 1) := pow_pos two_pos _
    exact mul_nonneg (by linarith) h2.le
  rw [hmid] at h
  rw [← hround]
  exact round_mono hp hpos h

/-- A number more than half a unit below `z` stays below, as rounding moves it by half a unit at
most. -/
theorem round_lt_of_lt_sub_half {x z : ℚ} {k : ℤ} (hx : |x| < 2 ^ k) (hk : emin ≤ k - p)
    (h : x < z - 2 ^ (k - p) / 2) : round p emin x < z := by
  have herr := (abs_le.1 (abs_round_sub_le_of_abs_lt hx hk)).2
  linarith

/-- `fl` moves the numbers from `low` on by a relative error of at most `2^-p`. -/
def Perturbs (p : ℕ) (low : ℚ) (fl : ℚ → ℚ) : Prop := ∀ x, low ≤ x → |fl x - x| ≤ x / 2 ^ p

/-- What perturbs the numbers from some bound on perturbs those from a higher bound on. -/
theorem Perturbs.mono {low low' : ℚ} {fl : ℚ → ℚ} (h : Perturbs p low fl) (hle : low ≤ low') :
    Perturbs p low' fl :=
  fun x hx => h x (hle.trans hx)

/-- **Rounding has a relative error of at most `2^-p`,** from the smallest number on
whose last place is not cut off by `emin`. -/
theorem round_perturbs (p : ℕ) (emin : ℤ) : Perturbs p (2 ^ (emin + (p - 1))) (round p emin) := by
  intro x hx
  have hpos : 0 < x := (zpow_pos two_pos _).trans_le hx
  have hlog : emin + (p - 1) ≤ Int.log 2 x := by
    rw [← Int.zpow_le_iff_le_log one_lt_two hpos]
    exact_mod_cast hx
  have hq : quantum p emin x = Int.log 2 x - (p - 1) := by
    rw [quantum, abs_of_pos hpos]
    omega
  have herr : |round p emin x - x| ≤ 2 ^ quantum p emin x / 2 := abs_round_sub_le x
  have hle : (2 : ℚ) ^ Int.log 2 x ≤ x := by exact_mod_cast Int.zpow_log_le_self one_lt_two hpos
  have hsplit : (2 : ℚ) ^ quantum p emin x / 2 = 2 ^ Int.log 2 x / 2 ^ p := by
    rw [hq, show Int.log 2 x - (p - 1) = Int.log 2 x - p + 1 by ring,
      zpow_add_one₀ two_ne_zero, zpow_sub₀ two_ne_zero, zpow_natCast]
    ring
  rw [hsplit] at herr
  exact herr.trans (div_le_div_of_nonneg_right hle (by positivity))

end Binary
