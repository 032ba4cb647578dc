/-
# Decimal numerals, written and read

What `Float64.parseDecimal` makes of the plain numerals: digits, and digits with a
point (`parseDecimal_digits`, `parseDecimal_point`).  A numeral is never one of the names
of the infinities and of NaN, so `strconv.ParseFloat` reads it as the nearest `float64`
(`parseFloat_of_parseDecimal`).  A number of hundredths printed with two decimals is read
back exactly (`parseDecimal_twoDecimals`), and `fmt.Sprintf("%.2f")` prints that of the
nearest hundredth (`sprintf2f_of_near`).
-/

import BitcoinInvoice.Go.Float64
import Mathlib.Data.List.Induction
import Mathlib.Data.List.TakeWhile

namespace BitcoinInvoice
namespace Float64

/-- Only decimal digits. -/
def Digits (cs : List Char) : Prop := ∀ c ∈ cs, c.isDigit = true

/-- Two strings of digits, one behind the other, are a string of digits. -/
theorem Digits.append {cs ds : List Char} (hc : Digits cs) (hd : Digits ds) :
    Digits (cs ++ ds) := by
  intro c hmem
  rcases List.mem_append.1 hmem with h | h
  · exact hc c h
  · exact hd c h

/-- The digits in front count for as many powers of ten as there are digits behind them. -/
theorem digitsValue_append (cs ds : List Char) :
    digitsValue (cs ++ ds) = digitsValue cs * 10 ^ ds.length + digitsValue ds := by
  have h : ∀ es, digitsValue es = Nat.ofDigitChars 10 es 0 := fun _ => rfl
  rw [h, h, h, Nat.ofDigitChars_append, Nat.ofDigitChars_eq_ofDigitChars_zero, mul_comm]

/-- The digits of a number are read as this number: printing and reading a natural number are
inverse. -/
theorem digitsValue_toDigits (n : ℕ) : digitsValue (Nat.toDigits 10 n) = n :=
  Nat.ofDigitChars_ten_toDigits

/-- The digits of a number are decimal digits. -/
theorem digits_toDigits (n : ℕ) : Digits (Nat.toDigits 10 n) := by
  intro c hc
  exact Nat.isDigit_of_mem_toDigits (by norm_num) (by norm_num) hc

/-- A text that begins with a digit has no sign, so all of it is the numeral. -/
theorem splitSign_of_digit {c : Char} (hc : c.isDigit = true) (cs : List Char) :
    splitSign (c :: cs) = (false, c :: cs) := by
  have hplus : c ≠ '+' := by
    rintro rfl
    exact absurd hc (by decide)
  have hminus : c ≠ '-' := by
    rintro rfl
    exact absurd hc (by decide)
  unfold splitSign
  split <;> simp_all

/-- The mantissa of a string of digits is all of it, with no fraction and nothing behind. -/
theorem splitMantissa_digits {whole : List Char} (hw : Digits whole) :
    splitMantissa whole = (whole, [], []) := by
  have hdrop : whole.dropWhile Char.isDigit = [] := List.dropWhile_eq_nil_iff.2 hw
  have htake : whole.takeWhile Char.isDigit = whole := List.takeWhile_eq_self_iff.2 hw
  simp [splitMantissa, hdrop, htake]

/-- The mantissa of digits with a point in them is what stands in front of it and what stands
behind it. -/
theorem splitMantissa_point {whole fraction : List Char} (hw : Digits whole)
    (hf : Digits fraction) : splitMantissa (whole ++ '.' :: fraction) = (whole, fraction, []) := by
  have hdrop : (whole ++ '.' :: fraction).dropWhile Char.isDigit = '.' :: fraction := by
    rw [List.dropWhile_append_of_pos hw]
    rfl
  have htake : (whole ++ '.' :: fraction).takeWhile Char.isDigit = whole := by
    rw [List.takeWhile_append_of_pos hw]
    simp
  simp [splitMantissa, hdrop, htake, List.dropWhile_eq_nil_iff.2 hf,
    List.takeWhile_eq_self_iff.2 hf]

/-- **A string of digits is read as its value.** There is no sign, no point and no exponent in it,
so the three tests of the parser find nothing. -/
theorem parseDecimal_digits {whole : List Char} (hw : Digits whole) (hne : whole ≠ []) :
    parseDecimal whole = some (digitsValue whole) := by
  obtain ⟨c, cs, rfl⟩ := List.exists_cons_of_ne_nil hne
  have hsign := splitSign_of_digit (hw c (List.mem_cons_self ..)) cs
  simp [parseDecimal, hsign, splitMantissa_digits hw, parseExponent]

/-- **A string of digits with a point is read as the value of the digits,** divided by
ten for each behind the point. -/
theorem parseDecimal_point {whole fraction : List Char} (hw : Digits whole) (hne : whole ≠ [])
    (hf : Digits fraction) :
    parseDecimal (whole ++ '.' :: fraction) =
      some ((digitsValue (whole ++ fraction) : ℚ) / 10 ^ fraction.length) := by
  obtain ⟨c, cs, rfl⟩ := List.exists_cons_of_ne_nil hne
  have hsign : splitSign (c :: cs ++ '.' :: fraction) = (false, c :: cs ++ '.' :: fraction) :=
    splitSign_of_digit (hw c (List.mem_cons_self ..)) _
  have hexp : (10 : ℚ) ^ (0 - (fraction.length : ℤ)) = (10 ^ fraction.length)⁻¹ := by
    rw [zero_sub, zpow_neg, zpow_natCast]
  unfold parseDecimal
  rw [hsign]
  simp only [splitMantissa_point hw hf, parseExponent, hexp]
  simp [div_eq_mul_inv]

/-- The same over a fixed power of ten, for a numeral with no more digits behind the
point. -/
theorem parseDecimal_places {whole fraction : List Char} (hw : Digits whole) (hne : whole ≠ [])
    (hf : Digits fraction) {places : ℕ} (hlen : fraction.length ≤ places) :
    parseDecimal (whole ++ '.' :: fraction) =
      some (((10 ^ places * digitsValue whole +
        digitsValue fraction * 10 ^ (places - fraction.length) : ℕ) : ℚ) / 10 ^ places) := by
  rw [parseDecimal_point hw hne hf, digitsValue_append]
  obtain ⟨j, rfl⟩ := Nat.exists_eq_add_of_le hlen
  rw [Nat.add_sub_cancel_left, pow_add]
  congr 1
  push_cast
  field_simp
  ring

/-! ### Numerals and names -/

/-- The code points of the digits and the point lie between 46 and 57, which keeps them apart from
signs, letters and white space. -/
theorem toNat_of_plain {c : Char} (hc : c.isDigit = true ∨ c = '.') :
    46 ≤ c.toNat ∧ c.toNat ≤ 57 := by
  rcases hc with hc | rfl
  · have hrange : 48 ≤ c.toNat ∧ c.toNat ≤ 57 := by
      simpa [Char.isDigit, UInt32.le_iff_toNat_le] using hc
    omega
  · decide

/-- The digits and the point have no upper and lower case, so folding the case of a numeral
changes nothing. -/
theorem toLower_of_plain {c : Char} (hc : c.isDigit = true ∨ c = '.') : c.toLower = c := by
  have hrange := toNat_of_plain hc
  refine dif_neg ?_
  rintro ⟨hA, -⟩
  have hA' : 65 ≤ c.toNat := UInt32.le_iff_toNat_le.1 hA
  omega

/-- Behind its sign a numeral starts with a digit or the point. -/
theorem head_of_parseDecimal {cs : List Char} {q : ℚ} (h : parseDecimal cs = some q) :
    ∃ c ds, (splitSign cs).2 = c :: ds ∧ (c.isDigit = true ∨ c = '.') := by
  cases hcs : (splitSign cs).2 with
  | nil => simp [parseDecimal, hcs, splitMantissa] at h
  | cons c ds =>
      refine ⟨c, ds, rfl, ?_⟩
      by_contra hn
      obtain ⟨hdigit, hpoint⟩ := not_or.1 hn
      have hsplit : splitMantissa (c :: ds) = ([], [], c :: ds) := by
        simp [splitMantissa, hdigit, hpoint]
      simp [parseDecimal, hcs, hsplit] at h

/-- **No numeral is one of the names,** `inf`, `infinity` and `nan`, which start with a letter
behind their sign: a text is read in one way only. -/
theorem parseSpecial_of_parseDecimal {cs : List Char} {q : ℚ} (h : parseDecimal cs = some q) :
    parseSpecial cs = none := by
  obtain ⟨c, ds, hcs, hc⟩ := head_of_parseDecimal h
  have hrange := toNat_of_plain hc
  have hne : ∀ d : Char, d.toNat < 46 ∨ 57 < d.toNat → c ≠ d := by
    rintro d hd rfl
    omega
  have hcases : cs = '+' :: c :: ds ∨ cs = '-' :: c :: ds ∨ cs = c :: ds := by
    unfold splitSign at hcs
    split at hcs <;> simp_all
  have hi := hne 'i' (by decide)
  have hn := hne 'n' (by decide)
  rcases hcases with rfl | rfl | rfl
  · simp [parseSpecial, ← String.toList_inj, toLower_of_plain hc, hi]
  · simp [parseSpecial, ← String.toList_inj, toLower_of_plain hc, hi]
  · have hplus := hne '+' (by decide)
    have hminus := hne '-' (by decide)
    simp [parseSpecial, ← String.toList_inj, toLower_of_plain hc, hi, hn, hplus, hminus]

/-- **`strconv.ParseFloat` of a numeral** is the nearest `float64` of its exact value, rounded
once, where that does not overflow. -/
theorem parseFloat_of_parseDecimal {cs : List Char} {q : ℚ} (h : parseDecimal cs = some q)
    (hlt : |round q| < 2 ^ 64) : parseFloat cs = some (finite (round q)) := by
  simp only [parseFloat, parseSpecial_of_parseDecimal h, h, ofRat_eq_finite hlt]

/-! ### Two decimals -/

/-- A number of hundredths, printed with two decimals. -/
def twoDecimals (n : ℕ) : String :=
  toString (n / 100) ++ "." ++ toString (n % 100 / 10) ++ toString (n % 10)

/-- The characters of a number of hundredths that is printed with two decimals: the whole part,
the point, and the two digits, of which the first may be zero. -/
theorem twoDecimals_toList (n : ℕ) :
    (twoDecimals n).toList = Nat.toDigits 10 (n / 100) ++ '.' ::
      (Nat.toDigits 10 (n % 100 / 10) ++ Nat.toDigits 10 (n % 10)) := by
  simp [twoDecimals]

/-- **Two decimals are read back exactly,** as a rational number: whatever a rounding does happens
before the text is printed or after it is read. -/
theorem parseDecimal_twoDecimals (n : ℕ) :
    parseDecimal (twoDecimals n).toList = some ((n : ℚ) / 100) := by
  have htens : (Nat.toDigits 10 (n % 100 / 10)).length = 1 := by
    rw [Nat.toDigits_of_lt_base (by omega)]
    rfl
  have hones : (Nat.toDigits 10 (n % 10)).length = 1 := by
    rw [Nat.toDigits_of_lt_base (by omega)]
    rfl
  rw [twoDecimals_toList, parseDecimal_point (digits_toDigits _)
    (List.ne_nil_of_length_pos Nat.length_toDigits_pos)
    ((digits_toDigits _).append (digits_toDigits _)), digitsValue_append, digitsValue_append,
    digitsValue_toDigits, digitsValue_toDigits, digitsValue_toDigits, List.length_append, htens,
    hones]
  have hn : n / 100 * 10 ^ (1 + 1) + (n % 100 / 10 * 10 ^ 1 + n % 10) = n := by omega
  rw [hn]
  norm_num

/-- **`fmt.Sprintf("%.2f")` of a number near `n` hundredths** prints these: less than half a
hundredth away there is no tie, and no other number of hundredths is as near. -/
theorem sprintf2f_of_near {q : ℚ} {n : ℕ} (hq : 0 ≤ q) (h : |q * 100 - n| < 1 / 2) :
    (finite q).sprintf2f = twoDecimals n := by
  have hnear : Binary.nearestEven (|q| * 100) = n := by
    rw [abs_of_nonneg hq]
    exact Binary.nearestEven_eq_of_abs_lt (by exact_mod_cast h)
  simp [sprintf2f, hnear, twoDecimals, not_lt.2 hq]

end Float64
end BitcoinInvoice
