/-
# The dollar amount

An amount is converted three times.  `handleChange` of
`client/src/components/CreateInvoice/index.jsx` makes cents of the text of the input,
which a mask keeps to a dollar sign, digits grouped by commas and at most two decimals.
`getPrice` of the server makes dollars of the cents for its query, and `fiatFormat` of
`client/src/components/Receipt/index.jsx` makes dollars of them for the page.

Each conversion goes through floating point, and none loses a cent: a relative error of
`2^-53` leaves every amount of cents less than half a cent away, where rounding and
printing find it again.
-/

import BitcoinInvoice.Api.Price
import BitcoinInvoice.Js.Number

namespace BitcoinInvoice

open Float64 Js

/-- `handleChange`: the `fiatValue` it sets for the text of the input. -/
def handleChange (fl : ℚ → ℚ) (text : List Char) : Float64 :=
  let value := text.drop 1
  let value := value.filter (· ≠ ',')
  let value := mulWith fl (toNumber fl value) (finite 100)
  mathRound value

/-- `fiat` of `getPrice`, whatever the rounding. -/
def fiatWith (fl : ℚ → ℚ) (fiatValue : Int32) : Float64 :=
  divWith fl (finite fiatValue.toInt) (finite 100)

/-- `fiatFormat`: the amount in dollars the page shows. -/
def fiatFormat (fl : ℚ → ℚ) (display : Float64 → String) (fiatValue : Int32) : String :=
  toFixed2 display (divWith fl (finite fiatValue.toInt) (finite 100))

/-- `fiat` itself rounds as `float64` does, so what holds of every rounding with the relative
error holds of the server. -/
theorem fiat_eq_fiatWith (fiatValue : Int32) :
    fiat fiatValue = fiatWith Float64.round fiatValue := by
  have hvalue : |fiatValue.toInt| ≤ 2 ^ 53 := by
    rw [abs_le]
    have hlow := fiatValue.le_toInt
    have hhigh := fiatValue.toInt_lt
    omega
  have hhundred : ofRat 100 = finite 100 := ofRat_intCast (n := 100) (by norm_num)
  rw [fiat, fiatWith, divWith_round, ofRat_intCast hvalue, hhundred]

/-! ### What is typed -/

/-- `text` is the non-empty string of `digits` with commas anywhere in it. -/
structure Grouped (text digits : List Char) : Prop where
  ungrouped : text.filter (· ≠ ',') = digits
  onlyDigits : Digits digits
  nonempty : digits ≠ []

/-- The texts of amounts, and the cents they denote: a dollar sign, a grouped number of
dollars, and perhaps a point with at most two digits behind it. -/
inductive Typed : List Char → ℕ → Prop
  | dollars {whole digits : List Char} (hw : Grouped whole digits) :
      Typed ('$' :: whole) (100 * digitsValue digits)
  | cents {whole digits fraction : List Char} (hw : Grouped whole digits) (hf : Digits fraction)
      (hlen : fraction.length ≤ 2) :
      Typed ('$' :: (whole ++ '.' :: fraction))
        (100 * digitsValue digits + digitsValue fraction * 10 ^ (2 - fraction.length))

/-- Taking out the commas leaves a string of digits as it is. -/
theorem filter_comma_of_digits {fraction : List Char} (hf : Digits fraction) :
    fraction.filter (· ≠ ',') = fraction := by
  rw [List.filter_eq_self]
  intro c hc
  rw [decide_eq_true_iff]
  rintro rfl
  exact absurd (hf ',' hc) (by decide)

/-- **The text is read as the amount in dollars,** but for the rounding. The dollar sign is
dropped, the commas are filtered out, and what is left is a plain numeral, however the digits were
grouped. -/
theorem Typed.toNumber_eq {fl : ℚ → ℚ} {text : List Char} {c : ℕ} (h : Typed text c) :
    toNumber fl ((text.drop 1).filter (· ≠ ',')) = ofRatWith fl ((c : ℚ) / 100) := by
  cases h with
  | @dollars whole digits hw =>
      have hread : toNumber fl digits = _ := toNumber_of_plain (plain_of_digits hw.onlyDigits)
        (parseDecimal_digits hw.onlyDigits hw.nonempty)
      rw [List.drop_one, List.tail_cons, hw.ungrouped, hread]
      congr 1
      push_cast
      ring
  | @cents whole digits fraction hw hf hlen =>
      have hread : toNumber fl (digits ++ '.' :: fraction) = _ :=
        toNumber_of_plain (Plain.append_point hw.onlyDigits hf)
          (parseDecimal_places hw.onlyDigits hw.nonempty hf hlen)
      have hfilter : (whole ++ '.' :: fraction).filter (· ≠ ',') = digits ++ '.' :: fraction := by
        rw [List.filter_append, hw.ungrouped, List.filter_cons_of_pos (by decide),
          filter_comma_of_digits hf]
      rw [List.drop_one, List.tail_cons, hfilter, hread]
      norm_num

/-- `s` is a decimal numeral for `c` cents in dollars. -/
def Denotes (s : String) (c : ℕ) : Prop := parseDecimal s.toList = some ((c : ℚ) / 100)

/-- Cents printed with two decimals denote themselves in dollars, which is how the price feed and
the receipt are told them. -/
theorem denotes_twoDecimals (c : ℕ) : Denotes (twoDecimals c) c := parseDecimal_twoDecimals c

section Conversions

variable {fl : ℚ → ℚ} {text : List Char} {c : ℕ} {fiatValue : Int32}

/-- As rational numbers, the cents lie between 1 and `2^31`, where the relative error of the
rounding applies. -/
theorem cents_range (hpos : 0 < c) (hle : c ≤ 2 ^ 31 - 1) : (1 : ℚ) ≤ c ∧ (c : ℚ) ≤ 2 ^ 31 := by
  constructor
  · exact_mod_cast hpos
  · exact_mod_cast hle.trans (Nat.sub_le _ _)

/-- The division by a hundred is that of the rational numbers, rounded once: both of its operands
are exact. -/
theorem divWith_hundred (n : ℤ) : divWith fl (finite n) (finite 100) = ofRatWith fl (n / 100) := by
  norm_num [divWith]

/-- **The cents typed are the cents set.** The dollars are rounded when they are read and again
when they are multiplied, which is less than half a cent, and `Math.round` takes it away. -/
theorem handleChange_typed (hfl : Binary.Perturbs 53 (1 / 100) fl) (h : Typed text c) (hpos : 0 < c)
    (hle : c ≤ 2 ^ 31 - 1) : handleChange fl text = finite c := by
  obtain ⟨hpos', hle'⟩ := cents_range hpos hle
  have hnear : |fl (fl ((c : ℚ) / 100) * 100) - (c : ℤ)| < 1 / 2 := abs_scaled_sub_lt hfl hpos' hle'
  unfold handleChange
  simp only [h.toNumber_eq, ofRatWith_dollars hfl hpos' hle', mulWith,
    ofRatWith_scaled hfl hpos' hle', mathRound_of_near hnear, Int.cast_natCast]

/-- **The dollars priced** are the amount: the quotient is rounded once, and printing it with two
decimals takes the error away. -/
theorem denotes_sprintf2f (hfl : Binary.Perturbs 53 (1 / 100) fl) (hv : fiatValue.toInt = c)
    (hpos : 0 < c) (hle : c ≤ 2 ^ 31 - 1) : Denotes (fiatWith fl fiatValue).sprintf2f c := by
  obtain ⟨hpos', hle'⟩ := cents_range hpos hle
  have hlow := le_dollars hfl hpos'
  have hdollars : fiatWith fl fiatValue = finite (fl ((c : ℚ) / 100)) := by
    rw [fiatWith, divWith_hundred, hv, Int.cast_natCast, ofRatWith_dollars hfl hpos' hle']
  rw [hdollars, sprintf2f_of_near (by linarith) (abs_dollars_sub_lt hfl hpos' hle')]
  exact denotes_twoDecimals c

/-- **The dollars shown** are the amount, by a division and two decimals of another language:
neither touches the cents. -/
theorem denotes_fiatFormat {display : Float64 → String} (hfl : Binary.Perturbs 53 (1 / 100) fl)
    (hv : fiatValue.toInt = c) (hpos : 0 < c) (hle : c ≤ 2 ^ 31 - 1) :
    Denotes (fiatFormat fl display fiatValue) c := by
  obtain ⟨hpos', hle'⟩ := cents_range hpos hle
  have hlow := le_dollars hfl hpos'
  have hnear := abs_dollars_sub_lt hfl hpos' hle'
  have hlt : fl ((c : ℚ) / 100) < 10 ^ 21 := (dollars_le hfl hpos' hle').trans_lt (by norm_num)
  rw [fiatFormat, divWith_hundred, hv, Int.cast_natCast, ofRatWith_dollars hfl hpos' hle',
    toFixed2_of_near (by linarith) hlt hnear]
  exact denotes_twoDecimals c

end Conversions

/-- **The amount survives.**  What is typed is what is set, what is priced and what is
shown, whatever the roundings of the three places with a relative error of `2^-53`.  Priced
is the value parameter of the one URL that `getPrice` asks. -/
theorem amount_survives {typing pricing showing : ℚ → ℚ}
    (htyping : Binary.Perturbs 53 (1 / 100) typing)
    (hpricing : Binary.Perturbs 53 (1 / 100) pricing)
    (hshowing : Binary.Perturbs 53 (1 / 100) showing) (display : Float64 → String)
    {text : List Char} {c : ℕ} (htext : Typed text c) (hpos : 0 < c) (hle : c ≤ 2 ^ 31 - 1) :
    handleChange typing text = finite c ∧
      ∃ fiatValue : Int32, fiatValue.toInt = c ∧
        Denotes (fiatWith pricing fiatValue).sprintf2f c ∧
        Denotes (fiatFormat showing display fiatValue) c ∧
        ∃ value, priceURL fiatValue = "https://blockchain.com/tobtc?currency=USD&value=" ++ value ∧
          (∀ url, Asks fiatValue url ↔
            url = "https://blockchain.com/tobtc?currency=USD&value=" ++ value) ∧
          Denotes value c := by
  have hv : (Int32.ofInt c).toInt = c := Int32.toInt_ofInt_of_le (by omega) (by omega)
  refine ⟨handleChange_typed htyping htext hpos hle, Int32.ofInt c, hv,
    denotes_sprintf2f hpricing hv hpos hle, denotes_fiatFormat hshowing hv hpos hle, _, rfl,
    fun _ => asks_iff, ?_⟩
  rw [fiat_eq_fiatWith]
  exact denotes_sprintf2f perturbs_round hv hpos hle

/-- The theorem at `$1,234.5`, with the rounding of `float64`: a comma among the digits and one
decimal only. -/
theorem amount_survives_grouped :
    handleChange Float64.round "$1,234.5".toList = finite (123450 : ℕ) ∧
      ∃ fiatValue : Int32, fiatValue.toInt = (123450 : ℕ) ∧
        Denotes (fiatWith Float64.round fiatValue).sprintf2f 123450 ∧
        Denotes (fiatFormat Float64.round (fun _ => "") fiatValue) 123450 ∧
        ∃ value, priceURL fiatValue = "https://blockchain.com/tobtc?currency=USD&value=" ++ value ∧
          (∀ url, Asks fiatValue url ↔
            url = "https://blockchain.com/tobtc?currency=USD&value=" ++ value) ∧
          Denotes value 123450 := by
  have hwhole : Grouped "1,234".toList "1234".toList :=
    ⟨by decide, by simp [Digits], by simp⟩
  have hfraction : Digits "5".toList := by simp [Digits]
  exact amount_survives perturbs_round perturbs_round perturbs_round (fun _ => "")
    (Typed.cents hwhole hfraction (by simp)) (by norm_num) (by norm_num)

end BitcoinInvoice
