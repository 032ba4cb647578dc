/-
# float64, `strconv.ParseFloat` and `fmt.Sprintf("%.2f")`

A `float64` is a rational of the format with 53 significant bits and smallest
exponent -1074, an infinity or a NaN.  Each operation is the exact one followed
by `Binary.round`, and overflows to an infinity from `2^1024` on (`ofRat`).  The
sign of a zero is left out: nothing in the server divides by a zero or prints one.

`parseFloat` follows the documentation of `strconv.ParseFloat`: an optional
sign, decimal digits with at most one point, an optional exponent, or one of the
names of the infinities and of NaN in any case; the nearest `float64` of the
number denoted, and an error where that overflows.  These are the forms of the
toolchain named in `server/Dockerfile`; later ones also read hexadecimal.
-/

import BitcoinInvoice.Library.Rounding

namespace BitcoinInvoice

inductive Float64 where
  | finite (value : ℚ)
  | inf (negative : Bool)
  | nan
  deriving DecidableEq

namespace Float64

/-- The `float64` nearest to `x`. -/
def round (x : ℚ) : ℚ := Binary.round 53 (-1074) x

/-- The result of an operation whose exact result is `x`. -/
def ofRat (x : ℚ) : Float64 :=
  if 2 ^ 1024 ≤ |round x| then inf (decide (x < 0)) else finite (round x)

def mul : Float64 → Float64 → Float64
  | finite a, finite b => ofRat (a * b)
  | finite a, inf t => if a = 0 then nan else inf (decide (a < 0) != t)
  | inf s, finite b => if b = 0 then nan else inf (s != decide (b < 0))
  | inf s, inf t => inf (s != t)
  | nan, _ | _, nan => nan

def div : Float64 → Float64 → Float64
  | finite a, finite b =>
      if b = 0 then if a = 0 then nan else inf (decide (a < 0)) else ofRat (a / b)
  | finite _, inf _ => finite 0
  | inf s, finite b => inf (s != decide (b < 0))
  | inf _, inf _ => nan
  | nan, _ | _, nan => nan

/-- Truncation toward zero. -/
def trunc (q : ℚ) : ℤ := if 0 ≤ q then ⌊q⌋ else ⌈q⌉

/-- A number that is not negative is truncated to its floor; below zero the two differ, and Go
goes towards zero. -/
theorem trunc_of_nonneg {q : ℚ} (hq : 0 ≤ q) : trunc q = ⌊q⌋ := if_pos hq

/-- `int64(f)`.  What becomes of a value that does not fit is up to the
implementation: `convert` is its choice. -/
def toInt64 (convert : Float64 → Int64) (f : Float64) : Int64 :=
  match f with
  | finite q => if -2 ^ 63 ≤ trunc q ∧ trunc q < 2 ^ 63 then Int64.ofInt (trunc q) else convert f
  | inf _ | nan => convert f

/-- A sign, if there is one, and what follows it. -/
def splitSign : List Char → Bool × List Char
  | '+' :: cs => (false, cs)
  | '-' :: cs => (true, cs)
  | cs => (false, cs)

/-- The digits before the point, those after it, and the rest. -/
def splitMantissa (cs : List Char) : List Char × List Char × List Char :=
  match cs.dropWhile Char.isDigit with
  | '.' :: rest =>
      (cs.takeWhile Char.isDigit, rest.takeWhile Char.isDigit, rest.dropWhile Char.isDigit)
  | rest => (cs.takeWhile Char.isDigit, [], rest)

/-- The number a string of decimal digits denotes. -/
def digitsValue (ds : List Char) : ℕ := ds.foldl (fun n c => 10 * n + (c.toNat - '0'.toNat)) 0

/-- The exponent part, which must be all that is left. -/
def parseExponent : List Char → Option ℤ
  | [] => some 0
  | c :: cs =>
      if c = 'e' ∨ c = 'E' then
        let (negative, ds) := splitSign cs
        if ds = [] ∨ ¬ ds.all Char.isDigit then none
        else some (if negative then -digitsValue ds else digitsValue ds)
      else none

/-- The rational a decimal numeral denotes. -/
def parseDecimal (cs : List Char) : Option ℚ :=
  let (negative, cs) := splitSign cs
  let (whole, fraction, rest) := splitMantissa cs
  if whole = [] ∧ fraction = [] then none
  else
    match parseExponent rest with
    | none => none
    | some e =>
        let magnitude : ℚ := digitsValue (whole ++ fraction) * 10 ^ (e - fraction.length)
        some (if negative then -magnitude else magnitude)

/-- The names of the infinities and of NaN, in any case. -/
def parseSpecial (cs : List Char) : Option Float64 :=
  let name := String.ofList (cs.map Char.toLower)
  if name ∈ ["inf", "+inf", "infinity", "+infinity"] then some (inf false)
  else if name ∈ ["-inf", "-infinity"] then some (inf true)
  else if name = "nan" then some nan
  else none

/-- `strconv.ParseFloat(s, 64)`, with `none` for its errors. -/
def parseFloat (cs : List Char) : Option Float64 :=
  match parseSpecial cs with
  | some f => some f
  | none =>
      match parseDecimal cs with
      | none => none
      | some q =>
          match ofRat q with
          | finite r => some (finite r)
          | inf _ | nan => none

example : parseFloat "12.50".toList = some (finite (25 / 2)) := by decide +kernel

example : parseFloat "1.2.3".toList = none := by decide +kernel

/-- `fmt.Sprintf("%.2f", f)`: two decimals of the exact value, ties to even. -/
def sprintf2f : Float64 → String
  | finite q =>
      let cents := (Binary.nearestEven (|q| * 100)).toNat
      (if q < 0 then "-" else "") ++ toString (cents / 100) ++ "." ++
        toString (cents % 100 / 10) ++ toString (cents % 10)
  | inf negative => if negative then "-Inf" else "+Inf"
  | nan => "NaN"

/-- **The integers up to `2^53` are exact.** Below it the spacing of the format is at most one,
and `2^53` itself is a power of two. -/
theorem round_intCast {n : ℤ} (hn : |n| ≤ 2 ^ 53) : round n = n :=
  Binary.round_representable (by norm_num) (Binary.representable_intCast (by norm_num) hn)

/-- Rounding does not change the sign of a number that is not negative, since zero is itself a
number of the format. -/
theorem round_nonneg {x : ℚ} (hx : 0 ≤ x) : 0 ≤ round x := Binary.round_nonneg hx

/-- Rounding keeps the order of numbers that are not negative, so an upper or a lower bound that
is a number of the format survives it. -/
theorem round_mono {x y : ℚ} (hx : 0 ≤ x) (h : x ≤ y) : round x ≤ round y :=
  Binary.round_mono (by norm_num) hx h

/-- Below `2^k` rounding moves a number by at most `2^(k - 54)`, half the spacing of the binade
below `2^k`. -/
theorem abs_round_sub_le {x : ℚ} {k : ℤ} (hx : |x| < 2 ^ k) (hk : -1021 ≤ k) :
    |round x - x| ≤ 2 ^ (k - 54) := by
  have herr : |round x - x| ≤ 2 ^ (k - (53 : ℕ)) / 2 :=
    Binary.abs_round_sub_le_of_abs_lt hx (by push_cast; omega)
  have hsplit : (2 : ℚ) ^ (k - 54) = 2 ^ (k - (53 : ℕ)) / 2 := by
    rw [show k - (53 : ℕ) = k - 54 + 1 by push_cast; ring, zpow_add_one₀ two_ne_zero]
    ring
  rw [hsplit]
  exact herr

/-- The numbers rounded to one or more begin halfway between the last
`float64` below one and one. -/
theorem one_le_round_iff {x : ℚ} : 1 ≤ round x ↔ 1 - 1 / 2 ^ 54 ≤ x := by
  constructor
  · intro h
    by_contra hlt
    rw [not_le] at hlt
    rcases le_or_gt x 0 with hx | hx
    · have h0 : round x ≤ 0 := Binary.round_nonpos hx
      linarith
    · have hx1 : |x| < 2 ^ (0 : ℤ) := by
        rw [abs_of_pos hx, zpow_zero]
        linarith
      have herr := abs_le.1 (abs_round_sub_le hx1 (by norm_num))
      norm_num at herr hlt
      linarith [herr.2]
  · intro h
    have hedge : round (1 - 1 / 2 ^ 54) = 1 := by decide +kernel
    rw [← hedge]
    exact round_mono (by norm_num) h

/-- A result of the size of a 64-bit integer does not overflow, so what the machine computes is
the rounded exact result. -/
theorem ofRat_eq_finite {x : ℚ} (h : |round x| < 2 ^ 64) : ofRat x = finite (round x) :=
  if_neg (not_le.2 (h.trans (pow_lt_pow_right₀ one_lt_two (by norm_num))))

/-- **The integers up to `2^53` are constants** of the program, and conversions of an `int64` of
this size lose nothing. -/
theorem ofRat_intCast {n : ℤ} (hn : |n| ≤ 2 ^ 53) : ofRat n = finite n := by
  have hround : round n = n := round_intCast hn
  have hn' : |(n : ℚ)| ≤ 2 ^ 53 := by exact_mod_cast hn
  have hlt : |round n| < 2 ^ 64 := by
    rw [hround]
    exact hn'.trans_lt (by norm_num)
  rw [ofRat_eq_finite hlt, hround]

/-- Truncation goes towards zero, so it makes no number larger in absolute value, whatever its
sign. -/
theorem abs_trunc_le (q : ℚ) : |(trunc q : ℚ)| ≤ |q| := by
  unfold trunc
  split_ifs with hq
  · have h0 : (0 : ℚ) ≤ ⌊q⌋ := by exact_mod_cast Int.floor_nonneg.2 hq
    rw [abs_of_nonneg hq, abs_of_nonneg h0]
    exact Int.floor_le q
  · have hq' : q ≤ 0 := (not_le.1 hq).le
    have h0 : (⌈q⌉ : ℚ) ≤ 0 := by exact_mod_cast Int.ceil_le.2 (by exact_mod_cast hq')
    rw [abs_of_nonpos hq', abs_of_nonpos h0]
    linarith [Int.le_ceil q]

/-- Truncation takes away less than one. -/
theorem abs_lt_abs_trunc_add_one (q : ℚ) : |q| < |(trunc q : ℚ)| + 1 := by
  unfold trunc
  split_ifs with hq
  · rw [abs_of_nonneg hq]
    linarith [Int.lt_floor_add_one q, le_abs_self (⌊q⌋ : ℚ)]
  · rw [abs_of_neg (not_le.1 hq)]
    linarith [Int.ceil_lt_add_one q, neg_le_abs (⌈q⌉ : ℚ)]

/-- A number is truncated to a positive one exactly from one on. -/
theorem trunc_pos_iff {q : ℚ} : 0 < trunc q ↔ 1 ≤ q := by
  unfold trunc
  split_ifs with hq
  · rw [Int.floor_pos]
  · rw [Int.ceil_pos]
    constructor <;> intro h <;> linarith

/-- A conversion that is in range does not depend on the implementation: it is the number without
its fraction. Outside the range the language leaves the result open. -/
theorem toInt64_of_abs_lt {convert : Float64 → Int64} {q : ℚ} (h : |q| < 2 ^ 63) :
    toInt64 convert (finite q) = Int64.ofInt (trunc q) := by
  have habs := abs_lt.1 ((abs_trunc_le q).trans_lt h)
  refine if_pos ⟨?_, ?_⟩
  · exact_mod_cast habs.1.le
  · exact_mod_cast habs.2

/-- The conversion to an integer is the truncation where this is in range, whatever the machine
does elsewhere. -/
theorem toInt64_finite {convert : Float64 → Int64} {q : ℚ} (h0 : -2 ^ 63 ≤ trunc q)
    (h1 : trunc q < 2 ^ 63) : (toInt64 convert (finite q)).toInt = trunc q := by
  simp only [toInt64, if_pos (And.intro h0 h1)]
  exact Int64.toInt_ofInt_of_le h0 h1

end Float64
end BitcoinInvoice
