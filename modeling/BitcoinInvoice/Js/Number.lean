/-
# Numbers of JavaScript

A number of JavaScript is a `float64`.  What the client uses of the language: the
conversion of a string (`toNumber`), `Math.round` and `toFixed(2)`.

`toNumber` follows the grammar of the language: the string without the white space
around it is empty, a literal with the prefix of its radix, a name of an infinity, or
a decimal numeral; everything else is not a number.  Strings are lists of characters
below `U+10000`, which are single code units.
-/

import BitcoinInvoice.Go.Decimal
import BitcoinInvoice.Go.Perturbed

namespace BitcoinInvoice
namespace Js

open Float64

/-- The white space and line terminators of the language. -/
def isSpace (c : Char) : Bool :=
  c.toNat ∈ [0x9, 0xA, 0xB, 0xC, 0xD, 0x20, 0xA0, 0x1680, 0x2028, 0x2029, 0x202F, 0x205F, 0x3000,
    0xFEFF] || (0x2000 ≤ c.toNat && c.toNat ≤ 0x200A)

def trim (cs : List Char) : List Char :=
  ((cs.dropWhile isSpace).reverse.dropWhile isSpace).reverse

/-- The radix of a literal with a prefix, and what follows the prefix. -/
def splitRadix : List Char → Option (ℕ × List Char)
  | '0' :: c :: ds =>
      if c.toLower = 'x' then some (16, ds)
      else if c.toLower = 'o' then some (8, ds)
      else if c.toLower = 'b' then some (2, ds)
      else none
  | _ => none

/-- The digit a character stands for, of any radix up to 16. -/
def digitOf (c : Char) : Option ℕ :=
  if c.isDigit then some (c.toNat - '0'.toNat)
  else if 'a' ≤ c.toLower ∧ c.toLower ≤ 'f' then some (c.toLower.toNat - 'a'.toNat + 10)
  else none

/-- The number a string of digits of the radix denotes. -/
def radixValue (radix : ℕ) (ds : List Char) : Option ℕ :=
  if ds = [] then none
  else
    ds.foldlM (fun n c =>
      match digitOf c with
      | some d => if d < radix then some (n * radix + d) else none
      | none => none) 0

/-- The number a string is converted to. -/
def toNumber (fl : ℚ → ℚ) (cs : List Char) : Float64 :=
  if trim cs = [] then finite 0
  else
    match splitRadix (trim cs) with
    | some (radix, ds) =>
        match radixValue radix ds with
        | some n => ofRatWith fl n
        | none => nan
    | none =>
        if String.ofList (trim cs) ∈ ["Infinity", "+Infinity"] then inf false
        else if String.ofList (trim cs) = "-Infinity" then inf true
        else
          match parseDecimal (trim cs) with
          | some q => ofRatWith fl q
          | none => nan

example : toNumber round " 0x1F ".toList = finite 31 := by decide +kernel

/-- `Math.round`: the nearest integer, the greater one of two equally near. -/
def mathRound : Float64 → Float64
  | finite q => finite ⌊q + 1 / 2⌋
  | inf negative => inf negative
  | nan => nan

/-- `x.toFixed(2)`: the nearest number of hundredths, the greater one of two equally
near.  `display` is `x.toString()`, which the numbers from `10^21` on are left to. -/
def toFixed2 (display : Float64 → String) : Float64 → String
  | finite q =>
      if 10 ^ 21 ≤ |q| then display (finite q)
      else
        let hundredths := ⌊|q| * 100 + 1 / 2⌋.toNat
        (if q < 0 then "-" else "") ++ toString (hundredths / 100) ++ "." ++
          toString (hundredths % 100 / 10) ++ toString (hundredths % 10)
  | inf negative => display (inf negative)
  | nan => display nan

/-! ### Plain numerals -/

/-- Only the characters of the plain numerals. -/
def Plain (cs : List Char) : Prop := ∀ c ∈ cs, c.isDigit = true ∨ c = '.'

/-- A string of digits is plain text. -/
theorem plain_of_digits {cs : List Char} (hcs : Digits cs) : Plain cs :=
  fun c hc => Or.inl (hcs c hc)

/-- Digits with a point in them are plain text, which is what a form with a money mask sends to be
converted. -/
theorem Plain.append_point {whole fraction : List Char} (hw : Digits whole) (hf : Digits fraction) :
    Plain (whole ++ '.' :: fraction) := by
  intro c hc
  rcases List.mem_append.1 hc with h | h
  · exact Or.inl (hw c h)
  · rcases List.mem_cons.1 h with rfl | h
    · exact Or.inr rfl
    · exact Or.inl (hf c h)

/-- Neither the digits nor the point are white space, by their code points. -/
theorem isSpace_of_plain {c : Char} (hc : c.isDigit = true ∨ c = '.') : isSpace c = false := by
  have hrange := toNat_of_plain hc
  simp only [isSpace, List.mem_cons, List.not_mem_nil, or_false, Bool.or_eq_false_iff,
    decide_eq_false_iff_not, Bool.and_eq_false_iff]
  omega

/-- There is nothing to trim from plain text, at either end, so the whole of it is converted. -/
theorem trim_of_plain {cs : List Char} (hcs : Plain cs) : trim cs = cs := by
  have hdrop : ∀ ds : List Char, Plain ds → ds.dropWhile isSpace = ds := by
    rintro (_ | ⟨d, ds⟩) hds
    · rfl
    · rw [List.dropWhile_cons, isSpace_of_plain (hds d (List.mem_cons_self ..))]
      rfl
  have hrev : Plain cs.reverse := fun c hc => hcs c (List.mem_reverse.1 hc)
  rw [trim, hdrop cs hcs, hdrop _ hrev, List.reverse_reverse]

/-- No plain character marks a radix: `0x`, `0o` and `0b` all have a letter in the second
place. -/
theorem splitRadix_of_plain {cs : List Char} (hcs : Plain cs) : splitRadix cs = none := by
  unfold splitRadix
  split
  · rename_i c ds
    have hc := hcs c (by simp)
    have hrange := toNat_of_plain hc
    have hne : ∀ d : Char, 57 < d.toNat → c ≠ d := by
      rintro d hd rfl
      omega
    rw [toLower_of_plain hc, if_neg (hne 'x' (by decide)), if_neg (hne 'o' (by decide)),
      if_neg (hne 'b' (by decide))]
  · rfl

/-- Plain text is none of the names of numbers, all of which have a capital `I` in them. -/
theorem ofList_ne_of_plain {cs : List Char} {name : String} (hcs : Plain cs)
    (hname : 'I' ∈ name.toList) : String.ofList cs ≠ name := by
  rintro rfl
  rw [String.toList_ofList] at hname
  exact absurd (hcs 'I' hname) (by decide)

/-- **A plain numeral is converted to the number it denotes,** but for the rounding: it is not
empty, has no radix and is none of the names, so it is read as a decimal. -/
theorem toNumber_of_plain {fl : ℚ → ℚ} {cs : List Char} {q : ℚ} (hcs : Plain cs)
    (hq : parseDecimal cs = some q) : toNumber fl cs = ofRatWith fl q := by
  have hne : cs ≠ [] := by
    rintro rfl
    simp [parseDecimal, splitSign, splitMantissa] at hq
  have hinf : String.ofList cs ∉ ["Infinity", "+Infinity"] := by
    rw [List.mem_pair, not_or]
    exact ⟨ofList_ne_of_plain hcs (by simp), ofList_ne_of_plain hcs (by simp)⟩
  have hneg : String.ofList cs ≠ "-Infinity" := ofList_ne_of_plain hcs (by simp)
  unfold toNumber
  rw [trim_of_plain hcs, if_neg hne, splitRadix_of_plain hcs]
  simp only [if_neg hinf, if_neg hneg, hq]

/-- Near an integer `Math.round` gives it: the floor of the number plus a half, wherever within a
half of the integer the number lies. -/
theorem mathRound_of_near {q : ℚ} {n : ℤ} (h : |q - n| < 1 / 2) :
    mathRound (finite q) = finite n := by
  have hlt := abs_lt.1 h
  have hfloor : ⌊q + 1 / 2⌋ = n := by
    rw [Int.floor_eq_iff]
    constructor <;> linarith [hlt.1, hlt.2]
  rw [mathRound, hfloor]

/-- **`toFixed(2)` of a number near `n` hundredths** prints these, as Go's `%.2f` does; ties, on
which the two differ, are excluded by the distance. -/
theorem toFixed2_of_near {display : Float64 → String} {q : ℚ} {n : ℕ} (hq : 0 ≤ q)
    (hlt : q < 10 ^ 21) (h : |q * 100 - n| < 1 / 2) :
    toFixed2 display (finite q) = twoDecimals n := by
  have hnear := abs_lt.1 h
  have hfloor : ⌊q * 100 + 1 / 2⌋ = n := by
    rw [Int.floor_eq_iff]
    push_cast
    constructor <;> linarith [hnear.1, hnear.2]
  simp only [toFixed2, abs_of_nonneg hq, if_neg (not_le.2 hlt), hfloor, if_neg (not_lt.2 hq),
    Int.toNat_natCast]
  simp [twoDecimals]

end Js
end BitcoinInvoice
