import FormLang.Number.Shortest

set_option autoImplicit false

/-! # Numbers as decimal text

Reading rounds a decimal once to the nearest number. Writing uses the fewest digits that read
back, laid out as the number format of the language says: plain from `0.0001` up to but not
including `1e+16`, always with a decimal point, and in scientific notation elsewhere.
-/

namespace FormLang

/-! ## Reading -/

/-- An exact decimal `± mantissa · 10 ^ exponent`; `length` is at least the number of digits of
the mantissa. -/
structure Decimal where
  negative : Bool
  mantissa : Nat
  length : Nat
  exponent : Int
  deriving DecidableEq, Repr

/-- The nearest number to a decimal. Decimals that are sure to overflow or to vanish are
recognised by their exponent, before any power of ten is formed. -/
def Binary64.ofDecimal (d : Decimal) : Binary64 :=
  if d.mantissa = 0 then .zero d.negative
  else if 310 < d.exponent then .infinite d.negative
  else if d.exponent + d.length < -330 then .zero d.negative
  else if 0 ≤ d.exponent then
    .ofUnits d.negative (d.mantissa * Nat.pow 10 d.exponent.toNat * unitsPerOne) 1
  else .ofUnits d.negative (d.mantissa * unitsPerOne) (Nat.pow 10 (-d.exponent).toNat)

/-! ## Writing -/

/-- How numbers that are not integers are written. -/
structure FloatFormat where
  /-- Positional notation is used while more than `minPoint` and at most `maxPoint` digits
  stand before the decimal point, zeros behind it counting negatively. -/
  minPoint : Int
  maxPoint : Int
  /-- The least number of digits of an exponent. -/
  exponentWidth : Nat
  infinity : String
  undefined : String

/-- The number format of the language. -/
def floatFormat : FloatFormat := ⟨-4, 16, 2, "inf", "nan"⟩

/-- Text padded with zeros on the left to a least width. -/
def padZeros (width : Nat) (text : String) : String :=
  String.ofList (List.replicate (width - text.length) '0') ++ text

namespace Digits

/-- Digits around a decimal point, with at least one on each side. -/
def positional (d : Digits) : String :=
  let n := d.digits.length
  if d.point ≤ 0 then
    "0." ++ String.ofList (List.replicate (-d.point).toNat '0' ++ d.digits)
  else
    let k := d.point.toNat
    if n ≤ k then String.ofList (d.digits ++ List.replicate (k - n) '0') ++ ".0"
    else String.ofList (d.digits.take k) ++ "." ++ String.ofList (d.digits.drop k)

/-- One digit, the others behind a point if there are any, and a signed exponent. -/
def scientific (d : Digits) (width : Nat) : String :=
  let head := String.ofList (d.digits.take 1)
  let tail := d.digits.drop 1
  let fraction := if tail.isEmpty then "" else "." ++ String.ofList tail
  let e := d.point - 1
  let sign := if e < 0 then "-" else "+"
  head ++ fraction ++ "e" ++ sign ++ padZeros width (Nat.repr e.natAbs)

/-- The layout that a format chooses. -/
def text (d : Digits) (f : FloatFormat) : String :=
  if f.minPoint < d.point ∧ d.point ≤ f.maxPoint then d.positional
  else d.scientific f.exponentWidth

end Digits

/-- The text of a number in a format. -/
def Binary64.textIn (f : FloatFormat) : Binary64 → String
  | .nan _ => f.undefined
  | .infinite negative => (if negative then "-" else "") ++ f.infinity
  | .finite negative a =>
    (if negative then "-" else "") ++
      (if a.units = 0 then "0.0" else a.shortest.text f)

/-- The text of a number. -/
def Binary64.text (x : Binary64) : String := x.textIn floatFormat

end FormLang
