import FormLang.Number.Binary64

set_option autoImplicit false

/-! # The fewest digits that read back

A magnitude stands for all reals that round to it: from half a unit in its last place below
it (a quarter, just above a power of two) to half a unit above, the ends included when its
significand is even. Its shortest decimal is the one with the fewest significant digits in
that interval and, of those, the one nearest to it.
-/

namespace FormLang

/-- A decimal `0.d₁d₂…dₙ · 10 ^ point`. -/
structure Digits where
  digits : List Char
  point : Int
  deriving DecidableEq, Repr

namespace Magnitude

/-! ## The interval of reals that round to a magnitude

All three numbers are in quarter units, so that they are whole. -/

/-- Is the significand even? -/
def evenSignificand (a : Magnitude) : Bool := a.units / a.ulp % 2 == 0

/-- Half the distance to the neighbour above, in quarter units. -/
def gapAbove (a : Magnitude) : Nat := 2 * a.ulp

/-- Half the distance to the neighbour below, in quarter units. Below a power of two the
neighbours are twice as dense, unless no smaller spacing exists. -/
def gapBelow (a : Magnitude) : Nat :=
  if a.units = Nat.pow 2 52 * a.ulp ∧ 1 < a.ulp then a.ulp else 2 * a.ulp

/-- Does the decimal `d · 10 ^ e`, here the quotient `num / den` in quarter units, round to the
magnitude? -/
def roundsTo (a : Magnitude) (num den : Nat) : Bool :=
  let low := (4 * a.units - a.gapBelow) * den
  let high := (4 * a.units + a.gapAbove) * den
  if a.evenSignificand then decide (low ≤ num) && decide (num ≤ high)
  else decide (low < num) && decide (num < high)

/-! ## Decimal grids -/

/-- Quarter units in one. -/
def quarters : Nat := 4 * Binary64.unitsPerOne

/-- The number of decimal digits before the point of `num / den`; negative when zeros follow
the point. It is the `k` with `10 ^ (k - 1) ≤ num / den < 10 ^ k`, found from the estimate
that the binary length gives. -/
def decimalPoint (a : Magnitude) : Int :=
  -- `log10 2` lies between `1233 / 4096` and `1234 / 4096`; the estimate is at most one too low
  let bits : Int := a.units.log2 - 1074
  let estimate : Int := bits * 1233 / 4096
  let reaches (k : Int) : Bool :=
    if 0 ≤ k then decide (Nat.pow 10 k.toNat * Binary64.unitsPerOne ≤ a.units)
    else decide (Binary64.unitsPerOne ≤ a.units * Nat.pow 10 (-k).toNat)
  let candidates := (List.range 5).map fun (i : Nat) => estimate + 2 - (i : Int)
  (candidates.find? reaches).elim (estimate - 2) (· + 1)

/-- The decimal `d · 10 ^ e` as a quotient in quarter units. -/
def gridPoint (d : Nat) (e : Int) : Nat × Nat :=
  if 0 ≤ e then (d * Nat.pow 10 e.toNat * quarters, 1)
  else (d * quarters, Nat.pow 10 (-e).toNat)

/-- The best decimal with `n` digits, if one rounds to the magnitude: of the two grid points
around it the nearer, and of two equally near ones the even one. -/
def withDigits? (a : Magnitude) (point : Int) (n : Nat) : Option Nat :=
  let e := point - (n : Int)
  let d :=
    if 0 ≤ e then a.units / (Nat.pow 10 e.toNat * Binary64.unitsPerOne)
    else a.units * Nat.pow 10 (-e).toNat / Binary64.unitsPerOne
  let hits (d : Nat) : Bool := let (num, den) := gridPoint d e; a.roundsTo num den
  let distance (d : Nat) : Nat :=
    let (num, den) := gridPoint d e
    let exact := 4 * a.units * den
    (num - exact) + (exact - num)
  match hits d, hits (d + 1) with
  | true, true =>
    if distance d < distance (d + 1) then some d
    else if distance (d + 1) < distance d then some (d + 1)
    else some (d + d % 2)
  | true, false => some d
  | false, true => some (d + 1)
  | false, false => none

/-- The shortest decimal that reads back as a magnitude other than zero: 17 digits always
suffice. -/
def shortest (a : Magnitude) : Digits :=
  let point := a.decimalPoint
  match (List.range 17).findSome? fun i => (a.withDigits? point (i + 1)).map (·, i + 1) with
  | some (d, n) =>
    let text := (Nat.repr d).toList
    -- rounding up to a power of ten moves the point
    let moved := point + ((text.length : Int) - (n : Int))
    let bare := (text.reverse.dropWhile (· == '0')).reverse
    ⟨bare, moved⟩
  | none => ⟨['0'], 1⟩

end Magnitude
end FormLang
