import FormLang.Fault
import FormLang.Number.Decimal

set_option autoImplicit false

/-! # Numbers of the language

A number is an integer of any size or a floating point number. Two integers combine exactly;
as soon as one operand is a floating point number, so is the result. Comparison is exact
throughout: an integer and a floating point number are compared as reals.
-/

namespace FormLang

/-- A number. Equality of terms tells an integer from the floating point number of the same
value, and the two zeros apart; `Numeral.equals` does not. -/
inductive Numeral where
  | int (n : Int)
  | float (x : Binary64)
  deriving DecidableEq

namespace Numeral

/-! ## Comparison -/

/-- The place of a number on the line. -/
def extent? : Numeral → Option Extent
  | .int n => some (.at (n * Binary64.unitsPerOne))
  | .float x => x.extent?

/-- Are the two the same number? No undefined number equals any. -/
def equals : Numeral → Numeral → Bool
  | .int m, .int n => m == n
  | a, b =>
    match a.extent?, b.extent? with
    | some s, some t => s == t
    | _, _ => false

/-- Are both the same undefined number? -/
def sameUndefined : Numeral → Numeral → Bool
  | .float x, .float y => x.sameUndefined y
  | _, _ => false

/-- Are two numbers equal as parts of something? An undefined number equals no number, but what
holds it still equals itself. -/
def alike (a b : Numeral) : Bool := a.sameUndefined b || a.equals b

/-- Is the first number smaller? An undefined number is neither smaller nor larger. -/
def lt : Numeral → Numeral → Bool
  | .int m, .int n => decide (m < n)
  | a, b =>
    match a.extent?, b.extent? with
    | some s, some t => s.lt t
    | _, _ => false

/-! ## Arithmetic -/

/-- The nearest floating point number. -/
def toFloat : Numeral → Except Fault Binary64
  | .int n => match Binary64.ofInt? n with
    | some x => .ok x
    | none => .error .integerTooLarge
  | .float x => .ok x

/-- Applies the integer operation to two integers and the other one in all other cases. -/
def combine (ints : Int → Int → Int) (floats : Binary64 → Binary64 → Binary64) :
    Numeral → Numeral → Except Fault Numeral
  | .int m, .int n => .ok (.int (ints m n))
  | a, b => do
    let x ← a.toFloat
    let y ← b.toFloat
    return .float (floats x y)

/-- Sum. -/
def add : Numeral → Numeral → Except Fault Numeral := combine (· + ·) Binary64.add

/-- Difference. -/
def sub : Numeral → Numeral → Except Fault Numeral := combine (· - ·) Binary64.sub

/-- Product. -/
def mul : Numeral → Numeral → Except Fault Numeral := combine (· * ·) Binary64.mul

/-- Change of sign. -/
def neg : Numeral → Numeral
  | .int n => .int (-n)
  | .float x => .float x.neg

/-- Quotient: always a floating point number, rounded once. -/
def div : Numeral → Numeral → Except Fault Numeral
  | .int m, .int n =>
    if n = 0 then .error .divisionByZero
    else match Binary64.ofQuotient? m n with
      | some x => .ok (.float x)
      | none => .error .quotientTooLarge
  | a, b => do
    let x ← a.toFloat
    let y ← b.toFloat
    if y.isZero then .error .floatDivisionByZero else return .float (x.div y)

/-- Remainder with the sign of the divisor. -/
def mod : Numeral → Numeral → Except Fault Numeral
  | .int m, .int n => if n = 0 then .error .moduloByZero else .ok (.int (m.fmod n))
  | a, b => do
    let x ← a.toFloat
    let y ← b.toFloat
    if y.isZero then .error .floatModuloByZero else return .float (x.flooredRem y)

/-! ## Marks -/

/-- Gives an undefined number that has none the next free mark; the number that comes back is
the next one that is free then. -/
def marked (next : Nat) : Numeral → Numeral × Nat
  | .float (.nan none) => (.float (.nan (some next)), next + 1)
  | n => (n, next)

/-! ## Text -/

/-- The text of a number: the digits of an integer, the shortest decimal of the others. -/
def text : Numeral → String
  | .int n => toString n
  | .float x => x.text

/-- The first integer with too many digits to be written. -/
def firstUnwritten : Nat := Nat.pow 10 digitLimit

/-- Has an integer few enough digits to be written? -/
def writable : Numeral → Bool
  | .int n => decide (n.natAbs < firstUnwritten)
  | .float _ => true

end Numeral
end FormLang
