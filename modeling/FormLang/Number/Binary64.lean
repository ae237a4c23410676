set_option autoImplicit false

/-! # Binary floating point with 53 significant bits

A finite number is a whole number of *units*, one unit being `2 ^ -1074`, together with a
sign. The exact result of every operation is then a quotient of whole numbers, and rounding
is one function on such quotients: to the nearest representable number, a tie going to the
even significand, and past the largest finite number to infinity. No machine arithmetic is
involved, so everything here can be computed and reasoned about inside the logic.
-/

namespace FormLang

/-! ## Rounding a quotient -/

/-- The whole number nearest to `num / den`; a half goes to the even neighbour. -/
def roundHalfEven (num den : Nat) : Nat :=
  let q := num / den
  let r := num % den
  if 2 * r < den then q
  else if den < 2 * r then q + 1
  else q + q % 2

theorem roundHalfEven_le (num den : Nat) : roundHalfEven num den ≤ num / den + 1 := by
  unfold roundHalfEven
  dsimp only
  split
  · omega
  · split
    · omega
    · have := Nat.mod_lt (num / den) (by decide : 0 < 2)
      omega

/-- The least exponent `p` for which `num / den` is below `2 ^ (53 + p)`: the weight of the
last significant bit kept when the quotient is rounded. -/
def lastBit (num den : Nat) : Nat := (num / den).log2 - 52

theorem quotient_lt (num den : Nat) :
    num / (den * Nat.pow 2 (lastBit num den)) < Nat.pow 2 53 := by
  simp only [Nat.pow_eq]
  rw [← Nat.div_div_eq_div_mul, Nat.div_lt_iff_lt_mul (Nat.two_pow_pos _), ← Nat.pow_add]
  refine Nat.lt_of_lt_of_le (@Nat.lt_log2_self (num / den)) ?_
  apply Nat.pow_le_pow_right (by decide)
  unfold lastBit
  omega

/-- A rounded significand has at most 53 bits, or is the next power of two. -/
theorem significand_le (num den : Nat) :
    roundHalfEven num (den * Nat.pow 2 (lastBit num den)) ≤ Nat.pow 2 53 := by
  have := roundHalfEven_le num (den * Nat.pow 2 (lastBit num den))
  have := quotient_lt num den
  omega

/-! ## Magnitudes -/

/-- Finite numbers are below `2 ^ 1024`, which is `2 ^ 2098` units. -/
def limitExponent : Nat := 1024 + 1074

/-- The first power of two that is too large, in units. -/
def unitLimit : Nat := Nat.pow 2 limitExponent

theorem unitLimit_pos : 0 < unitLimit := by
  rw [unitLimit, Nat.pow_eq]
  exact Nat.two_pow_pos limitExponent

/-- The size of a finite number, in units of `2 ^ -1074`: at most 53 significant bits, and
below the limit. -/
structure Magnitude where
  units : Nat
  representable : ∃ m p : Nat, m ≤ Nat.pow 2 53 ∧ units = m * Nat.pow 2 p
  small : units < unitLimit
  deriving DecidableEq

namespace Magnitude

/-- Nothing. -/
def zero : Magnitude := ⟨0, ⟨0, 0, by decide, rfl⟩, unitLimit_pos⟩

/-- The magnitude nearest to `num / den` units, ties going to the even significand; `none`
when that would be `2 ^ 1024` or more. -/
def nearest? (num den : Nat) : Option Magnitude :=
  let p := lastBit num den
  let m := roundHalfEven num (den * Nat.pow 2 p)
  if h : m * Nat.pow 2 p < unitLimit then
    some ⟨m * Nat.pow 2 p, ⟨m, p, significand_le num den, rfl⟩, h⟩
  else none

/-- Units in the last place: the distance to the next larger magnitude. -/
def ulp (a : Magnitude) : Nat := Nat.pow 2 (lastBit a.units 1)

end Magnitude

/-! ## Numbers -/

/-- A floating point number. Undefined results are told apart by marks: one that has just been
computed has no mark yet, and is marked when it is handed on. No operation looks at marks. -/
inductive Binary64 where
  | finite (negative : Bool) (size : Magnitude)
  | infinite (negative : Bool)
  | nan (mark : Option Nat)
  deriving DecidableEq

namespace Binary64

/-- How many units make one. -/
def unitsPerOne : Nat := Nat.pow 2 1074

/-- An undefined result that has just been computed. -/
def undefined : Binary64 := .nan none

/-- Zero with a sign. -/
def zero (negative : Bool) : Binary64 := .finite negative .zero

/-- `num / den` units with a sign, correctly rounded; `none` past the largest finite number. -/
def ofUnits? (negative : Bool) (num den : Nat) : Option Binary64 :=
  (Magnitude.nearest? num den).map (.finite negative)

/-- `num / den` units with a sign, correctly rounded, and infinite past the largest finite
number. -/
def ofUnits (negative : Bool) (num den : Nat) : Binary64 :=
  (ofUnits? negative num den).getD (.infinite negative)

/-- The nearest number to an integer; `none` when it is too large. -/
def ofInt? (n : Int) : Option Binary64 :=
  ofUnits? (decide (n < 0)) (n.natAbs * unitsPerOne) 1

/-- The exact quotient of two integers, rounded once; `none` when it is too large. The sign of
a zero quotient is that of the divisor. -/
def ofQuotient? (a b : Int) : Option Binary64 :=
  ofUnits? (decide (a < 0) != decide (b < 0)) (a.natAbs * unitsPerOne) b.natAbs

/-- Is it zero, of either sign? -/
def isZero : Binary64 → Bool
  | .finite _ a => a.units == 0
  | _ => false

/-- Is the sign bit of a number that compares below zero set? -/
def isNegative : Binary64 → Bool
  | .finite negative a => negative && a.units != 0
  | .infinite negative => negative
  | .nan _ => false

/-- Are both the same undefined number? One without a mark is the same as no other. -/
def sameUndefined : Binary64 → Binary64 → Bool
  | .nan (some i), .nan (some j) => i == j
  | _, _ => false

/-! ## Arithmetic -/

/-- Change of sign. -/
def neg : Binary64 → Binary64
  | .finite negative a => .finite (!negative) a
  | .infinite negative => .infinite (!negative)
  | .nan _ => undefined

/-- The exact value in units, with its sign. -/
def signedUnits (negative : Bool) (a : Magnitude) : Int :=
  if negative then -(a.units : Int) else a.units

/-- Sum, rounded once. A sum that is zero is positive unless both terms are negative. -/
def add : Binary64 → Binary64 → Binary64
  | .nan _, _ => undefined
  | _, .nan _ => undefined
  | .infinite s, .infinite t => if s == t then .infinite s else undefined
  | .infinite s, .finite _ _ => .infinite s
  | .finite _ _, .infinite t => .infinite t
  | .finite s a, .finite t b =>
    let sum := signedUnits s a + signedUnits t b
    if sum = 0 then zero (s && t) else ofUnits (decide (sum < 0)) sum.natAbs 1

/-- Difference. -/
def sub (x y : Binary64) : Binary64 := add x (neg y)

/-- Product, rounded once. -/
def mul : Binary64 → Binary64 → Binary64
  | .nan _, _ => undefined
  | _, .nan _ => undefined
  | .infinite s, .infinite t => .infinite (s != t)
  | .infinite s, .finite t b => if b.units = 0 then undefined else .infinite (s != t)
  | .finite s a, .infinite t => if a.units = 0 then undefined else .infinite (s != t)
  | .finite s a, .finite t b => ofUnits (s != t) (a.units * b.units) unitsPerOne

/-- Quotient, rounded once. -/
def div : Binary64 → Binary64 → Binary64
  | .nan _, _ => undefined
  | _, .nan _ => undefined
  | .infinite _, .infinite _ => undefined
  | .infinite s, .finite t _ => .infinite (s != t)
  | .finite s _, .infinite t => zero (s != t)
  | .finite s a, .finite t b =>
    if b.units = 0 then (if a.units = 0 then undefined else .infinite (s != t))
    else ofUnits (s != t) (a.units * unitsPerOne) b.units

/-- The exact remainder of the quotient cut toward zero; it has the sign of the dividend. -/
def truncatedRem : Binary64 → Binary64 → Binary64
  | .nan _, _ => undefined
  | _, .nan _ => undefined
  | .infinite _, _ => undefined
  | .finite s a, .infinite _ => .finite s a
  | .finite s a, .finite _ b =>
    if b.units = 0 then undefined else ofUnits s (a.units % b.units) 1

/-- The remainder with the sign of the divisor: one divisor is added to a truncated remainder
of the other sign, and a zero remainder takes the divisor's sign. -/
def flooredRem (x y : Binary64) : Binary64 :=
  let r := truncatedRem x y
  let divisorSign := match y with
    | .finite t _ => t
    | .infinite t => t
    | .nan _ => false
  if r.isZero then zero divisorSign
  else if y.isNegative != r.isNegative then add r y
  else r

end Binary64

/-! ## Order -/

/-- A place on the extended number line, in units of `2 ^ -1074`. -/
inductive Extent where
  | below
  | at (units : Int)
  | above
  deriving DecidableEq

namespace Extent

/-- Strictly smaller. -/
def lt : Extent → Extent → Bool
  | .below, .below => false
  | .below, _ => true
  | .at m, .at n => decide (m < n)
  | .at _, .above => true
  | _, _ => false

end Extent

/-- The place of a number on the line; both zeros share one, `nan` has none. -/
def Binary64.extent? : Binary64 → Option Extent
  | .finite s a => some (.at (Binary64.signedUnits s a))
  | .infinite true => some .below
  | .infinite false => some .above
  | .nan _ => none

end FormLang
