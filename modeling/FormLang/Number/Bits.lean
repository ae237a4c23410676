set_option autoImplicit false

/-! # Bits of integers

A negative integer has the bits of its complement, all turned over, so that its bits go on with
ones for ever.
-/

namespace FormLang

/-- The bits that are set in the first number and not in the second. -/
def bitsWithout (m n : Nat) : Nat := m ^^^ (m &&& n)

/-- The integer that has every bit of either integer. -/
def bitOr : Int → Int → Int
  | .ofNat m, .ofNat n => .ofNat (m ||| n)
  | .ofNat m, .negSucc n => .negSucc (bitsWithout n m)
  | .negSucc m, .ofNat n => .negSucc (bitsWithout m n)
  | .negSucc m, .negSucc n => .negSucc (m &&& n)

/-- Two numbers as the high part and the low byte of one. -/
def joinBytes (high low : Int) : Int := bitOr (high * 256) low

end FormLang
