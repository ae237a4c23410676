import FormLang.Node
import FormLang.Text.Digit

set_option autoImplicit false

/-! # Reading single tokens

An atom that has the shape of a number is one, and any other is a symbol. A text literal loses
its quotes, and its escapes are resolved.
-/

namespace FormLang

/-! ## Numerals -/

/-- Is the character a decimal digit of some script? -/
def isDigit (c : Char) : Bool := (decimalDigit? c).isSome

/-- The number that some digits write; characters that are none count as zeros. -/
def digitsValue (cs : List Char) : Nat :=
  cs.foldl (fun n c => 10 * n + (decimalDigit? c).getD 0) 0

/-- A sign, which may be missing, and what follows it. -/
def takeSign : List Char → Bool × List Char
  | '+' :: rest => (false, rest)
  | '-' :: rest => (true, rest)
  | cs => (false, cs)

/-- A number with its sign. -/
def signed (negative : Bool) (n : Nat) : Int := if negative then -(n : Int) else n

/-- The integer that some digits write behind a sign. Their number is limited, zeros in front
included. -/
def readInteger (negative : Bool) (digits : List Char) : Except Fault Int :=
  if digitLimit < digits.length then .error (.literalDigits digits.length)
  else .ok (signed negative (digitsValue digits))

/-- The digits of a text that is a sign, if any, and at least one digit. -/
def signedDigits? (cs : List Char) : Option (Bool × List Char) :=
  let (negative, digits) := takeSign cs
  if !digits.isEmpty && digits.all isDigit then some (negative, digits) else none

/-- The exponent at the end of a numeral: an `e` of either case and a signed integer, or
nothing. -/
def exponent? : List Char → Option Int
  | [] => some 0
  | c :: rest =>
    if c = 'e' ∨ c = 'E' then
      (signedDigits? rest).map fun (negative, digits) => signed negative (digitsValue digits)
    else none

/-- The decimal that a text writes: a sign, if any, digits around a point that may be missing,
and an exponent. There has to be a digit on one side of the point. -/
def decimal? (cs : List Char) : Option Decimal :=
  let (negative, cs) := takeSign cs
  let whole := cs.takeWhile isDigit
  let (fraction, rest) := match cs.dropWhile isDigit with
    | '.' :: rest => (rest.takeWhile isDigit, rest.dropWhile isDigit)
    | rest => ([], rest)
  let digits := whole ++ fraction
  if digits.isEmpty then none
  else (exponent? rest).map fun e =>
    ⟨negative, digitsValue digits, digits.length, e - fraction.length⟩

/-- The node that an atom on a line stands for. -/
def Node.ofAtom (text : String) (line : Int) : Except Fault Node :=
  match signedDigits? text.toList with
  | some (negative, digits) =>
    (readInteger negative digits).map fun n => .number line (.int n)
  | none =>
    match decimal? text.toList with
    | some d => .ok (.number line (.float (.ofDecimal d)))
    | none => .ok (.symbol line text)

/-! ## Text literals -/

/-- The character that an escape with a given letter stands for: a line end, a tab, a carriage
return, or the letter itself. -/
def escaped : Char → Char
  | 'n' => '\n'
  | 't' => '\t'
  | 'r' => '\r'
  | c => c

/-- Resolves the escapes of a text, behind characters (last first) that are done. A backslash at
the very end stands for itself. -/
def unescapeFrom (done : List Char) : List Char → List Char
  | '\\' :: c :: rest => unescapeFrom (escaped c :: done) rest
  | c :: rest => unescapeFrom (c :: done) rest
  | [] => done.reverse

/-- The content of a literal: its first and last characters are quotes. -/
def unescape (literal : String) : String :=
  String.ofList (unescapeFrom [] literal.toList.tail.dropLast)

end FormLang
