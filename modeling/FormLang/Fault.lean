import FormLang.Text.Quoted

set_option autoImplicit false

/-! # Faults

A fault ends a run and is not an answer of the language: it comes from the number tower, the
machine or a library object, and no part of the program handles it.
-/

namespace FormLang

/-- The most decimal digits an integer may have when it is read or written. -/
def digitLimit : Nat := 4300

/-- Why a run was cut short. -/
inductive Fault where
  /-- A value was used in a way its type does not allow. -/
  | wrongType (text : String)
  /-- Something that is not a node stands where code was expected; `text` is its written form. -/
  | notANode (text : String)
  /-- An object lacks what was asked of it. -/
  | noAttribute (text : String)
  /-- The code ends inside an instruction. -/
  | codeEnds
  /-- Captured code that is run in the place of a chunk ends inside an instruction. -/
  | capturedEnds
  /-- A list, or a table of constants, has no such place. -/
  | listIndex
  /-- A text has no such place. -/
  | textIndex
  /-- An instruction takes a value and the stack has none. -/
  | stackEmpty
  /-- A chunk ran past its last instruction. -/
  | noReturn
  /-- No instruction has this code. -/
  | unknownOpcode (text : String)
  /-- An operand is not a 16-bit number. -/
  | operandRange (operand : Int)
  /-- An instruction code is not an 8-bit number. -/
  | byteRange
  /-- An integer is larger than every floating point number. -/
  | integerTooLarge
  /-- The quotient of two integers is larger than every floating point number. -/
  | quotientTooLarge
  | divisionByZero
  | floatDivisionByZero
  | moduloByZero
  | floatModuloByZero
  /-- An integer literal has more digits than the limit. -/
  | literalDigits (count : Nat)
  /-- An integer has too many digits to be written. -/
  | writtenDigits
  | emptySeparator
  /-- The setting for the machine, cleaned up, names none. -/
  | unknownBackend (setting : String)
  /-- A library object refused, with its own words. -/
  | refused (reason : String)
  /-- Runs of captured code while compiling are nested too deeply. -/
  | evaluationDepth
  /-- An error without a wording was asked for one. -/
  | noMessage
  deriving DecidableEq, Repr

/-- The first words of both messages about the digit limit. -/
def digitLimitText : String :=
  "Exceeds the limit (" ++ toString digitLimit ++ " digits) for integer string conversion"

/-- The last words of both messages about the digit limit. -/
def digitLimitAdvice : String := "; use sys.set_int_max_str_digits() to increase the limit"

/-- The wording of a fault. -/
def Fault.message : Fault → String
  | .wrongType text => text
  | .notANode text => "not a node: " ++ text
  | .noAttribute text => text
  | .codeEnds => "bytearray index out of range"
  | .capturedEnds => "tuple index out of range"
  | .listIndex => "list index out of range"
  | .textIndex => "string index out of range"
  | .stackEmpty => "pop from empty list"
  | .noReturn => "chunk ended without RETURN"
  | .unknownOpcode text => "Unknown opcode: " ++ text
  | .operandRange operand => "operand " ++ toString operand ++ " does not fit in u16"
  | .byteRange => "byte must be in range(0, 256)"
  | .integerTooLarge => "int too large to convert to float"
  | .quotientTooLarge => "integer division result too large for a float"
  | .divisionByZero => "division by zero"
  | .floatDivisionByZero => "float division by zero"
  | .moduloByZero => "integer modulo by zero"
  | .floatModuloByZero => "float modulo"
  | .literalDigits count =>
    digitLimitText ++ ": value has " ++ toString count ++ " digits" ++ digitLimitAdvice
  | .writtenDigits => digitLimitText ++ digitLimitAdvice
  | .emptySeparator => "empty separator"
  | .unknownBackend setting =>
    "SYMBELIX_VM must be 'py' or 'cy', not " ++ quoted setting
  | .refused reason => reason
  | .evaluationDepth => "maximum recursion depth exceeded"
  | .noMessage => ""

/-! ## Types that do not fit

What is said when the type of an object, which has a name, does not fit what is done with it. -/

namespace Misfit

/-- An object is called that is nothing to call. -/
def notCallable (type : String) : String := "'" ++ type ++ "' object is not callable"

/-- An object lacks an attribute. -/
def lacks (type name : String) : String :=
  "'" ++ type ++ "' object has no attribute '" ++ name ++ "'"

/-- An operator stands between two objects that do not have it. -/
def unsupported (operator left right : String) : String :=
  "unsupported operand type(s) for " ++ operator ++ ": '" ++ left ++ "' and '" ++ right ++ "'"

/-- An object that can grow is looked up in a table. -/
def unhashable (type : String) : String := "unhashable type: '" ++ type ++ "'"

/-- An object is asked how many elements it has, and has none. -/
def noLength (type : String) : String := "object of type '" ++ type ++ "' has no len()"

/-- An object is gone through, and has no elements. -/
def notIterable (type : String) : String := "'" ++ type ++ "' object is not iterable"

/-- An object is asked for an element at a place, and has none. -/
def notSubscriptable (type : String) : String := "'" ++ type ++ "' object is not subscriptable"

end Misfit

end FormLang
