import FormLang.Value.Write

set_option autoImplicit false

/-! # Errors and failures

An *error* is an answer: a program that cannot be read or compiled, or that calls a library
function wrongly, evaluates to one. A *failure* is what cuts a computation short: an error on
its way to becoming the answer, a fault, or an observer that asked for a halt.
-/

namespace FormLang

/-- What is wrong with source text. -/
inductive ReadFault where
  | unexpectedCharacter (c : Char)
  /-- A double quote without a partner. -/
  | unterminatedText
  /-- There is no token at all. -/
  | emptyProgram
  /-- An expression was asked for after the last token. -/
  | endOfInput
  /-- The text ends inside brackets. -/
  | unbalanced (openedAt : Int)
  /-- A closing bracket that closes nothing. -/
  | unexpectedToken (text : String)
  /-- A token behind the one expression of a program. -/
  | trailing (text : String)
  /-- A reason in the words of a caller. -/
  | other (reason : String)
  deriving DecidableEq, Repr

/-- The reason in words. -/
def ReadFault.text : ReadFault → String
  | .unexpectedCharacter c => "unexpected character " ++ quoted (String.singleton c)
  | .unterminatedText => "unterminated string"
  | .emptyProgram => "empty program"
  | .endOfInput => "unexpected end of input"
  | .unbalanced openedAt => "unbalanced brackets opened at line " ++ toString openedAt
  | .unexpectedToken text => "unexpected " ++ quoted text
  | .trailing text => "unexpected " ++ quoted text ++ " after end of expression"
  | .other reason => reason

/-- An error of the language. -/
inductive ProgramError where
  /-- The library has no function for the head of a call. -/
  | unresolvedCall (kind name : String) (line argCount : Int) (args : String)
  | libraryNotFound (name : String)
  /-- There is such a library, but it cannot resolve calls. -/
  | contractViolation (name : String)
  /-- `eval` was given something that is not captured code. -/
  | notCaptured (value : Value) (line : Int)
  | unreadable (reason : ReadFault) (line : Int)
  /-- A library function was called with the wrong number of arguments. -/
  | arity (function expected : String) (count : Int)
  /-- A library function was called with an argument it cannot use. -/
  | argument (function reason : String)
  /-- An error that says nothing about itself. -/
  | unspecified

namespace ProgramError

/-- The name of the kind of error, as reports show it. -/
def kindName : ProgramError → String
  | .unresolvedCall .. => "UnresolvedCall"
  | .libraryNotFound _ => "LibraryNotFound"
  | .contractViolation _ => "LibraryContractViolation"
  | .notCaptured .. => "EvalTargetNotDeferred"
  | .unreadable .. => "ParseFailure"
  | .arity .. => "ArityError"
  | .argument .. => "ArgumentTypeError"
  | .unspecified => "Error"

/-- The message of an error. An error about a value that cannot be written has none. -/
def message : ProgramError → Except Fault String
  | .unresolvedCall kind name line argCount args =>
    .ok ("Unknown function (" ++ kind ++ ") '" ++ name ++ "' at line " ++ toString line ++
      " with " ++ toString argCount ++ " parameter(s): " ++ args)
  | .libraryNotFound name => .ok ("The library " ++ name ++ " doesn't exist")
  | .contractViolation name =>
    .ok ("The library " ++ name ++ " doesn't implement the library contract")
  | .notCaptured value line => do
    let text ← value.written
    return "eval expects code captured by proc at line " ++ toString line ++ ", got " ++ text
  | .unreadable reason line =>
    .ok ("Syntax error at line " ++ toString line ++ ": " ++ reason.text)
  | .arity function expected count =>
    .ok (function ++ " expects " ++ expected ++ " argument(s), got " ++ toString count)
  | .argument function reason => .ok (function ++ ": " ++ reason)
  | .unspecified => .error .noMessage

end ProgramError

/-- What cuts a computation short. -/
inductive Failure where
  | error (e : ProgramError)
  | fault (f : Fault)
  /-- An observer stopped the run at a stage. -/
  | halted (stage : String)

/-- A computation that can only fail with a fault. -/
def liftFault {α : Type} : Except Fault α → Except Failure α
  | .ok a => .ok a
  | .error f => .error (.fault f)

/-- What a callable does with its argument. -/
abbrev Apply : Type := Callable → Value → Except Failure Value

/-- What a program comes to. -/
inductive Outcome where
  | value (v : Value)
  | error (e : ProgramError)

end FormLang
