import FormLang.Action
import FormLang.Chunk.Emit

set_option autoImplicit false

/-! # Libraries

All functions come from a library. The compiler hands it the name at the head of a call and the
compiled arguments, and gets back a fragment of code that makes the call.
-/

namespace FormLang

/-- What a library answers. -/
inductive Resolution where
  /-- The code of the call. -/
  | fragment (c : Chunk)
  /-- The library has no such function. -/
  | unknown
  /-- Something that is no code. -/
  | unusable

/-- A library that keeps to the contract: it answers requests. -/
structure Library where
  resolve : Request → Except Failure Resolution

/-- A library that answers a request for one of its functions with a call of it, whatever the
arguments are. -/
def Library.ofExports (owner : String) (exports : List String) : Library where
  resolve r :=
    if exports.contains r.name then
      liftFault ((Chunk.ofCall (.callable (.call owner r.name)) r.args).map .fragment)
    else .ok .unknown

/-! ## Functions -/

/-- A function takes all arguments of a call as one value. -/
structure LibraryFunction where
  name : String
  run : Value → Except Failure Value

namespace LibraryFunction

/-- The fault of a value used in a way its type does not allow; `misfit` says in which. -/
def wrongType {α : Type} (misfit : String → String) (v : Value) : Except Failure α :=
  .error (.fault (.wrongType (misfit v.kind.typeName)))

/-- The arguments of a call, one by one; `misfit` is what is wrong with a value that is no
sequence, for the way in which a function looks at its arguments first. -/
def arguments (misfit : String → String) (args : Value) : Except Failure (List Value) :=
  match args.elements? with
  | some items => .ok items
  | none => wrongType misfit args

/-- The error of a call with the wrong number of arguments. -/
def arityError {α : Type} (function expected : String) (args : List Value) : Except Failure α :=
  .error (.error (.arity function expected args.length))

/-- The error of an argument that a function cannot use. -/
def argumentError {α : Type} (function reason : String) : Except Failure α :=
  .error (.error (.argument function reason))

/-- The error of an argument of the wrong type: it says what was expected, and what there is. -/
def expected {α : Type} (function what : String) (got : Value) : Except Failure α := do
  let text ← liftFault got.written
  argumentError function ("expected " ++ what ++ ", got " ++ text)

/-- A function with one argument. -/
def unary (function : String) (run : Value → Except Failure Value) (args : Value) :
    Except Failure Value := do
  match ← arguments Misfit.noLength args with
  | [v] => run v
  | args => arityError function "1" args

end LibraryFunction
end FormLang
