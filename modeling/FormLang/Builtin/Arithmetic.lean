import FormLang.Library

set_option autoImplicit false

/-! # Arithmetic

Every function checks the number of its arguments, then their types, and only then computes,
from left to right. A truth value is not a number here.
-/

namespace FormLang.Arithmetic

open LibraryFunction

/-- The numbers among the arguments, all of which have to be numbers; `seen` are those in front,
last first. -/
def numbersFrom (function : String) (seen : List Numeral) :
    List Value → Except Failure (List Numeral)
  | [] => .ok seen.reverse
  | .number n :: rest => numbersFrom function (n :: seen) rest
  | v :: _ => expected function "a number" v

/-- The arguments as numbers, of which there have to be a least number. -/
def numbers (function : String) (atLeast : Nat) (args : Value) :
    Except Failure (List Numeral) := do
  let args ← arguments Misfit.noLength args
  if args.length < atLeast then arityError function ("at least " ++ toString atLeast) args
  else numbersFrom function [] args

/-- The number zero. -/
def zero : Numeral := .int 0

/-- The number one. -/
def one : Numeral := .int 1

/-- The sum of some numbers, from zero on. -/
def total (ns : List Numeral) : Except Fault Numeral := ns.foldlM Numeral.add zero

/-- The sum of all arguments. -/
def add (args : Value) : Except Failure Value := do
  let ns ← numbers "add" 0 args
  let sum ← liftFault (total ns)
  return .number sum

/-- The first argument less the sum of the others, or its negative when it stands alone. -/
def subtract (args : Value) : Except Failure Value := do
  match ← numbers "subtract" 1 args with
  | [] => arityError "subtract" "at least 1" []
  | [n] => return .number n.neg
  | n :: rest =>
    let sum ← liftFault (total rest)
    let difference ← liftFault (n.sub sum)
    return .number difference

/-- The product of all arguments. -/
def multiply (args : Value) : Except Failure Value := do
  let ns ← numbers "multiply" 0 args
  let product ← liftFault (ns.foldlM Numeral.mul one)
  return .number product

/-- The first argument divided by each of the others in turn. -/
def divide (args : Value) : Except Failure Value := do
  match ← numbers "divide" 2 args with
  | [] => arityError "divide" "at least 2" []
  | n :: rest =>
    let quotient ← liftFault (rest.foldlM Numeral.div n)
    return .number quotient

/-- The remainder of the first argument divided by the second. -/
def mod (args : Value) : Except Failure Value := do
  let args ← arguments Misfit.noLength args
  if args.length ≠ 2 then arityError "mod" "2" args
  else match ← numbersFrom "mod" [] args with
    | [a, b] =>
      let remainder ← liftFault (a.mod b)
      return .number remainder
    | _ => arityError "mod" "2" args

/-- The argument that no later one beats; of equals it is the first. -/
def best (function : String) (beats : Numeral → Numeral → Bool) (args : Value) :
    Except Failure Value := do
  match ← numbers function 1 args with
  | [] => arityError function "at least 1" []
  | n :: rest => return .number (rest.foldl (fun best n => if beats n best then n else best) n)

/-- The largest argument. -/
def max : Value → Except Failure Value := best "max" fun n best => best.lt n

/-- The smallest argument. -/
def min : Value → Except Failure Value := best "min" fun n best => n.lt best

/-- The functions on numbers. -/
def functions : List LibraryFunction :=
  [⟨"add", add⟩, ⟨"subtract", subtract⟩, ⟨"multiply", multiply⟩, ⟨"divide", divide⟩,
   ⟨"mod", mod⟩, ⟨"max", max⟩, ⟨"min", min⟩]

end FormLang.Arithmetic
