import FormLang.Library

set_option autoImplicit false

/-! # Functions on lists -/

namespace FormLang.Lists

open LibraryFunction

/-- A value that has to be a list. -/
def list (function : String) : Value → Except Failure (List Value)
  | .list items => .ok items
  | v => expected function "a list" v

/-- A function with one argument that is a list. -/
def ofList (function : String) (run : List Value → Except Failure Value) :
    Value → Except Failure Value :=
  unary function fun v => do
    let items ← list function v
    run items

/-- An element, if there is one. -/
def element (function : String) : Option Value → Except Failure Value
  | some v => .ok v
  | none => argumentError function "empty list"

/-- The first element. -/
def first : Value → Except Failure Value :=
  ofList "first" fun items => element "first" items.head?

/-- The last element. -/
def last : Value → Except Failure Value :=
  ofList "last" fun items => element "last" items.getLast?

/-- Everything but the first element; the empty list stays empty. -/
def rest : Value → Except Failure Value := ofList "rest" fun items => .ok (.list items.tail)

/-- The number of elements. -/
def count : Value → Except Failure Value :=
  ofList "count" fun items => .ok (.int items.length)

/-- The elements from the last to the first. -/
def reverse : Value → Except Failure Value :=
  ofList "reverse" fun items => .ok (.list items.reverse)

/-- The element at a place, the first one being at 0. -/
def place? (items : List Value) : Value → Option Value
  | .number (.int i) => if i < 0 then none else items[i.toNat]?
  | _ => none

/-- The element of a list, the first argument, at the place that the second argument gives. -/
def nth (args : Value) : Except Failure Value := do
  match ← arguments Misfit.noLength args with
  | [v, index] =>
    let items ← list "nth" v
    match place? items index with
    | some element => return element
    | none =>
      let text ← liftFault index.written
      argumentError "nth" ("index " ++ text ++ " out of range")
  | args => arityError "nth" "2" args

/-- The elements of lists in a row; `seen` are those in front, last first. -/
def appendFrom (seen : List Value) : List Value → Except Failure Value
  | [] => .ok (.list seen.reverse)
  | v :: rest => do
    let items ← list "append" v
    appendFrom (items.reverse ++ seen) rest

/-- The elements of all arguments, which have to be lists, in one list. -/
def append (args : Value) : Except Failure Value := do
  appendFrom [] (← arguments Misfit.notIterable args)

/-- The functions on lists. -/
def functions : List LibraryFunction :=
  [⟨"first", first⟩, ⟨"last", last⟩, ⟨"rest", rest⟩, ⟨"count", count⟩, ⟨"reverse", reverse⟩,
   ⟨"nth", nth⟩, ⟨"append", append⟩]

end FormLang.Lists
