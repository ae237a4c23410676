import FormLang.Node

set_option autoImplicit false

/-! # Equality of the language

Two values are *equal* when a program cannot tell them apart by comparison: numbers and truth
values by their amount, texts by their characters, lists, captured code and chunks part by
part. Nodes are equal when they have the same kind, line and content; the two styles of forms
are never equal. An undefined number is not equal to itself, but everything that holds one is:
parts are *alike* when they are equal or one and the same undefined number.
-/

namespace FormLang

/-- The number that a truth value counts as. -/
def truthNumber (b : Bool) : Numeral := .int (if b then 1 else 0)

/-- Are both the same undefined number? -/
def Value.sameUndefined : Value → Value → Bool
  | .number m, .number n => m.sameUndefined n
  | _, _ => false

mutual
/-- Are two nodes equal? -/
def Node.equals : Node → Node → Bool
  | .symbol l s, .symbol m t => l == m && s == t
  | .number l a, .number m b => l == m && a.alike b
  | .number l a, .truth m b => l == m && a.equals (truthNumber b)
  | .truth l a, .number m b => l == m && (truthNumber a).equals b
  | .truth l a, .truth m b => l == m && a == b
  | .text l s, .text m t => l == m && s == t
  | .list xs, .list ys => Node.allEqual xs ys
  | .form style xs, .form style' ys => style == style' && Node.allEqual xs ys
  | .foreign v, .foreign w => v.sameUndefined w || v.equals w
  | _, _ => false

/-- Are two rows of nodes equal, one by one? -/
def Node.allEqual : List Node → List Node → Bool
  | [], [] => true
  | x :: xs, y :: ys => x.equals y && Node.allEqual xs ys
  | _, _ => false

/-- Are two values equal? -/
def Value.equals : Value → Value → Bool
  | .nothing, .nothing => true
  | .truth a, .truth b => a == b
  | .truth a, .number n => (truthNumber a).equals n
  | .number m, .truth b => m.equals (truthNumber b)
  | .number m, .number n => m.equals n
  | .text s, .text t => s == t
  | .list xs, .list ys => Value.allEqual xs ys
  | .captured xs, .captured ys => Node.allEqual xs ys
  | .chunk c xs, .chunk d ys => c == d && Value.allEqual xs ys
  | .callable f, .callable g => f == g
  | _, _ => false

/-- Are two rows of values alike, one by one? -/
def Value.allEqual : List Value → List Value → Bool
  | [], [] => true
  | x :: xs, y :: ys => (x.sameUndefined y || x.equals y) && Value.allEqual xs ys
  | _, _ => false
end

/-- Are two values equal as parts of something? -/
def Value.alike (v w : Value) : Bool := v.sameUndefined w || v.equals w

/-- May one constant stand for the other? They have to be of one type and equal. -/
def Value.sameConstant (v w : Value) : Bool := v.kind == w.kind && v.equals w

end FormLang
