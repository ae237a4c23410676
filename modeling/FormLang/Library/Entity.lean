import FormLang.Node

set_option autoImplicit false

/-! # What a library reference can lead to

A library is referred to by a name or handed over itself. Either way there is some object, and
whether it can be used shows only when it is looked at.
-/

namespace FormLang

/-- Which object an object of a class is. -/
inductive Identity where
  /-- One of those that are there already. -/
  | standing (number : Nat)
  /-- The one that was made at a moment. -/
  | made (moment : Nat)
  deriving DecidableEq, Repr

/-- An object that a reference is or leads to. -/
inductive Entity where
  | value (v : Value)
  /-- A class, of which an object has to be made first. -/
  | cls (name : String)
  | object (cls : String) (identity : Identity)
  | module (name : String)
  | function (name : String)
  /-- A row of classes. -/
  | classes (names : List String)

/-- A text as an object. -/
def Entity.ofText (s : String) : Entity := .value (.text s)

end FormLang
