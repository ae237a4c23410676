import FormLang.Builtin.Arithmetic
import FormLang.Builtin.Lists
import FormLang.Builtin.Texts
import FormLang.Value.Equality

set_option autoImplicit false

/-! # The standard functions

The standard library has the functions on numbers, lists and text, and two that take values of
any type.
-/

namespace FormLang.Standard

open LibraryFunction

/-- The argument itself. -/
def identity : Value → Except Failure Value := unary "identity" .ok

/-- Is each value equal to the next one? -/
def neighboursEqual : List Value → Bool
  | v :: w :: rest => v.equals w && neighboursEqual (w :: rest)
  | _ => true

/-- Are all arguments equal? Each is compared with the next one. -/
def equal (args : Value) : Except Failure Value := do
  let args ← arguments Misfit.notSubscriptable args
  return .truth (neighboursEqual args)

/-- The functions on values of any type. -/
def general : List LibraryFunction := [⟨"identity", identity⟩, ⟨"equal", equal⟩]

end FormLang.Standard
