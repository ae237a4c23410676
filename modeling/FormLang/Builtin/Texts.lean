import FormLang.Library
import FormLang.Text.Case
import FormLang.Text.Split

set_option autoImplicit false

/-! # Functions on text -/

namespace FormLang.Texts

open LibraryFunction

/-- A value that has to be a text. -/
def text (function : String) : Value → Except Failure String
  | .text s => .ok s
  | v => expected function "a string" v

/-- A function with one argument that is a text. -/
def ofText (function : String) (run : String → Value) : Value → Except Failure Value :=
  unary function fun v => do
    let s ← text function v
    return run s

/-- A text from its characters. -/
def ofChars (cs : List Char) : Value := .text (String.ofList cs)

/-- The plain forms of all arguments in a row. -/
def concat (args : Value) : Except Failure Value := do
  let args ← arguments Misfit.notIterable args
  let parts ← liftFault (args.mapM Value.plainText)
  return .text (String.join parts)

/-- The text in capital letters. -/
def upcase : Value → Except Failure Value := ofText "upcase" fun s => ofChars (upperText s.toList)

/-- The text in small letters. -/
def downcase : Value → Except Failure Value :=
  ofText "downcase" fun s => ofChars (lowerText s.toList)

/-- The number of characters. -/
def length : Value → Except Failure Value := ofText "length" fun s => .int s.length

/-- The words of the first argument, or its pieces around the second. -/
def split (args : Value) : Except Failure Value := do
  match ← arguments Misfit.noLength args with
  | [v] =>
    let s ← text "split" v
    return .list ((splitBlanks s.toList).map ofChars)
  | [v, w] =>
    let s ← text "split" v
    let separator ← text "split" w
    if separator.isEmpty then throw (.fault .emptySeparator)
    return .list ((splitAtSeparator separator.toList s.toList).map ofChars)
  | args => arityError "split" "1 or 2" args

/-- The functions on text. -/
def functions : List LibraryFunction :=
  [⟨"concat", concat⟩, ⟨"upcase", upcase⟩, ⟨"downcase", downcase⟩, ⟨"length", length⟩,
   ⟨"split", split⟩]

end FormLang.Texts
