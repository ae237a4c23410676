import FormLang.Failure

set_option autoImplicit false

/-! # Tokens

Source text is cut into brackets, texts in double quotes, and atoms: the bare words and numbers
between them. Everything else is filler.
-/

namespace FormLang

/-- The two kinds of brackets: round ones hold a form, square ones a literal list. -/
inductive Bracket where
  | round
  | square
  deriving DecidableEq, Repr

/-- The kinds of tokens. -/
inductive TokenKind where
  | opening (b : Bracket)
  | closing (b : Bracket)
  /-- A text with its quotes, as it was written. -/
  | text
  | atom
  deriving DecidableEq, Repr

/-- The name of a kind of token. -/
def TokenKind.name : TokenKind → String
  | .opening .round => "lparen"
  | .closing .round => "rparen"
  | .opening .square => "lbracket"
  | .closing .square => "rbracket"
  | .text => "string"
  | .atom => "atom"

/-- A token with the line on which it starts; the first line is 1. -/
structure Token where
  kind : TokenKind
  text : String
  line : Nat
  deriving DecidableEq, Repr

end FormLang
