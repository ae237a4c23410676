set_option autoImplicit false

/-! # Cutting text at a separator -/

namespace FormLang

/-- The pieces of a text, carried through it one character at a time: `skip` characters of a
separator are still to be passed, `piece` is the current piece and `done` holds those before it,
both last first. A separator is looked for behind the one before it. -/
def splitFrom (separator : List Char) (done : List (List Char)) (piece : List Char) :
    Nat → List Char → List (List Char)
  | _, [] => (piece.reverse :: done).reverse
  | skip + 1, _ :: rest => splitFrom separator done piece skip rest
  | 0, c :: rest =>
    if separator.isPrefixOf (c :: rest) then
      splitFrom separator (piece.reverse :: done) [] (separator.length - 1) rest
    else splitFrom separator done (c :: piece) 0 rest

/-- The pieces of a text between the occurrences of a separator, which is not empty. -/
def splitAtSeparator (separator text : List Char) : List (List Char) :=
  splitFrom separator [] [] 0 text

end FormLang
