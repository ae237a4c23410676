set_option autoImplicit false

/-! # Sets of characters

A property of characters is given by the code points that have it, as closed ranges in
ascending order. This module has the look-up, and the characters that count as white space.
-/

namespace FormLang

/-- Does a code point lie in one of the closed ranges? They ascend, so the search stops at the
first that starts behind it. -/
def inRanges (c : Nat) : List (Nat × Nat) → Bool
  | [] => false
  | (first, last) :: rest =>
    if c < first then false else if c ≤ last then true else inRanges c rest

/-- White space: the blanks and line ends of every script, and the four ASCII separators
`U+001C` to `U+001F`. -/
def blankRanges : List (Nat × Nat) :=
  [(0x09, 0x0D), (0x1C, 0x20), (0x85, 0x85), (0xA0, 0xA0), (0x1680, 0x1680), (0x2000, 0x200A),
   (0x2028, 0x2029), (0x202F, 0x202F), (0x205F, 0x205F), (0x3000, 0x3000)]

/-- Is the character white space? -/
def isBlank (c : Char) : Bool := inRanges c.toNat blankRanges

/-! ## Cutting text at white space -/

/-- The text without white space at either end. -/
def trimBlanks (cs : List Char) : List Char :=
  ((cs.dropWhile isBlank).reverse.dropWhile isBlank).reverse

/-- Adds a finished word, unless it is empty, in front of the others. -/
def pushWord (word : List Char) (words : List (List Char)) : List (List Char) :=
  if word.isEmpty then words else word.reverse :: words

/-- The words read so far (last first) and the letters of the current one (last first), carried
through the rest of the text. -/
def wordsFrom (done : List (List Char)) (word : List Char) : List Char → List (List Char)
  | [] => (pushWord word done).reverse
  | c :: rest =>
    if isBlank c then wordsFrom (pushWord word done) [] rest else wordsFrom done (c :: word) rest

/-- The maximal runs of characters that are not white space. -/
def splitBlanks (cs : List Char) : List (List Char) := wordsFrom [] [] cs

end FormLang
