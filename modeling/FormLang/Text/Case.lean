import FormLang.Text.Blank
import FormLang.Text.CaseTable

set_option autoImplicit false

/-! # Upper and lower case

The full mappings: a character may become several, and a capital sigma becomes the final form
when it ends a word.
-/

namespace FormLang

/-- The image of a code point under the first run that contains it. The runs ascend by their
first character, so the search stops at the first that starts behind the code point. -/
def CaseRun.image? (c : Nat) : List CaseRun → Option Nat
  | [] => none
  | r :: rest =>
    if c < r.first then none
    else if c ≤ r.last ∧ (c - r.first) % r.step = 0 then some ((c : Int) + r.shift).toNat
    else image? c rest

/-- The image of one character under a table of runs and a table of expansions. -/
def mapCase (runs : List CaseRun) (expansions : List (Nat × List Nat)) (c : Char) : List Char :=
  match expansions.lookup c.toNat with
  | some cs => cs.map Char.ofNat
  | none =>
    match CaseRun.image? c.toNat runs with
    | some n => [Char.ofNat n]
    | none => [c]

/-- Does the character have case, and is it not transparent? -/
def isCased (c : Char) : Bool := inRanges c.toNat casedRanges

/-- Is the character looked through in the search for a neighbour that has case? -/
def isTransparent (c : Char) : Bool := inRanges c.toNat transparentRanges

/-- Is the next character with a say in the matter one that has case? -/
def meetsCased (cs : List Char) : Bool :=
  match cs.dropWhile isTransparent with
  | c :: _ => isCased c
  | [] => false

/-- The capital form of a text. -/
def upperText (cs : List Char) : List Char := cs.flatMap (mapCase upperRuns upperExpansions)

/-- The capital sigma, the one letter whose small form depends on its neighbours. -/
def capitalSigma : Char := 'Σ'

/-- The small form of a text behind the characters `before` (nearest first): a capital sigma
behind a letter and not in front of one becomes final. -/
def lowerFrom (before : List Char) : List Char → List Char
  | [] => []
  | c :: rest =>
    (if c = capitalSigma then [if meetsCased before && !meetsCased rest then 'ς' else 'σ']
     else mapCase lowerRuns lowerExpansions c) ++ lowerFrom (c :: before) rest

/-- The small form of a text. -/
def lowerText (cs : List Char) : List Char := lowerFrom [] cs

end FormLang
