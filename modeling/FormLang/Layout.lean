import FormLang.Chunk.Listing
import FormLang.Failure
import FormLang.Node.Show

set_option autoImplicit false

/-! # Readable layout

Code is laid out on one line where it fits and with one parameter to a line where it does not;
what lies too deep is left out. Colours mark the kinds of words and take no room on the screen,
so that they never change where a line ends.
-/

namespace FormLang

/-! ## Colours -/

/-- The kinds of words that are told apart by colour. -/
inductive Colour where
  | symbol
  | number
  | text
  /-- A word whose forms have a meaning of their own. -/
  | reserved
  | captured
  | error
  | label
  deriving DecidableEq, Repr

/-- The escape sequence that switches a colour on. -/
def Colour.code : Colour → String
  | .symbol => "\x1b[94m"
  | .number => "\x1b[92m"
  | .text => "\x1b[93m"
  | .reserved => "\x1b[90m"
  | .captured => "\x1b[96m"
  | .error => "\x1b[91m"
  | .label => "\x1b[95m"

/-- The escape sequence that goes back to no colour. -/
def plainCode : String := "\x1b[0m"

/-- What the reader of a layout can choose: colours, the depth from which on nodes are left out,
and the length of a line. -/
structure LayoutOptions where
  colour : Bool
  maxDepth : Int
  lineLength : Int

/-- The choices when nothing is said. -/
def LayoutOptions.standard : LayoutOptions := ⟨true, 8, 80⟩

/-- Text in a colour, if colours are wanted. -/
def LayoutOptions.paint (o : LayoutOptions) (c : Colour) (text : String) : String :=
  if o.colour then c.code ++ text ++ plainCode else text

/-! ## The room that text takes -/

/-- Removes the occurrences of a word from a text, from left to right; `skip` characters of the
last one are still to be passed, and `kept` is what stays in front, last first. -/
def removeFrom (word : List Char) (kept : List Char) : Nat → List Char → List Char
  | _, [] => kept.reverse
  | skip + 1, _ :: rest => removeFrom word kept skip rest
  | 0, c :: rest =>
    if word.isPrefixOf (c :: rest) then removeFrom word kept (word.length - 1) rest
    else removeFrom word (c :: kept) 0 rest

/-- The text without the colours that code is laid out in, removed one colour after the
other. -/
def stripColours (text : List Char) : List Char :=
  (plainCode :: [Colour.symbol, .number, .text, .reserved].map Colour.code).foldl
    (fun text code => removeFrom code.toList [] 0 text) text

/-- How many characters of a text can be seen. -/
def LayoutOptions.visibleLength (o : LayoutOptions) (text : String) : Nat :=
  if o.colour then (stripColours text.toList).length else text.length

/-! ## Code -/

/-- Blanks in front of a line. -/
def indentation (indent : Int) : String :=
  String.ofList (List.replicate (2 * indent).toNat ' ')

/-- A form whose parts are laid out already: on one line, or with the parameters below the head
and further to the right. -/
def LayoutOptions.arrange (o : LayoutOptions) (indent : Int) (parts : List String) : String :=
  let line := Node.spaced "(" parts ")"
  if (o.visibleLength line : Int) + indent * 2 ≤ o.lineLength then line
  else "(" ++ ("\n" ++ indentation (indent + 1)).intercalate parts ++ ")"

namespace Node

mutual
/-- The layout of a node at an indentation and a depth. -/
def layout (o : LayoutOptions) (indent depth : Int) (n : Node) : Except Fault String :=
  if o.maxDepth ≤ depth then .ok "…"
  else
    match n with
    | .symbol _ name =>
      .ok (o.paint (if reservedNames.contains name then .reserved else .symbol) name)
    | .number _ n => do
      let text ← (Value.number n).written
      return o.paint .number text
    | .truth _ b => .ok (o.paint .number (truthText b))
    | .text _ s => .ok (o.paint .text ("\"" ++ s ++ "\""))
    | .list elements => do
      let parts ← layoutFrom o (indent + 1) (depth + 1) [] elements
      return spaced "[" parts "]"
    | .form _ [] => .ok "()"
    | .form _ items => do
      let parts ← layoutFrom o (indent + 1) (depth + 1) [] items
      return o.arrange indent parts
    | .foreign v => v.written

/-- The layouts of some nodes; `done` are those in front, last first. -/
def layoutFrom (o : LayoutOptions) (indent depth : Int) (done : List String) :
    List Node → Except Fault (List String)
  | [] => .ok done.reverse
  | n :: rest => do
    let text ← n.layout o indent depth
    layoutFrom o indent depth (text :: done) rest
end

end Node

/-! ## Everything that a run produces -/

/-- A value for a reader: captured code is laid out, and a chunk is listed below. -/
def Value.present (o : LayoutOptions) : Value → Except Fault String
  | .captured code => do
    let text ← (Node.form .fixed code).layout o 0 0
    return o.paint .captured "#proc" ++ text
  | .chunk code constants => do
    let text ← (Value.chunk code constants).listing ""
    return "\n" ++ text
  | v => v.written

/-- A node for a reader. A growable form counts as a value, like everything that is no node. -/
def Node.present (o : LayoutOptions) : Node → Except Fault String
  | .foreign v => v.present o
  | .form .growable items =>
    if Node.allWritable items then .ok (Node.form .growable items).write
    else .error .writtenDigits
  | n => n.layout o 0 0

/-- An error for a reader. -/
def ProgramError.present (o : LayoutOptions) (e : ProgramError) : Except Fault String := do
  let text ← e.message
  return o.paint .error (e.kindName ++ ": " ++ text)

end FormLang
