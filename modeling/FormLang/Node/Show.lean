import FormLang.Value.Write

set_option autoImplicit false

/-! # Code as source text

Messages about calls show code as it was written, spaces apart: nested calls as calls, text
without its quotes.
-/

namespace FormLang
namespace Node

/-- The parts of a form or literal list, with spaces between them. -/
def spaced (opening : String) (parts : List String) (closing : String) : String :=
  opening ++ " ".intercalate parts ++ closing

mutual
/-- A node as source text. -/
def shown : Node → String
  | .symbol _ name => name
  | .number _ value => value.text
  | .truth _ value => truthText value
  | .text _ value => value
  | .list elements => spaced "[" (shownAll elements) "]"
  | .form _ items => spaced "(" (shownAll items) ")"
  | .foreign value => value.plain

/-- Nodes as source texts. -/
def shownAll : List Node → List String
  | [] => []
  | n :: rest => n.shown :: shownAll rest
end

/-- A row of nodes as the form that has them. -/
def render (nodes : List Node) : String := spaced "(" (shownAll nodes) ")"

end Node
end FormLang
