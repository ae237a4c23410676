import FormLang.Fault
import FormLang.Text.Case

set_option autoImplicit false

/-! # Settings

Three settings come from outside as plain text, and a setting may be missing: the library for
programs that name none, the machine to run chunks on, and whether chunks are listed before
they run.
-/

namespace FormLang

/-- The ways of running a chunk: by a table of instructions, or in one flat loop. -/
inductive Backend where
  | table
  | flat
  deriving DecidableEq, Repr

/-- The name of a way of running chunks. -/
def Backend.name : Backend → String
  | .table => "py"
  | .flat => "cy"

/-- The settings as they were given. -/
structure Settings where
  libraryText : Option String
  backendText : Option String
  listingText : Option String

namespace Settings

/-- No setting is given. -/
def none : Settings := ⟨.none, .none, .none⟩

/-- A setting that is given and not empty. -/
def given? (setting : Option String) : Option String := setting.filter (!·.isEmpty)

/-- A setting without blanks at its ends, in small letters. -/
def cleaned (setting : String) : String :=
  String.ofList (lowerText (trimBlanks setting.toList))

/-- The library for programs that name none. -/
def library (s : Settings) : String := (given? s.libraryText).getD "standard"

/-- The machine to run chunks on. -/
def backend (s : Settings) : Except Fault Backend :=
  let name := cleaned ((given? s.backendText).getD Backend.table.name)
  match [Backend.table, Backend.flat].find? (·.name == name) with
  | some b => .ok b
  | .none => .error (.unknownBackend name)

/-- The texts that say no. -/
def refusals : List String := ["", "0", "false", "no"]

/-- Are chunks listed before they run? -/
def listing (s : Settings) : Bool := !refusals.contains (cleaned (s.listingText.getD ""))

end Settings
end FormLang
