import FormLang.Artifact

set_option autoImplicit false

/-! # Actions

Compiling and running are computations that can be seen from outside: text is printed, libraries
are asked for functions, and an observer may note what the stages of a run produce. An action
has a result or a failure, and adds to the journal of all this in any case.
-/

namespace FormLang

/-- A function that a library was asked for: its name, and the compiled arguments. -/
structure Request where
  name : String
  args : List Value

/-- What was seen of a computation, the latest first, and the next mark for an undefined number:
those that were computed have all marks below it. -/
structure Journal where
  requests : List Request
  printed : List String
  noted : List (String × Artifact)
  nextMark : Nat

namespace Journal

/-- Nothing was seen. -/
def blank (nextMark : Nat) : Journal := ⟨[], [], [], nextMark⟩

/-- The printed text. -/
def output (j : Journal) : String := String.join j.printed.reverse

/-- The names that a library was asked for, the first one first. -/
def names (j : Journal) : List String := j.requests.reverse.map (·.name)

/-- The artifacts that an observer noted, each under its label, the first one first. -/
def shown (j : Journal) : List (String × Artifact) := j.noted.reverse

end Journal

/-- A computation that may fail and keeps a journal. -/
abbrev Action (α : Type) : Type := ExceptT Failure (StateM Journal) α

namespace Action

/-- Prints text. -/
def print (text : String) : Action Unit :=
  modify fun j => { j with printed := text :: j.printed }

/-- Prints a line. -/
def printLine (line : String) : Action Unit := print (line ++ "\n")

/-- Notes an artifact under a label. -/
def note (label : String) (a : Artifact) : Action Unit :=
  modify fun j => { j with noted := (label, a) :: j.noted }

/-- Sets the next mark for an undefined number. -/
def setNextMark (next : Nat) : Action Unit :=
  modify fun j => { j with nextMark := next }

/-- Notes a request. -/
def request (r : Request) : Action Unit :=
  modify fun j => { j with requests := r :: j.requests }

/-- A result that may be a failure. -/
def ofExcept {α : Type} (r : Except Failure α) : Action α := ExceptT.mk (pure r)

/-- A result that may be a fault. -/
def ofFault {α : Type} (r : Except Fault α) : Action α := ofExcept (liftFault r)

/-- An error of the language, instead of a result. -/
def fail {α : Type} (e : ProgramError) : Action α := throw (.error e)

/-- Turns errors of the language into results; other failures remain what they are. -/
def catchError {α : Type} (act : Action α) : Action (Except ProgramError α) :=
  ExceptT.mk do
    match ← act.run with
    | .ok a => return .ok (.ok a)
    | .error (.error e) => return .ok (.error e)
    | .error f => return .error f

/-- An action that does not fail, but has the failure as its result. -/
def attempt {α : Type} (act : Action α) : Action (Except Failure α) :=
  ExceptT.mk do return .ok (← act.run)

/-- Runs an action with a blank journal. -/
def perform {α : Type} (act : Action α) (nextMark : Nat) : Except Failure α × Journal :=
  act.run (Journal.blank nextMark)

end Action
end FormLang
