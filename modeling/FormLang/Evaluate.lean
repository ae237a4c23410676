import FormLang.Action
import FormLang.Chunk.Listing
import FormLang.Machine.Dispatch
import FormLang.Machine.Flat
import FormLang.Settings

set_option autoImplicit false

/-! # Evaluating compiled units

Captured code is a value already. A chunk is run on the machine that the settings or the caller
choose; when the settings ask for it, its listing is printed first, whether or not the machine
exists.
-/

namespace FormLang

/-- Runs a value as a chunk on a fresh machine. -/
def runOn (backend : Backend) (apply : Apply) (nextMark : Nat) (unit : Value) :
    Except Failure Value × Record :=
  match backend with
  | .table =>
    let (r, m) := (Machine.fresh nextMark).run apply unit
    (r, m.record)
  | .flat => runFlat apply nextMark unit

/-- Prints the listing of a unit. -/
def printListing (unit : Value) : Action Unit := do
  Action.printLine "=== DISASM ==="
  let text ← Action.ofFault (unit.listing "")
  Action.printLine text
  Action.printLine "=== END DISASM ==="

/-- The value of a unit. -/
def evaluate (apply : Apply) (settings : Settings) (backend? : Option Backend) (unit : Value) :
    Action Value := do
  match unit with
  | .captured code => return .captured code
  | unit =>
    if settings.listing then printListing unit
    let backend ← match backend? with
      | some b => pure b
      | none => Action.ofFault settings.backend
    let (r, record) := runOn backend apply (← get).nextMark unit
    Action.setNextMark record.nextMark
    Action.ofExcept r

end FormLang
