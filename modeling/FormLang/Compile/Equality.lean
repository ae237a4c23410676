import FormLang.Compile
import FormLang.Value.Equality

set_option autoImplicit false

/-! # Comparing what programs are compiled to -/

namespace FormLang

/-- Two errors are equal when they are of one kind and say the same. -/
def ProgramError.equals : ProgramError → ProgramError → Bool
  | .unresolvedCall kind name line count args, .unresolvedCall kind' name' line' count' args' =>
    kind == kind' && name == name' && line == line' && count == count' && args == args'
  | .libraryNotFound name, .libraryNotFound name' => name == name'
  | .contractViolation name, .contractViolation name' => name == name'
  | .notCaptured value line, .notCaptured value' line' => value.alike value' && line == line'
  | .unreadable reason line, .unreadable reason' line' =>
    reason.text == reason'.text && line == line'
  | .arity function expected count, .arity function' expected' count' =>
    function == function' && expected == expected' && count == count'
  | .argument function reason, .argument function' reason' =>
    function == function' && reason == reason'
  | .unspecified, .unspecified => true
  | _, _ => false

/-- Equality of units; one that could not be compiled is its error. -/
def unitsEqual : Except ProgramError Compiled → Except ProgramError Compiled → Bool
  | .ok u, .ok u' => u.toValue.equals u'.toValue
  | .error e, .error e' => e.equals e'
  | _, _ => false

/-- The name of what a program is compiled to. -/
def unitKind : Except ProgramError Compiled → String
  | .ok u => u.toValue.kind.typeName
  | .error e => e.kindName

end FormLang
