import FormLang.Library
import FormLang.Library.Entity

set_option autoImplicit false

/-! # The host

Objects, classes and modules belong to the system that programs run in, and so do the rules for
them. All that matters here is what this system answers when something is asked of it.
-/

namespace FormLang

/-- How making an object of a class ends. -/
inductive Creation where
  /-- Without more ado, with a new object. -/
  | plain
  /-- Not at all: it takes arguments, which nobody supplies. -/
  | needsArguments
  /-- Not at all: it fails. -/
  | fails (f : Failure)
  /-- With something that is no new object of the class. -/
  | gives (e : Entity)

/-- What the host answers at some moment. Asking it may fail in any way. -/
structure Host where
  /-- Objects that are made at different moments are different objects. -/
  moment : Nat
  creation : (cls : String) → Creation
  /-- The module with a name, if it can be imported. -/
  importModule : String → Except Failure (Option Entity)
  /-- The attribute of an object with a name, if it has one. -/
  attributeOf : Entity → String → Except Failure (Option Entity)
  /-- The name that an object carries, if it carries one and it is a text. -/
  title? : Entity → Option String
  typeName : Entity → String
  /-- The library that an object is, if it keeps to the contract. -/
  library : Entity → Except Failure (Option Library)

/-- The name of a reference, as messages about libraries show it. -/
def Host.name (h : Host) : Entity → String
  | .value (.text s) => s
  | .cls name => name
  | .module name => name
  | e => (h.title? e).getD (h.typeName e)

end FormLang
