import FormLang.Library.Registry
import FormLang.Settings
import FormLang.Text.Split

set_option autoImplicit false

/-! # Finding libraries

A text refers to a registered object or else to something that can be imported: a module, or
what a chain of attributes leads to from it. A class is never a library itself; an object of it
is made. Nothing is remembered: every look-up starts anew.
-/

namespace FormLang

/-- The reference of a program, which is that of the settings when it names no library. -/
def Entity.orDefault (s : Settings) : Entity → Entity
  | .value .nothing => .value (.text s.library)
  | ref => ref

/-- The error of a reference that leads nowhere. -/
def notFound {α : Type} (name : String) : Except Failure α :=
  .error (.error (.libraryNotFound name))

/-! ## What can be imported -/

/-- The two parts of an import path: the module in front of the first colon, and the names of
attributes behind it. Empty names are passed over. -/
def splitPath (path : String) : String × List String :=
  let cs := path.toList
  let behind := (cs.dropWhile (· != ':')).tail
  let names := (splitAtSeparator ['.'] behind).filter fun name => !name.isEmpty
  (String.ofList (cs.takeWhile (· != ':')), names.map String.ofList)

/-- Is it no name of a module, or one that says nothing without a package around it? -/
def isRelative (module : String) : Bool :=
  module.isEmpty || module.toList.head? == some '.'

namespace Host

/-- Follows the names of attributes from an object on. -/
def follow (h : Host) (path : String) (e : Entity) : List String → Except Failure Entity
  | [] => .ok e
  | name :: names => do
    match ← h.attributeOf e name with
    | some e => h.follow path e names
    | none => notFound path

/-- The object that an import path leads to. -/
def importPath (h : Host) (path : String) : Except Failure Entity :=
  let (module, names) := splitPath path
  if isRelative module then notFound path
  else do
    match ← h.importModule module with
    | some e => h.follow path e names
    | none => notFound path

/-- An object of a class, and any other object itself; `name` is how it was referred to. -/
def instantiate (h : Host) (name : String) : Entity → Except Failure Entity
  | .cls cls =>
    match h.creation cls with
    | .plain => .ok (.object cls (.made h.moment))
    | .needsArguments => notFound name
    | .fails f => .error f
    | .gives e => .ok e
  | e => .ok e

end Host

/-! ## References -/

/-- Where libraries are looked for, at some moment. -/
structure Surroundings where
  host : Host
  registry : Registry

namespace Surroundings

/-- The object that a text refers to. A name that stands for nothing counts as not
registered. -/
def lookup (s : Surroundings) (text : String) : Except Failure Entity :=
  match s.registry.get? text with
  | some (.value .nothing) | none => s.host.importPath text
  | some e => .ok e

/-- The object that a reference leads to. -/
def find (s : Surroundings) (ref : Entity) : Except Failure Entity :=
  match ref with
  | .value .nothing => notFound "None"
  | .value (.text text) => do
    let e ← s.lookup text
    s.host.instantiate text e
  | ref => s.host.instantiate (s.host.name ref) ref

/-- The object that a reference leads to, which has to be a library. -/
def load (s : Surroundings) (ref : Entity) : Except Failure (Entity × Library) := do
  let e ← s.find ref
  match ← s.host.library e with
  | some library => return (e, library)
  | none => throw (.error (.contractViolation (s.host.name ref)))

end Surroundings
end FormLang
