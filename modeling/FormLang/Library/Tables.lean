import FormLang.Library.Samples

set_option autoImplicit false

/-! # Classes and modules in tables

A host whose classes and modules are written down in tables. Its objects are what their classes
say, at any moment.
-/

namespace FormLang

/-- A module that can be imported: its attributes, and the library that it is by itself, if it
is one. -/
structure Module where
  name : String
  attributes : List (String × Entity)
  library : Option Library

/-- All classes and all modules. -/
structure Tables where
  classes : List LibraryClass
  modules : List Module

namespace Tables

/-- The sample classes, and some modules. -/
def samples (modules : List Module) : Tables := ⟨libraryClasses, modules⟩

/-- The class with a name. -/
def class? (t : Tables) (name : String) : Option LibraryClass :=
  t.classes.find? (·.name == name)

/-- The module with a name. -/
def module? (t : Tables) (name : String) : Option Module := t.modules.find? (·.name == name)

/-- The names under which classes and functions know their own names. -/
def selfNames : List String := ["__name__", "__qualname__"]

/-- The attribute of a class in which it says something about itself. -/
def remarkName : String := "__doc__"

/-- The attribute in which objects on the common base answer for their functions. -/
def functionsName : String := "functions"

/-- An attribute of a class. Its objects may have more. -/
def classAttribute? (c : LibraryClass) (name : String) : Option Entity :=
  match c.member? name, c.attributes.lookup name with
  | some m, _ => some (.function m.givenName)
  | none, some (.function _) => some (.function name)
  | none, some (.value v) => some (.value v)
  | none, some .names => some (.object LibraryClass.namesType (.standing 0))
  | none, none =>
    if name = "name" then c.title.map .ofText
    else if selfNames.contains name then some (.ofText c.name)
    else if name = remarkName then some (c.remark.elim (.value .nothing) .ofText)
    else none

/-- An attribute of an object that an import path can lead to. -/
def attribute? (t : Tables) (e : Entity) (name : String) : Option Entity :=
  match e with
  | .cls c => do
    let c ← t.class? c
    classAttribute? c name
  | .function f => if name = "__name__" then some (.ofText f) else none
  | .module m => do
    let m ← t.module? m
    m.attributes.lookup name
  | _ => none

/-- The library that an object is, if it keeps to the contract. -/
def library? (t : Tables) : Entity → Option Library
  | .cls c => do
    let c ← t.class? c
    if c.contract.itself then some ⟨c.resolve⟩ else none
  | .object c _ => do
    let c ← t.class? c
    if c.contract.objects then some ⟨c.resolve⟩ else none
  | .module m => do
    let m ← t.module? m
    m.library
  | _ => none

/-- The name that an object carries. -/
def title? (t : Tables) : Entity → Option String
  | .value (.callable (.labelled name)) => some name
  | .object c _ => (t.class? c).bind (·.title)
  | _ => none

/-- The name of the type of an object. -/
def typeName : Entity → String
  | .value v => v.kind.typeName
  | .cls _ => "type"
  | .object c _ => c
  | .module _ => "module"
  | .function _ => ValueKind.plain.typeName
  | .classes _ => "tuple"

/-- The host with these classes and modules, at some moment. -/
def host (t : Tables) (moment : Nat) : Host where
  moment := moment
  creation c := (t.class? c).elim .plain (·.creation)
  importModule name := .ok ((t.module? name).map fun m => .module m.name)
  attributeOf e name := .ok (t.attribute? e name)
  title? := t.title?
  typeName := typeName
  library e := .ok (t.library? e)

/-! ## What objects say about themselves -/

/-- The names of the functions of an object, as it answers itself. -/
def functions (t : Tables) (e : Entity) : Except Failure (List String) :=
  let lacks : Except Failure (List String) :=
    .error (.fault (.noAttribute (Misfit.lacks (typeName e) functionsName)))
  match e with
  | .object c _ => ((t.class? c).bind (·.listed)).elim lacks .ok
  | e =>
    match t.attribute? e functionsName with
    | some a => .error (.fault (.wrongType (Misfit.notCallable (typeName a))))
    | none => lacks

/-- The names of the functions that programs can call, for a class on the common base. -/
def exports (t : Tables) (e : Entity) : Except Failure (List String) :=
  let names? := match e with
    | .cls c | .object c _ => (t.class? c).bind (·.exports?)
    | _ => none
  names?.elim (.error (.fault (.noAttribute (Misfit.lacks (typeName e) "exported")))) .ok

/-- An object as text. -/
def text (t : Tables) : Entity → Except Fault String
  | .value v => v.written
  | .object c _ => .ok ((t.class? c).elim c (·.objectText))
  | .cls c => .ok c
  | .module m => .ok m
  | e => .ok (typeName e)

/-- Asks an object to resolve a call, whether or not it keeps to the contract. -/
def resolve (t : Tables) (e : Entity) (r : Request) : Except Failure Resolution :=
  let library? : Option Library := match e with
    | .object c _ => (t.class? c).map fun c => ⟨c.resolve⟩
    | e => t.library? e
  match library? with
  | some l => l.resolve r
  | none => .error (.fault (.noAttribute (Misfit.lacks (typeName e) "resolve")))

end Tables
end FormLang
