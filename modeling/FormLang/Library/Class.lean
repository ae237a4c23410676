import FormLang.Library.Host

set_option autoImplicit false

/-! # Classes of libraries

Libraries are objects of classes. A class says how its objects are made, which functions they
have, and how they answer requests; it may fail to keep to the contract, and then its objects
cannot be used.
-/

namespace FormLang

/-- Who keeps to the contract, that is, can be asked to resolve calls. -/
structure Contract where
  objects : Bool
  /-- The class itself, in the place of an object. -/
  itself : Bool
  deriving DecidableEq, Repr

namespace Contract

/-- Neither the objects nor the class. -/
def nobody : Contract := ⟨false, false⟩

/-- The objects alone, which is how it is meant. -/
def objectsOnly : Contract := ⟨true, false⟩

/-- The class alone. -/
def classOnly : Contract := ⟨false, true⟩

/-- The objects and the class. -/
def everybody : Contract := ⟨true, true⟩

end Contract

/-- A function as a class has it. -/
structure Member where
  function : LibraryFunction
  /-- The class that defines it. -/
  origin : String
  /-- Can programs call it? -/
  exported : Bool
  /-- The name that the function was given where it was written. -/
  givenName : String := function.name

/-- What a class has besides the functions of its objects. -/
inductive Attribute where
  /-- A function that no program calls; `misfit` is what is wrong with calling it like one. -/
  | function (misfit : String)
  | value (v : Value)
  /-- A set of names. -/
  | names

/-- A class of libraries. -/
structure LibraryClass where
  name : String
  /-- The name that its objects carry, if they do. -/
  title : Option String
  members : List Member
  /-- The names that its objects answer when asked for their functions, if they can be asked. -/
  listed : Option (List String)
  attributes : List (String × Attribute)
  /-- The names of attributes that its objects have and the class has not, and their types. -/
  objectAttributes : List (String × String)
  /-- What the class says about itself. -/
  remark : Option String
  creation : Creation
  contract : Contract
  resolve : Request → Except Failure Resolution

namespace LibraryClass

/-- Functions that a class defines and exports. -/
def own (origin : String) (functions : List LibraryFunction) : List Member :=
  functions.map fun f => { function := f, origin := origin, exported := true }

/-- The names of the functions that programs can call, in ascending order. -/
def exportsOf (members : List Member) : List String :=
  ((members.filter (·.exported)).map (·.function.name)).mergeSort fun a b => decide (a ≤ b)

/-- A method that gets nothing but the arguments of a call, and wants a name besides. -/
def wantsMore (method : String) : Attribute :=
  .function (method ++ "() missing 1 required positional argument: 'args'")

/-- A method that gets the arguments of a call, and wants none. -/
def wantsNone (method : String) : Attribute :=
  .function (method ++ "() takes 1 positional argument but 2 were given")

/-- The attributes that every class on the common base has. -/
def baseAttributes : List (String × Attribute) :=
  [("exported", .names), ("resolve", wantsMore "Library.resolve"),
   ("functions", wantsNone "Library.functions"), ("__repr__", wantsNone "Library.__repr__")]

/-- A class on the common base: its objects resolve the exported functions and nothing else. -/
def derived (name title : String) (members : List Member) : LibraryClass where
  name := name
  title := some title
  members := members
  listed := some (exportsOf members)
  attributes := baseAttributes
  objectAttributes := []
  remark := none
  creation := .plain
  contract := .objectsOnly
  resolve := (Library.ofExports name (exportsOf members)).resolve

/-- A class that stands alone, with its own way of resolving. -/
def standalone (name : String) (contract : Contract)
    (resolve : Request → Except Failure Resolution) : LibraryClass where
  name := name
  title := none
  members := []
  listed := none
  attributes := [("resolve", wantsMore (name ++ ".resolve"))]
  objectAttributes := []
  remark := none
  creation := .plain
  contract := contract
  resolve := resolve

/-- The name of an object of the class. -/
def objectName (c : LibraryClass) : String := c.title.getD c.name

/-- The names of the exported functions of a class on the common base. -/
def exports? (c : LibraryClass) : Option (List String) :=
  (c.attributes.lookup "exported").map fun _ => exportsOf c.members

/-- The function of a class with a name. -/
def member? (c : LibraryClass) (name : String) : Option Member :=
  c.members.find? (·.function.name == name)

/-- The name of the type of a set of names. -/
def namesType : String := "frozenset"

/-- Why an attribute of an object of the class, which is not one of its functions, cannot be called
with arguments. -/
def uncallable (c : LibraryClass) (name : String) : Fault :=
  match c.attributes.lookup name with
  | some (.function misfit) => .wrongType misfit
  | some (.value v) => .wrongType (Misfit.notCallable v.kind.typeName)
  | some .names => .wrongType (Misfit.notCallable namesType)
  | none =>
    match c.objectAttributes.lookup name with
    | some type => .wrongType (Misfit.notCallable type)
    | none =>
      if name == "name" && c.title.isSome then
        .wrongType (Misfit.notCallable ValueKind.text.typeName)
      else .noAttribute (Misfit.lacks c.name name)

/-- Calls a function of an object of the class. -/
def call (c : LibraryClass) (name : String) (args : Value) : Except Failure Value :=
  match c.member? name with
  | some m => m.function.run args
  | none => .error (.fault (c.uncallable name))

/-- An object of the class as text. -/
def objectText (c : LibraryClass) : String :=
  "<" ++ c.name ++ " library " ++ quoted c.objectName ++ ">"

end LibraryClass
end FormLang
