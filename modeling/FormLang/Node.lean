import FormLang.Number.Numeral

set_option autoImplicit false

/-! # Code and values

A program is read into *nodes*; running it gives *values*. The two types refer to each other:
code captured by `proc` is a value that holds nodes, and a tree of nodes handed to the compiler
by a caller may hold values that no reader would produce.
-/

namespace FormLang

/-- The name of something that can be called with a list of arguments. What it does is looked
up when it is called. -/
inductive Callable where
  /-- A function of a library, as compiled calls refer to it. -/
  | call (owner function : String)
  /-- A function of a library, taken from an object of it; `origin` is the class that defines
  it, and `object` the written form of the object. -/
  | method (owner function origin object : String)
  /-- A function that belongs to no library. -/
  | plain (name : String)
  /-- The function that puts a name in front of its arguments. -/
  | labelled (name : String)
  /-- An object of some other type, that has no code, with its written form. It may be a callable
  or not. -/
  | other (type text : String)
  deriving DecidableEq, Repr

/-- How the items of a form are held: a form that was read is fixed, one that a caller builds
may be growable. Both mean the same to the compiler. -/
inductive FormStyle where
  | fixed
  | growable
  deriving DecidableEq, Repr

mutual
/-- A piece of code. Leaves carry the line they were read from. -/
inductive Node where
  /-- A bare word: the head of a form, or a literal that stands for its own name. -/
  | symbol (line : Int) (name : String)
  | number (line : Int) (value : Numeral)
  /-- A number that is a truth value. No text is read as one. -/
  | truth (line : Int) (value : Bool)
  /-- A text literal. -/
  | text (line : Int) (value : String)
  /-- A literal list. It is never a call, whatever its elements are. -/
  | list (elements : List Node)
  /-- A form: a head followed by its parameters, or nothing at all. -/
  | form (style : FormStyle) (items : List Node)
  /-- A value where a node belongs. -/
  | foreign (value : Value)

/-- What a program evaluates to, and what a call is compiled with. -/
inductive Value where
  | nothing
  | truth (b : Bool)
  | number (n : Numeral)
  | text (s : String)
  | list (items : List Value)
  /-- Code captured by `proc`, as it was written. -/
  | captured (code : List Node)
  /-- A chunk of machine code with its table of constants. -/
  | chunk (code : Array UInt8) (constants : List Value)
  | callable (target : Callable)
end

instance : Inhabited Node := ⟨.list []⟩
instance : Inhabited Value := ⟨.nothing⟩

/-! ## Kinds of nodes -/

/-- The kinds that messages about calls distinguish. -/
inductive NodeKind where
  | symbol
  | number
  | text
  | list
  | form
  deriving DecidableEq, Repr

/-- The name of a kind in messages. -/
def NodeKind.name : NodeKind → String
  | .symbol => "symbol"
  | .number => "number"
  | .text => "string"
  | .list => "list"
  | .form => "form"

namespace Node

/-- The kind of a node; whatever is not a leaf or a literal list counts as a form. -/
def kind : Node → NodeKind
  | .symbol _ _ => .symbol
  | .number _ _ => .number
  | .truth _ _ => .number
  | .text _ _ => .text
  | .list _ => .list
  | .form _ _ => .form
  | .foreign _ => .form

mutual
/-- The line of a node: its own, or the first one other than 0 found inside, else 0. -/
def line : Node → Int
  | .symbol l _ => l
  | .number l _ => l
  | .truth l _ => l
  | .text l _ => l
  | .list elements => lineOf elements
  | .form _ items => lineOf items
  | .foreign _ => 0

/-- The first line other than 0 among some nodes, else 0. -/
def lineOf : List Node → Int
  | [] => 0
  | n :: rest => let l := n.line; if l != 0 then l else lineOf rest
end

/-- The items of a form. -/
def items? : Node → Option (List Node)
  | .form _ items => some items
  | _ => none

/-- Is the node a form? -/
def isForm (n : Node) : Bool := n.items?.isSome

/-- The word that captures code instead of running it. -/
def procName : String := "proc"

/-- The word that runs captured code. -/
def evalName : String := "eval"

/-- The words whose forms have a meaning of their own. -/
def reservedNames : List String := [evalName, procName]

/-- Is the node the bare word with a name? -/
def isNamed (n : Node) (word : String) : Bool :=
  match n with
  | .symbol _ name => name == word
  | _ => false

/-- The code of a form headed by `proc`. -/
def procCode? : Node → Option (List Node)
  | .form _ (.symbol _ name :: code) => if name = procName then some code else none
  | _ => none

/-- The form that captured code stands for: code that is a single form is that form, and any
other is itself the form. -/
def capturedBody : List Node → List Node
  | [.form _ items] => items
  | code => code

/-- A value where a node belongs; a list of values is a growable form. -/
def ofValue : Value → Node
  | .list items => .form .growable (items.attach.map fun ⟨v, _⟩ => ofValue v)
  | v => .foreign v

/-! ## Size -/

mutual
/-- The number of nodes in a tree. -/
def size : Node → Nat
  | .list elements => sizeOfAll elements + 1
  | .form _ items => sizeOfAll items + 1
  | _ => 1

/-- The number of nodes in a row of trees. -/
def sizeOfAll : List Node → Nat
  | [] => 0
  | n :: rest => n.size + sizeOfAll rest
end

end Node

/-! ## Kinds of values -/

/-- The types of values, as constants of a chunk distinguish them. -/
inductive ValueKind where
  | nothing
  | truth
  | int
  | float
  | text
  | list
  | captured
  | chunk
  | call
  | method
  | plain
  | labelled
  | other (type : String)
  deriving DecidableEq, Repr

/-- The name of the type of a value. -/
def ValueKind.typeName : ValueKind → String
  | .nothing => "NoneType"
  | .truth => "bool"
  | .int => "int"
  | .float => "float"
  | .text => "str"
  | .list => "list"
  | .captured => "Deferred"
  | .chunk => "Chunk"
  | .call => "LibraryCall"
  | .method => "method"
  | .plain => "function"
  | .labelled => "Prefix"
  | .other type => type

/-- The name of the type that is asked for the attributes of a value: a method leaves this to the
function that it is of. -/
def ValueKind.holderName : ValueKind → String
  | .method => ValueKind.plain.typeName
  | k => k.typeName

namespace Value

/-- The type of a value. -/
def kind : Value → ValueKind
  | .nothing => .nothing
  | .truth _ => .truth
  | .number (.int _) => .int
  | .number (.float _) => .float
  | .text _ => .text
  | .list _ => .list
  | .captured _ => .captured
  | .chunk _ _ => .chunk
  | .callable (.call _ _) => .call
  | .callable (.method _ _ _ _) => .method
  | .callable (.plain _) => .plain
  | .callable (.labelled _) => .labelled
  | .callable (.other type _) => .other type

/-- A whole number. -/
def int (n : Int) : Value := .number (.int n)

/-- What a value that is no chunk lacks in the place of one: captured code has no constants, and
anything else no code. -/
def notAChunk : Value → Fault
  | .captured _ => .noAttribute (Misfit.lacks ValueKind.captured.typeName "constants")
  | v => .noAttribute (Misfit.lacks v.kind.holderName "code")

/-- The elements of a value that is a sequence; a text is the sequence of its characters. -/
def elements? : Value → Option (List Value)
  | .list items => some items
  | .text s => some (s.toList.map fun c => .text (String.singleton c))
  | _ => none

end Value

/-- The name of the type of a node. -/
def Node.typeName : Node → String
  | .symbol _ _ => "Symbol"
  | .number _ _ => "Number"
  | .truth _ _ => "Number"
  | .text _ _ => "StringLit"
  | .list _ => "ListLit"
  | .form .fixed _ => "tuple"
  | .form .growable _ => "list"
  | .foreign v => v.kind.typeName

end FormLang
