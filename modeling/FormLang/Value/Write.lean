import FormLang.Node

set_option autoImplicit false

/-! # Values and nodes as text

Every value and node has a *written form*, which tells a text from a word and shows the lines
of nodes. Values also have a *plain form*, in which a text stands for itself. An integer with
too many digits cannot be written, and neither can anything that holds one.
-/

namespace FormLang

/-- Texts between brackets, with a comma and a space between them. -/
def bracketed (opening : String) (parts : List String) (closing : String) : String :=
  opening ++ ", ".intercalate parts ++ closing

/-- Texts in round brackets; a single one is followed by a comma. -/
def tupleText : List String → String
  | [part] => "(" ++ part ++ ",)"
  | parts => bracketed "(" parts ")"

/-- The items of a form in the brackets of its style. -/
def FormStyle.wrap : FormStyle → List String → String
  | .fixed, parts => tupleText parts
  | .growable, parts => bracketed "[" parts "]"

/-- A truth value in written form. -/
def truthText (b : Bool) : String := if b then "True" else "False"

/-- A callable in written form. -/
def Callable.write : Callable → String
  | .call owner function => "<call " ++ owner ++ "." ++ function ++ ">"
  | .method _ function origin object =>
    "<bound method " ++ origin ++ "." ++ function ++ " of " ++ object ++ ">"
  | .plain name => "<function " ++ name ++ ">"
  | .labelled name => "<prefix " ++ name ++ ">"
  | .other _ text => text

mutual
/-- The written form of a node. -/
def Node.write : Node → String
  | .symbol line name => "Symbol(line=" ++ toString line ++ ", name=" ++ quoted name ++ ")"
  | .number line value => "Number(line=" ++ toString line ++ ", value=" ++ value.text ++ ")"
  | .truth line value => "Number(line=" ++ toString line ++ ", value=" ++ truthText value ++ ")"
  | .text line value => "StringLit(line=" ++ toString line ++ ", value=" ++ quoted value ++ ")"
  | .list elements => "ListLit(elements=" ++ tupleText (Node.writeAll elements) ++ ")"
  | .form style items => style.wrap (Node.writeAll items)
  | .foreign value => value.write

/-- The written forms of some nodes. -/
def Node.writeAll : List Node → List String
  | [] => []
  | n :: rest => n.write :: Node.writeAll rest

/-- The written form of a value. -/
def Value.write : Value → String
  | .nothing => "None"
  | .truth b => truthText b
  | .number n => n.text
  | .text s => quoted s
  | .list items => bracketed "[" (Value.writeAll items) "]"
  | .captured code => "Deferred(code=" ++ tupleText (Node.writeAll code) ++ ")"
  | .chunk code constants =>
    "Chunk(code=bytearray(" ++ quotedBytes code.toList ++ "), constants=" ++
      bracketed "[" (Value.writeAll constants) "]" ++ ")"
  | .callable target => target.write

/-- The written forms of some values. -/
def Value.writeAll : List Value → List String
  | [] => []
  | v :: rest => v.write :: Value.writeAll rest
end

mutual
/-- Have all integers in a node few enough digits to be written? -/
def Node.writable : Node → Bool
  | .number _ value => value.writable
  | .list elements => Node.allWritable elements
  | .form _ items => Node.allWritable items
  | .foreign value => value.writable
  | _ => true

/-- Have all integers in some nodes few enough digits to be written? -/
def Node.allWritable : List Node → Bool
  | [] => true
  | n :: rest => n.writable && Node.allWritable rest

/-- Have all integers in a value few enough digits to be written? -/
def Value.writable : Value → Bool
  | .number n => n.writable
  | .list items => Value.allWritable items
  | .captured code => Node.allWritable code
  | .chunk _ constants => Value.allWritable constants
  | _ => true

/-- Have all integers in some values few enough digits to be written? -/
def Value.allWritable : List Value → Bool
  | [] => true
  | v :: rest => v.writable && Value.allWritable rest
end

namespace Value

/-- The written form of a value, if it has one. -/
def written (v : Value) : Except Fault String :=
  if v.writable then .ok v.write else .error .writtenDigits

/-- The plain form of a value: a text is itself. -/
def plain : Value → String
  | .text s => s
  | v => v.write

/-- The plain form of a value, if it has one. -/
def plainText (v : Value) : Except Fault String :=
  if v.writable then .ok v.plain else .error .writtenDigits

end Value

/-- The plain form of a node: leaves are their content. -/
def Node.plain : Node → String
  | .symbol _ name => name
  | .number _ value => value.text
  | .truth _ value => truthText value
  | .text _ value => value
  | .foreign value => value.plain
  | n => n.write

end FormLang
