import FormLang.Chunk.Opcode
import FormLang.Value.Equality

set_option autoImplicit false

/-! # Building chunks

A chunk is machine code with a table of constants. It is built by emitting instructions;
equal constants of one type share a place in the table. An operand that needs more than 16
bits is refused, and what was emitted before stays.
-/

namespace FormLang

/-- A piece of machine code and its constants. -/
structure Chunk where
  code : Array UInt8
  constants : List Value

namespace Chunk

/-- A chunk without code or constants. -/
def empty : Chunk := ⟨#[], []⟩

/-- A chunk is a value. -/
def toValue (c : Chunk) : Value := .chunk c.code c.constants

/-- The place of the first constant that can stand for a value. -/
def placeOf? (c : Chunk) (v : Value) : Option Nat := c.constants.findIdx? (·.sameConstant v)

/-- The place of a constant, which is added at the end if none can stand for it. -/
def addConstant (c : Chunk) (v : Value) : Nat × Chunk :=
  match c.placeOf? v with
  | some i => (i, c)
  | none => (c.constants.length, { c with constants := c.constants ++ [v] })

end Chunk

/-- A step in building a chunk; a step that fails keeps what it has emitted. -/
abbrev Emit (α : Type) : Type := ExceptT Fault (StateM Chunk) α

namespace Emit

/-- Adds one byte; the answer is its place. -/
def byte (b : UInt8) : Emit Nat :=
  modifyGet fun c => (c.code.size, { c with code := c.code.push b })

/-- Adds an instruction; the answer is its place. -/
def op (o : Opcode) : Emit Nat := byte o.byte

/-- Adds an instruction by its number. -/
def opNumber (n : Int) : Emit Nat :=
  if 0 ≤ n ∧ n < 256 then byte (UInt8.ofNat n.toNat) else throw .byteRange

/-- The largest operand. -/
def maxOperand : Nat := 0xFFFF

/-- Adds an operand, the high byte first. -/
def operand (n : Int) : Emit Unit := do
  if 0 ≤ n ∧ n ≤ maxOperand then
    let _ ← byte (UInt8.ofNat (n.toNat / 256))
    let _ ← byte (UInt8.ofNat (n.toNat % 256))
  else throw (.operandRange n)

/-- Finds or makes the place of a constant. -/
def constant (v : Value) : Emit Nat := modifyGet fun c => c.addConstant v

/-- Adds code that pushes a constant as it is. -/
def pushConstant (v : Value) : Emit Unit := do
  let i ← constant v
  let _ ← op .pushConst
  operand i

/-- Adds code that runs a chunk and leaves its result. -/
def runConstant (v : Value) : Emit Unit := do
  let _ ← op .runChunk
  let i ← constant v
  operand i

mutual
/-- Adds code that pushes what a compiled argument comes to: the result of a chunk, the list of
what its elements come to, and any other value itself. -/
def value : Value → Emit Unit
  | .chunk code constants => runConstant (.chunk code constants)
  | .list items => do
    values items
    let _ ← op .list
    operand items.length
  | v => pushConstant v

/-- Adds code that pushes what some compiled arguments come to, from left to right. -/
def values : List Value → Emit Unit
  | [] => pure ()
  | v :: rest => do
    value v
    values rest
end

/-- Adds the return. -/
def ret : Emit Unit := do
  let _ ← op .ret

/-- The chunk that the steps build from nothing. -/
def build (steps : Emit Unit) : Except Fault Chunk :=
  match steps.run Chunk.empty with
  | (.ok _, c) => .ok c
  | (.error f, _) => .error f

end Emit

namespace Chunk

/-- A chunk that evaluates to what a compiled argument comes to. -/
def ofValue (v : Value) : Except Fault Chunk :=
  Emit.build do
    Emit.value v
    Emit.ret

/-- A chunk that calls a constant with the list of what some compiled arguments come to. -/
def ofCall (target : Value) (args : List Value) : Except Fault Chunk :=
  Emit.build do
    Emit.value (.list args)
    let _ ← Emit.op .call
    let i ← Emit.constant target
    Emit.operand i
    Emit.ret

end Chunk
end FormLang
