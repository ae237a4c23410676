set_option autoImplicit false

/-! # Instructions

An instruction is one byte, followed by an operand of two bytes, the high one first, unless
it is a return.
-/

namespace FormLang

/-- The instructions of the machine. -/
inductive Opcode where
  /-- Pushes the constant that the operand names. -/
  | pushConst
  /-- Returns the top of the stack. -/
  | ret
  /-- Pops an argument list and calls the constant that the operand names with it. -/
  | call
  /-- Runs the chunk among the constants that the operand names, and pushes its result. -/
  | runChunk
  /-- Pops as many values as the operand says and pushes the list of them. -/
  | list
  deriving DecidableEq, Repr

namespace Opcode

/-- The byte of an instruction. -/
def byte : Opcode → UInt8
  | .pushConst => 0x05
  | .ret => 0x24
  | .call => 0x40
  | .runChunk => 0x41
  | .list => 0x51

/-- All instructions. -/
def all : List Opcode := [.pushConst, .ret, .call, .runChunk, .list]

/-- The instruction that a byte stands for. -/
def ofByte? (b : UInt8) : Option Opcode := all.find? fun op => op.byte == b

theorem ofByte?_byte (op : Opcode) : ofByte? op.byte = some op := by
  cases op <;> rfl

theorem byte_of_ofByte? {b : UInt8} {op : Opcode} (h : ofByte? b = some op) : op.byte = b := by
  simpa using List.find?_some h

/-- Does an operand follow? -/
def hasOperand : Opcode → Bool
  | .ret => false
  | _ => true

/-- The name of an instruction in listings. -/
def name : Opcode → String
  | .pushConst => "PUSH_CONST"
  | .ret => "RETURN"
  | .call => "CALL"
  | .runChunk => "RUN_CHUNK"
  | .list => "LIST"

end Opcode

/-- The operand at a place of the code. -/
def operandAt? (code : Array UInt8) (i : Nat) : Option Nat :=
  match code[i]?, code[i + 1]? with
  | some high, some low => some (high.toNat * 256 + low.toNat)
  | _, _ => none

end FormLang
