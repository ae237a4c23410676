import FormLang.Chunk.Emit
import FormLang.Value.Write

set_option autoImplicit false

/-! # Listings

A listing sweeps the code of a chunk from the first byte to the last, without following it,
and then shows the constants; chunks among them are listed in place, further to the right.
-/

namespace FormLang

/-! ## Sweeping code -/

/-- One line of a listing: an instruction, or a byte that is none, at its place. -/
structure Listed where
  offset : Nat
  byte : UInt8
  opcode? : Option Opcode
  operand? : Option Nat
  deriving DecidableEq, Repr

/-- The entries of code that starts at an offset; `none` when it ends inside an operand. -/
def sweep (offset : Nat) : List UInt8 → Option (List Listed)
  | [] => some []
  | b :: rest =>
    match Opcode.ofByte? b with
    | some op =>
      if op.hasOperand then
        match rest with
        | high :: low :: rest =>
          (sweep (offset + 3) rest).map
            (⟨offset, b, some op, some (high.toNat * 256 + low.toNat)⟩ :: ·)
        | _ => none
      else (sweep (offset + 1) rest).map (⟨offset, b, some op, none⟩ :: ·)
    | none => (sweep (offset + 1) rest).map (⟨offset, b, none, none⟩ :: ·)

/-- A byte in base sixteen, in capital letters. -/
def hexByte (b : UInt8) : String :=
  String.ofList ((hexDigits 2 b.toNat).map Char.toUpper)

/-- The text of an entry. -/
def Listed.text (e : Listed) (indent : String) : String :=
  let name := match e.opcode? with
    | some op => op.name
    | none => "OP_" ++ hexByte e.byte
  let operand := match e.opcode?, e.operand? with
    | some .list, some n => " count=" ++ toString n
    | _, some n => " " ++ toString n
    | _, none => ""
  indent ++ padZeros 4 (toString e.offset) ++ ": " ++ name ++ operand

/-! ## Listing chunks -/

/-- How a constant that is not a chunk is shown: a function of a library by its name, whether
it is a compiled call or was taken from an object. -/
def describeConstant : Value → Except Fault String
  | .callable (.method owner function _ _) => .ok (Callable.call owner function).write
  | v => v.written

mutual
/-- The listing of a chunk; nothing else can be listed. -/
def Value.listing (indent : String) : Value → Except Fault String
  | .chunk code constants => do
    let entries ← match sweep 0 code.toList with
      | some entries => pure entries
      | none => throw .codeEnds
    let constantLines ← listConstants indent 0 constants
    let lines := entries.map (·.text indent) ++ (indent ++ "-- constants --") :: constantLines
    return "\n".intercalate lines
  | v => throw v.notAChunk

/-- The lines for constants, numbered from a place on. -/
def listConstants (indent : String) (place : Nat) : List Value → Except Fault (List String)
  | [] => return []
  | v :: rest => do
    let label := indent ++ "[" ++ toString place ++ "] "
    let lines ← match v with
      | .chunk code constants => do
        let nested ← Value.listing (indent ++ "    ") (.chunk code constants)
        pure [label ++ "<Chunk>", nested]
      | other => do
        let text ← describeConstant other
        pure [label ++ text]
    let more ← listConstants indent (place + 1) rest
    return lines ++ more
end

/-- The listing of a chunk. -/
def Chunk.listing (c : Chunk) (indent : String) : Except Fault String :=
  c.toValue.listing indent

end FormLang
