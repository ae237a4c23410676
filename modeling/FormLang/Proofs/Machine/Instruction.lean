import FormLang.Chunk.Opcode
import FormLang.Node

set_option autoImplicit false

/-! # Code as a row of instructions

Machine code is a row of bytes; here it is read as a row of instructions with their operands
(`assemble`). A chunk is *well-formed* when its code is such a row with one return at its end,
when every operand names a constant of the right kind, and when no instruction takes more
values than the ones before it have left (`heightAfter`). The chunks that it runs have to be
well-formed themselves.
-/

namespace FormLang

/-- An instruction with its operand; the return is apart, as it ends the code. -/
inductive Instr where
  /-- Pushes the constant at a place. -/
  | push (place : Nat)
  /-- Gathers some values into a list. -/
  | gather (count : Nat)
  /-- Calls the constant at a place. -/
  | call (place : Nat)
  /-- Runs the chunk at a place among the constants. -/
  | enter (place : Nat)
  deriving DecidableEq, Repr

namespace Instr

def opcode : Instr → Opcode
  | .push _ => .pushConst
  | .gather _ => .list
  | .call _ => .call
  | .enter _ => .runChunk

def operand : Instr → Nat
  | .push place => place
  | .gather count => count
  | .call place => place
  | .enter place => place

/-- The place of the constant that the instruction names. -/
def place? : Instr → Option Nat
  | .push place => some place
  | .gather _ => none
  | .call place => some place
  | .enter place => some place

/-- The instruction in machine code, its operand with the high byte first. -/
def bytes (i : Instr) : List UInt8 :=
  [i.opcode.byte, UInt8.ofNat (i.operand / 256), UInt8.ofNat (i.operand % 256)]

/-- How many values there are behind the instruction; `none` if it takes more than there are. -/
def height : Instr → Nat → Option Nat
  | .push _, h => some (h + 1)
  | .gather count, h => if count ≤ h then some (h - count + 1) else none
  | .call _, h => if 1 ≤ h then some h else none
  | .enter _, h => some (h + 1)

/-- Does the operand fit into two bytes and name a constant of the right kind? What may be pushed
is up to the caller. -/
def Fits (pushable : Value → Prop) (constants : List Value) (i : Instr) : Prop :=
  i.operand ≤ 0xFFFF ∧
    match i with
    | .push place => ∃ v, constants[place]? = some v ∧ pushable v
    | .gather _ => True
    | .call place => ∃ f, constants[place]? = some (.callable f)
    | .enter place => ∃ v, constants[place]? = some v

end Instr

/-! ## Rows of instructions -/

/-- The machine code of some instructions. -/
def assemble (is : List Instr) : List UInt8 := is.flatMap Instr.bytes

@[simp] theorem assemble_nil : assemble [] = [] := rfl

@[simp] theorem assemble_cons (i : Instr) (is : List Instr) :
    assemble (i :: is) = i.bytes ++ assemble is := rfl

@[simp] theorem assemble_append (is js : List Instr) :
    assemble (is ++ js) = assemble is ++ assemble js := List.flatMap_append

theorem length_assemble (is : List Instr) : (assemble is).length = 3 * is.length := by
  induction is with
  | nil => rfl
  | cons i is ih =>
      rw [assemble_cons, List.length_append, ih, List.length_cons]
      simp only [Instr.bytes, List.length_cons, List.length_nil]
      omega

theorem Instr.eq_of_bytes {i j : Instr} (hi : i.operand ≤ 0xFFFF) (hj : j.operand ≤ 0xFFFF)
    (h : i.bytes = j.bytes) : i = j := by
  simp only [bytes, List.cons.injEq, and_true] at h
  obtain ⟨hop, hhigh, hlow⟩ := h
  have hopcode : i.opcode = j.opcode := by
    have hbyte := congrArg Opcode.ofByte? hop
    simpa [Opcode.ofByte?_byte] using hbyte
  have hoperand : i.operand = j.operand := by
    have hhigh := congrArg UInt8.toNat hhigh
    have hlow := congrArg UInt8.toNat hlow
    simp only [UInt8.toNat_ofNat'] at hhigh hlow
    omega
  cases i <;> cases j <;> simp_all [opcode, operand]

/-- Code can be read as instructions in one way only. -/
theorem assemble_injective {is js : List Instr} (hi : ∀ i ∈ is, i.operand ≤ 0xFFFF)
    (hj : ∀ j ∈ js, j.operand ≤ 0xFFFF) (h : assemble is = assemble js) : is = js := by
  induction is generalizing js with
  | nil =>
      cases js with
      | nil => rfl
      | cons j js => cases h
  | cons i is ih =>
      cases js with
      | nil => cases h
      | cons j js =>
          -- All instructions are three bytes long, so the first ones can be cut off.
          obtain ⟨hbytes, hrest⟩ := List.append_inj h rfl
          obtain rfl := Instr.eq_of_bytes (hi i (by simp)) (hj j (by simp)) hbytes
          rw [ih (fun k hk => hi k (by simp [hk])) (fun k hk => hj k (by simp [hk])) hrest]

/-- How many values there are behind some instructions, from so many on; `none` if one of them
takes more than there are. -/
def heightAfter : List Instr → Nat → Option Nat
  | [], h => some h
  | i :: is, h => (i.height h).bind (heightAfter is)

theorem heightAfter_append (is js : List Instr) (h : Nat) :
    heightAfter (is ++ js) h = (heightAfter is h).bind (heightAfter js) := by
  induction is generalizing h with
  | nil => rfl
  | cons i is ih =>
      cases hi : i.height h with
      | none => simp [heightAfter, hi]
      | some h' => simp [heightAfter, hi, ih]

/-! ## Reading an instruction back -/

section

variable {code : Array UInt8} {after : List UInt8} {ip : Nat} (before : List UInt8)

/-- The byte behind a part of the code. -/
theorem byte_at {b : UInt8} (hcode : code.toList = before ++ b :: after)
    (hip : ip = before.length) : code[ip]? = some b := by
  rw [← Array.getElem?_toList, hcode, hip]
  simp

theorem operand_at {i : Instr} (hcode : code.toList = before ++ i.bytes ++ after)
    (hip : ip = before.length) (hfits : i.operand ≤ 0xFFFF) :
    operandAt? code (ip + 1) = some i.operand := by
  have hhigh : code[ip + 1]? = some (UInt8.ofNat (i.operand / 256)) :=
    byte_at (before ++ [i.opcode.byte]) (by simpa [Instr.bytes] using hcode)
      (by simp [hip])
  have hlow : code[ip + 1 + 1]? = some (UInt8.ofNat (i.operand % 256)) :=
    byte_at (before ++ [i.opcode.byte, UInt8.ofNat (i.operand / 256)])
      (by simpa [Instr.bytes] using hcode) (by simp [hip])
  simp only [operandAt?, hhigh, hlow, UInt8.toNat_ofNat', Option.some.injEq]
  -- Two bytes are enough for an operand that fits.
  omega

end

/-! ## Well-formed chunks -/

/-- The code is a row of instructions with a return behind it, they fit the constants, and they
leave one value. Constants that are pushed as they are have to be `pushable`. -/
structure Assembles (pushable : Value → Prop) (is : List Instr) (code : Array UInt8)
    (constants : List Value) : Prop where
  code_eq : code.toList = assemble is ++ [Opcode.ret.byte]
  fits : ∀ i ∈ is, i.Fits pushable constants
  height : heightAfter is 0 = some 1

theorem Assembles.unique {p q : Value → Prop} {is js : List Instr} {code : Array UInt8}
    {constants others : List Value} (h : Assembles p is code constants)
    (h' : Assembles q js code others) : is = js := by
  have hcode : assemble is ++ [Opcode.ret.byte] = assemble js ++ [Opcode.ret.byte] :=
    h.code_eq.symm.trans h'.code_eq
  exact assemble_injective (fun i hi => (h.fits i hi).1) (fun j hj => (h'.fits j hj).1)
    (List.append_cancel_right hcode)

/-- A chunk that a machine can run without tripping over the code, at any depth. -/
inductive Value.WellFormed (pushable : Value → Prop) : Value → Prop where
  | chunk {code : Array UInt8} {constants : List Value} (is : List Instr)
      (h : Assembles pushable is code constants)
      (hnested : ∀ place v, .enter place ∈ is → constants[place]? = some v →
        v.WellFormed pushable) :
      Value.WellFormed pushable (.chunk code constants)

end FormLang
