import FormLang.Chunk.Opcode
import FormLang.Failure
import FormLang.Machine.ValueStack
import FormLang.Number.Bits

set_option autoImplicit false

/-! # The machine

A machine has a stack of values and a stack of frames, one frame for each chunk that is being
run; all frames share the values. Code has no jumps and a chunk can only run the chunks among
its own constants, so the work that a frame has before it is bounded by the code and the
constants alone (`Frame.steps`). Every instruction uses some of it up, which is why each way of
running a machine ends.
-/

namespace FormLang

/-- A chunk that is being run: the place of its next instruction, and how many values there
were below it when it started. -/
structure Frame where
  target : Value
  ip : Nat
  base : Nat

/-- What a run leaves on record: the calls made so far with their arguments, the latest first,
and the next mark for an undefined number. -/
structure Record where
  calls : List (Callable × Value)
  nextMark : Nat

/-- The state of a machine. The frame that is running comes first. -/
structure Machine where
  stack : ValueStack
  frames : List Frame
  record : Record

namespace Machine

/-- A machine that has run nothing, with the next mark for an undefined number. -/
def fresh (nextMark : Nat) : Machine := ⟨.empty, [], ⟨[], nextMark⟩⟩

end Machine

/-! ## Calls -/

/-- Gives a value that is an undefined number without a mark the next free one. -/
def Value.marked (next : Nat) : Value → Value × Nat
  | .number n =>
    let (n, next) := n.marked next
    (.number n, next)
  | v => (v, next)

/-- Makes a call. If it comes to an undefined number, that is a new one, and not the same as any
other. -/
def Record.call (r : Record) (apply : Apply) (target : Callable) (args : Value) :
    Except Failure Value × Record :=
  let calls := (target, args) :: r.calls
  match apply target args with
  | .ok v =>
    let (v, next) := v.marked r.nextMark
    (.ok v, ⟨calls, next⟩)
  | .error f => (.error f, ⟨calls, r.nextMark⟩)

/-! ## Captured code in the place of a chunk

Captured code has a length and parts like machine code, but no constants. A node that a reader
produces is no instruction. A number in the place of a node is one when it equals the
instruction's byte, and integers and truth values can be operands. -/

/-- The instruction that a node counts as. -/
def Node.opcode? : Node → Option Opcode
  | .foreign (.number n) => Opcode.all.find? fun op => n.equals (.int op.byte.toNat)
  | _ => none

/-- The integer that a node counts as in an operand. -/
def Node.operandPart? : Node → Option Int
  | .foreign (.number (.int n)) => some n
  | .foreign (.truth b) => some (if b then 1 else 0)
  | _ => none

/-- A part of an operand at a place of captured code; `misfit` is what is wrong with a part of a
type that is none. -/
def operandPart (misfit : String → String) (code : List Node) (i : Nat) : Except Fault Int :=
  match code[i]? with
  | none => .error .capturedEnds
  | some n =>
    match n.operandPart? with
    | some k => .ok k
    | none => .error (.wrongType (misfit n.typeName))

/-- The operand at a place of captured code. -/
def capturedOperand (code : List Node) (i : Nat) : Except Fault Int := do
  let intName := ValueKind.int.typeName
  let high ← operandPart (fun type => Misfit.unsupported "<<" type intName) code i
  let low ← operandPart (Misfit.unsupported "|" intName) code (i + 1)
  return joinBytes high low

mutual
/-- The name of the type of the first part of a node that can grow. Only nodes without such a part
can be keys of a table. -/
def Node.growing? : Node → Option String
  | .list elements => Node.firstGrowing? elements
  | .form .growable _ => some ValueKind.list.typeName
  | .form .fixed items => Node.firstGrowing? items
  | .foreign value => value.growing?
  | _ => none

/-- The name of the type of the first part of some nodes that can grow. -/
def Node.firstGrowing? : List Node → Option String
  | [] => none
  | n :: rest => n.growing?.or (Node.firstGrowing? rest)

/-- The name of the type of the first part of a value that can grow. -/
def Value.growing? : Value → Option String
  | .list _ => some ValueKind.list.typeName
  | .chunk _ _ => some ValueKind.chunk.typeName
  | .captured code => Node.firstGrowing? code
  | _ => none
end

/-- Why a node is no instruction. -/
def Node.unknownOpcode (n : Node) : Fault :=
  if n.writable then .unknownOpcode n.plain else .writtenDigits

/-! ## The work before a frame -/

mutual
/-- A bound for the number of instructions that running a value takes. -/
def Value.steps : Value → Nat
  | .chunk code constants => code.size * (Value.stepsOfAll constants + 1) + 1
  | .captured code => code.length + 1
  | _ => 1

/-- The sum of the bounds for some values. -/
def Value.stepsOfAll : List Value → Nat
  | [] => 0
  | v :: rest => v.steps + Value.stepsOfAll rest
end

theorem Value.steps_le {v : Value} {vs : List Value} (h : v ∈ vs) :
    v.steps ≤ Value.stepsOfAll vs := by
  induction vs with
  | nil => simp at h
  | cons w rest ih =>
    rw [Value.stepsOfAll]
    rcases List.mem_cons.1 h with rfl | h
    · omega
    · have := ih h
      omega

/-- A bound for the number of instructions that a frame has before it. -/
def Frame.steps (f : Frame) : Nat :=
  match f.target with
  | .chunk code constants => (code.size - f.ip) * (Value.stepsOfAll constants + 1) + 1
  | .captured code => code.length - f.ip + 1
  | _ => 1

/-- The sum of the bounds for some frames. -/
def Frame.stepsOfAll : List Frame → Nat
  | [] => 0
  | f :: below => f.steps + Frame.stepsOfAll below

theorem Frame.steps_pos (f : Frame) : 0 < f.steps := by
  unfold Frame.steps
  split <;> omega

/-- A frame that starts has the work of its chunk before it. -/
theorem Frame.steps_start (v : Value) (base : Nat) : (⟨v, 0, base⟩ : Frame).steps = v.steps := by
  cases v <;> rfl

/-- Passing a byte of the code uses up more than the constants could add together. -/
theorem Frame.steps_advance {code : Array UInt8} {constants : List Value} {ip next base : Nat}
    (hip : ip < code.size) (hnext : ip < next) :
    (⟨.chunk code constants, next, base⟩ : Frame).steps + Value.stepsOfAll constants <
      (⟨.chunk code constants, ip, base⟩ : Frame).steps := by
  have hle : code.size - next + 1 ≤ code.size - ip := by omega
  have := Nat.mul_le_mul_right (Value.stepsOfAll constants + 1) hle
  simp only [Frame.steps]
  rw [Nat.add_mul] at this
  omega

/-- Going on behind an instruction leaves less work. -/
theorem Frame.stepsOfAll_advance {code : Array UInt8} {constants : List Value}
    {ip next base : Nat} {below : List Frame} (hip : ip < code.size) (hnext : ip < next) :
    Frame.stepsOfAll (⟨.chunk code constants, next, base⟩ :: below) <
      Frame.stepsOfAll (⟨.chunk code constants, ip, base⟩ :: below) := by
  have : (⟨.chunk code constants, next, base⟩ : Frame).steps + Value.stepsOfAll constants <
      (⟨.chunk code constants, ip, base⟩ : Frame).steps := Frame.steps_advance hip hnext
  simp only [Frame.stepsOfAll]
  omega

/-- Going on behind a part of captured code leaves less work. -/
theorem Frame.stepsOfAll_advance_captured {code : List Node} {ip next base : Nat}
    {below : List Frame} (hip : ip < code.length) (hnext : ip < next) :
    Frame.stepsOfAll (⟨.captured code, next, base⟩ :: below) <
      Frame.stepsOfAll (⟨.captured code, ip, base⟩ :: below) := by
  simp only [Frame.stepsOfAll, Frame.steps]
  omega

/-- Entering a constant behind an instruction leaves less work. -/
theorem Frame.stepsOfAll_enter {code : Array UInt8} {constants : List Value}
    {ip next base height : Nat} {below : List Frame} {v : Value} (hip : ip < code.size)
    (hnext : ip < next) (hv : v ∈ constants) :
    Frame.stepsOfAll (⟨v, 0, height⟩ :: ⟨.chunk code constants, next, base⟩ :: below) <
      Frame.stepsOfAll (⟨.chunk code constants, ip, base⟩ :: below) := by
  have h : (⟨.chunk code constants, next, base⟩ : Frame).steps + Value.stepsOfAll constants <
      (⟨.chunk code constants, ip, base⟩ : Frame).steps := Frame.steps_advance hip hnext
  have hstart := Frame.steps_start v height
  have hle := Value.steps_le hv
  simp only [Frame.stepsOfAll]
  omega

/-- Leaving a frame leaves less work. -/
theorem Frame.stepsOfAll_leave (f : Frame) (below : List Frame) :
    Frame.stepsOfAll below < Frame.stepsOfAll (f :: below) := by
  have := f.steps_pos
  simp only [Frame.stepsOfAll]
  omega

end FormLang
