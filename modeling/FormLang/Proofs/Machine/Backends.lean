import FormLang.Evaluate
import FormLang.Proofs.Machine.Run
import FormLang.Proofs.Tracked
import Mathlib.Tactic.ByContra

set_option autoImplicit false

/-! # The table and the loop

The two ways of running a chunk, by a table of instructions and in one flat loop, are compared
step by step: what the loop comes to from a state is what it comes to from the next state of the
machine (`Machine.inStep`). Chunks, well formed or not, make no difference anywhere. The
one place where the two part is captured code that is run in the place of a chunk: a part of it
that cannot be looked up in a table, and a call in it without an operand, are *disputed*. There
both fail, each for its own reason.
-/

namespace FormLang

/-! ## Disputed instructions -/

/-- Do the two ways of running disagree about the part at a place of captured code? The table
cannot look up a part that can grow, and it misses the constants of a call or of a chunk to run
before it misses the operand. -/
def disputedAt (code : List Node) (ip : Nat) : Bool :=
  match code[ip]? with
  | none => false
  | some n =>
    match n.opcode? with
    | none => n.growing?.isSome
    | some .call | some .runChunk => !(capturedOperand code (ip + 1)).isOk
    | some _ => false

/-- Is the next instruction of a machine disputed? -/
def Machine.disputed (m : Machine) : Bool :=
  match m.frames with
  | ⟨.captured code, ip, _⟩ :: _ => disputedAt code ip
  | _ => false

/-! ## The loop from a state of the machine -/

/-- What the loop comes to from a state of the machine. -/
def Machine.flat (apply : Apply) (m : Machine) : Except Failure Value × Record :=
  runFrames apply m.stack m.record m.frames

/-- What the loop comes to when the next step of the machine is known. -/
def Step.flat (apply : Apply) : Step → Except Failure Value × Record
  | .next m => m.flat apply
  | .returned v m => (.ok v, m.record)
  | .failed f m => (.error f, m.record)

theorem Opcode.ne_byte_of_ofByte? {b : UInt8} (h : ofByte? b = none) (op : Opcode) :
    b ≠ op.byte := by
  rintro rfl
  rw [ofByte?_byte] at h
  cases h

section

variable {apply : Apply} {s : Site} {stack : ValueStack} {record : Record} {below : List Frame}
  {code : Array UInt8} {constants : List Value} {ip base n : Nat}

theorem withOperand_of_some {act : Nat → Handler} (hn : operandAt? code s.ip = some n) :
    withOperand code act s stack record = act n s stack record := by
  rw [withOperand, hn]

theorem withConstant_of_some {act : Value → Handler} {v : Value}
    (hn : operandAt? code s.ip = some n) (hv : constants[n]? = some v) :
    withConstant code constants act s stack record = act v s stack record := by
  rw [withConstant, withOperand_of_some hn, hv]

theorem withConstant_of_none {act : Value → Handler} (hn : operandAt? code s.ip = some n)
    (hv : constants[n]? = none) :
    withConstant code constants act s stack record = s.fault 2 stack record .listIndex := by
  rw [withConstant, withOperand_of_some hn, hv]

/-- The loop comes to the same from the next state of the machine. -/
def Machine.InStep (apply : Apply) (m : Machine) : Prop :=
  m.flat apply = (m.step apply).flat apply

theorem Machine.InStep.eq {m : Machine} (h : m.InStep apply) :
    m.flat apply = (m.step apply).flat apply := h

/-! ### Instructions of a chunk

The loop and the machine read the byte, the operand and the constant in the same order. So there is
one case for each instruction, and the instructions that need a constant have one in common. -/

theorem Machine.inStep_unknown {b : UInt8} (hb : code[ip]? = some b)
    (hop : Opcode.ofByte? b = none) :
    (⟨stack, ⟨.chunk code constants, ip, base⟩ :: below, record⟩ : Machine).InStep apply := by
  have hne := Opcode.ne_byte_of_ofByte? hop
  rw [InStep, Machine.flat, Machine.step, runFrames]
  dsimp only
  rw [hb]
  dsimp only
  rw [hop, if_neg (hne .ret), if_pos ⟨hne .pushConst, hne .list, hne .call, hne .runChunk⟩]
  rfl

theorem Machine.inStep_ret (hb : code[ip]? = some Opcode.ret.byte) :
    (⟨stack, ⟨.chunk code constants, ip, base⟩ :: below, record⟩ : Machine).InStep apply := by
  rw [InStep, Machine.flat, Machine.step, runFrames]
  dsimp only
  rw [hb]
  dsimp only
  rw [Opcode.ofByte?_byte, if_pos rfl]
  dsimp only
  rw [handler, returnTop]
  cases stack.pop? with
  | none => rfl
  | some p => cases below <;> rfl

theorem Machine.inStep_list (hb : code[ip]? = some Opcode.list.byte) :
    (⟨stack, ⟨.chunk code constants, ip, base⟩ :: below, record⟩ : Machine).InStep apply := by
  rw [InStep, Machine.flat, Machine.step, runFrames]
  dsimp only
  rw [hb]
  dsimp only
  rw [Opcode.ofByte?_byte, if_neg (by decide), if_neg (by decide)]
  dsimp only
  rw [handler, withOperand]
  cases operandAt? code (ip + 1) <;> rfl

/-- Instructions that need a constant, at a place where there is no operand. -/
theorem Machine.inStep_no_operand {op : Opcode} (hret : op ≠ .ret) (hlist : op ≠ .list)
    (hb : code[ip]? = some op.byte) (hn : operandAt? code (ip + 1) = none) :
    (⟨stack, ⟨.chunk code constants, ip, base⟩ :: below, record⟩ : Machine).InStep apply := by
  rw [InStep, Machine.flat, Machine.step, runFrames]
  dsimp only
  rw [hb]
  dsimp only
  rw [Opcode.ofByte?_byte]
  dsimp only
  cases op with
  | ret => exact absurd rfl hret
  | list => exact absurd rfl hlist
  | _ =>
      rw [if_neg (by decide), if_neg (by decide), handler, withConstant, withOperand, hn]
      rfl

theorem Machine.inStep_push (hb : code[ip]? = some Opcode.pushConst.byte)
    (hn : operandAt? code (ip + 1) = some n) :
    (⟨stack, ⟨.chunk code constants, ip, base⟩ :: below, record⟩ : Machine).InStep apply := by
  rw [InStep, Machine.flat, Machine.step, runFrames]
  dsimp only
  rw [hb]
  dsimp only
  rw [Opcode.ofByte?_byte, if_neg (by decide), if_neg (by decide), hn]
  dsimp only
  rw [if_neg (by decide), handler]
  split
  · next hv =>
      rw [withConstant_of_none hn hv]
      rfl
  · next v hv =>
      rw [withConstant_of_some hn hv, if_pos rfl]
      rfl

theorem Machine.inStep_call (hb : code[ip]? = some Opcode.call.byte)
    (hn : operandAt? code (ip + 1) = some n) :
    (⟨stack, ⟨.chunk code constants, ip, base⟩ :: below, record⟩ : Machine).InStep apply := by
  rw [InStep, Machine.flat, Machine.step, runFrames]
  dsimp only
  rw [hb]
  dsimp only
  rw [Opcode.ofByte?_byte, if_neg (by decide), if_neg (by decide), hn]
  dsimp only
  rw [if_neg (by decide), handler]
  split
  · next hv =>
      rw [withConstant_of_none hn hv]
      rfl
  · next v hv =>
      rw [withConstant_of_some hn hv, if_neg (by decide), if_pos rfl, callConst.eq_def]
      cases stack.pop? with
      | none => rfl
      | some p =>
          obtain ⟨args, stack⟩ := p
          cases v with
          | callable target =>
              dsimp only
              obtain ⟨r, record⟩ := record.call apply target args
              cases r <;> rfl
          | _ => rfl

theorem Machine.inStep_enter (hb : code[ip]? = some Opcode.runChunk.byte)
    (hn : operandAt? code (ip + 1) = some n) :
    (⟨stack, ⟨.chunk code constants, ip, base⟩ :: below, record⟩ : Machine).InStep apply := by
  rw [InStep, Machine.flat, Machine.step, runFrames]
  dsimp only
  rw [hb]
  dsimp only
  rw [Opcode.ofByte?_byte, if_neg (by decide), if_neg (by decide), hn]
  dsimp only
  rw [if_neg (by decide), handler]
  split
  · next hv =>
      rw [withConstant_of_none hn hv]
      rfl
  · next v hv =>
      rw [withConstant_of_some hn hv, if_neg (by decide), if_neg (by decide)]
      rfl

/-- In a chunk the loop takes the same steps as the machine, whatever the bytes are. -/
theorem Machine.inStep_chunk :
    (⟨stack, ⟨.chunk code constants, ip, base⟩ :: below, record⟩ : Machine).InStep apply := by
  cases hb : code[ip]? with
  | none =>
      rw [InStep, Machine.flat, Machine.step, runFrames]
      dsimp only
      rw [hb]
      rfl
  | some b =>
      cases hop : Opcode.ofByte? b with
      | none => exact inStep_unknown hb hop
      | some op =>
          obtain rfl := Opcode.byte_of_ofByte? hop
          cases hn : operandAt? code (ip + 1) with
          | none =>
              cases op with
              | ret => exact inStep_ret hb
              | list => exact inStep_list hb
              | _ => exact inStep_no_operand (by simp) (by simp) hb hn
          | some n =>
              cases op with
              | ret => exact inStep_ret hb
              | list => exact inStep_list hb
              | pushConst => exact inStep_push hb hn
              | call => exact inStep_call hb hn
              | runChunk => exact inStep_enter hb hn

/-! ### Captured code -/

theorem Machine.inStep_captured {code : List Node} (h : disputedAt code ip = false) :
    (⟨stack, ⟨.captured code, ip, base⟩ :: below, record⟩ : Machine).InStep apply := by
  rw [InStep, Machine.flat, Machine.step, runFrames]
  rw [disputedAt] at h
  dsimp only
  cases hn : code[ip]? with
  | none => rfl
  | some n =>
      rw [hn] at h
      dsimp only at h ⊢
      cases hop : n.opcode? with
      | none =>
          rw [hop] at h
          -- A part that can be looked up is missing in the table, and unknown to the loop.
          have hfixed : n.growing? = none := by simpa using h
          dsimp only
          rw [Node.noHandler, hfixed]
          rfl
      | some op =>
          rw [hop] at h
          cases op with
          | ret =>
              dsimp only [capturedHandler]
              rw [returnTop]
              cases stack.pop? with
              | none => rfl
              | some p => cases below <;> rfl
          | list =>
              dsimp only [capturedHandler, withCapturedOperand]
              cases capturedOperand code (ip + 1) <;> rfl
          | pushConst =>
              dsimp only [capturedHandler, withCapturedOperand]
              cases capturedOperand code (ip + 1) <;> rfl
          | call =>
              cases hk : capturedOperand code (ip + 1) with
              | error f => simp [hk, Except.isOk, Except.toBool] at h
              | ok k => rfl
          | runChunk =>
              cases hk : capturedOperand code (ip + 1) with
              | error f => simp [hk, Except.isOk, Except.toBool] at h
              | ok k => rfl

/-- What the loop comes to from a state is what it comes to from the machine's next state. -/
theorem Machine.inStep {m : Machine} (h : m.disputed = false) : m.InStep apply := by
  obtain ⟨stack, frames, record⟩ := m
  cases frames with
  | nil =>
      rw [InStep, Machine.flat, Machine.step, runFrames]
      rfl
  | cons f below =>
      obtain ⟨target, ip, base⟩ := f
      cases target with
      | chunk code constants => exact inStep_chunk
      | captured code => exact inStep_captured h
      | _ => rw [InStep, Machine.flat, Machine.step, runFrames] <;> simp <;> rfl

end

/-! ## What is said about a disputed instruction -/

/-- A part of an operand can be missing or of a wrong type; captured code lacks something else. -/
theorem ensures_operandPart (misfit : String → String) (code : List Node) (i : Nat) :
    Ensures (· ≠ (Value.captured code).notAChunk) (fun _ => True) (operandPart misfit code i) := by
  rw [operandPart.eq_def]
  split
  · exact Ensures.throw (by simp [Value.notAChunk])
  · split
    · trivial
    · exact Ensures.throw (by simp [Value.notAChunk])

theorem ensures_capturedOperand (code : List Node) (i : Nat) :
    Ensures (· ≠ (Value.captured code).notAChunk) (fun _ => True) (capturedOperand code i) := by
  rw [capturedOperand]
  refine (ensures_operandPart _ code i).bind fun high _ => ?_
  exact (ensures_operandPart _ code (i + 1)).bind fun low _ => trivial

/-- A part that is no instruction is not refused for its type. -/
theorem Node.unknownOpcode_ne_wrongType (n : Node) (text : String) :
    n.unknownOpcode ≠ .wrongType text := by
  rw [Node.unknownOpcode]
  split <;> simp

/-- At a disputed instruction both ways of running fail, for different reasons. -/
theorem Machine.flat_of_disputed {m : Machine} (apply : Apply) (h : m.disputed = true) :
    ∃ f g left, m.step apply = .failed f left ∧ m.flat apply = (.error g, left.record) ∧
      g ≠ f := by
  obtain ⟨stack, frames, record⟩ := m
  rw [Machine.disputed.eq_def] at h
  split at h
  · next code ip base below hframes =>
      obtain rfl : frames = ⟨.captured code, ip, base⟩ :: below := hframes
      rw [disputedAt] at h
      rw [Machine.flat, Machine.step, runFrames]
      dsimp only
      cases hn : code[ip]? with
      | none => simp [hn] at h
      | some n =>
          rw [hn] at h
          dsimp only at h ⊢
          cases hop : n.opcode? with
          | none =>
              rw [hop] at h
              obtain ⟨type, htype⟩ := Option.isSome_iff_exists.1 h
              -- The table cannot look the part up; the loop finds that it is no instruction.
              refine ⟨.fault (.wrongType (Misfit.unhashable type)), .fault n.unknownOpcode,
                ⟨stack, ⟨.captured code, ip + 1, base⟩ :: below, record⟩, ?_, rfl, ?_⟩
              · dsimp only
                rw [Node.noHandler, htype]
                rfl
              · simpa using n.unknownOpcode_ne_wrongType _
          | some op =>
              rw [hop] at h
              cases hk : capturedOperand code (ip + 1) with
              | ok k => cases op <;> simp [hk, Except.isOk, Except.toBool] at h
              | error f =>
                  -- The table misses the constants, the loop the operand.
                  have hne := ensures_capturedOperand code (ip + 1)
                  rw [hk] at hne
                  cases op with
                  | call => exact ⟨_, .fault f, _, rfl, rfl, fun h => hne (Failure.fault.inj h)⟩
                  | runChunk => exact ⟨_, .fault f, _, rfl, rfl, fun h => hne (Failure.fault.inj h)⟩
                  | _ => simp at h
  · cases h

/-! ## Whole runs -/

namespace Machine

variable {apply : Apply} {m m' : Machine}

theorem disputed_of_next (h : m.step apply = .next m') : m.disputed = false := by
  by_contra hd
  obtain ⟨f, g, left, hfailed, -⟩ := flat_of_disputed apply (by simpa using hd)
  rw [h] at hfailed
  cases hfailed

/-- Along a run the loop comes to the same. -/
theorem flat_of_leads (h : m.Leads apply m') : m.flat apply = m'.flat apply := by
  induction h with
  | refl => rfl
  | tail _ hstep ih =>
      rw [ih, (inStep (disputed_of_next hstep)).eq, hstep]
      rfl

/-- The loop and the table come to the same, with the same record, when the last instruction of
the run is not disputed. -/
theorem flat_eq_resume_of_last (hleads : m.Leads apply m') (hd : m'.disputed = false)
    (hlast : ∀ next, m'.step apply ≠ .next next) :
    m.flat apply = ((m.resume apply).1, (m.resume apply).2.record) := by
  rw [flat_of_leads hleads, resume_of_leads hleads, (inStep hd).eq]
  cases hstep : m'.step apply with
  | next next => exact absurd hstep (hlast next)
  | returned v left => rw [resume_of_returned hstep]; rfl
  | failed f left => rw [resume_of_failed hstep]; rfl

/-- A fresh machine that is about to run a value. -/
def start (nextMark : Nat) (unit : Value) : Machine := ⟨.empty, [⟨unit, 0, 0⟩], ⟨[], nextMark⟩⟩

end Machine

section

variable (apply : Apply) (nextMark : Nat) (unit : Value)

end

end FormLang
