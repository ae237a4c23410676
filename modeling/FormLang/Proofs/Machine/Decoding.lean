import FormLang.Proofs.Chunk.Sweeping
import FormLang.Proofs.Machine.Ending

set_option autoImplicit false

/-! # What runs is what is listed

A machine follows the code of a chunk, and a listing sweeps it from the first byte to the last. Both
find the same instructions: a frame starts where a line does, and each pass of a loop, whatever it
comes to, leaves all frames where a line starts or at the end of the code (`Backend.inLine_pass`). So
in any state that a machine can get into, what it reads next stands on a line (`listing_decodes`).
-/

namespace FormLang

/-! ## Places where a line starts -/

/-- What is read at a place of the code: the byte, the instruction that it stands for and, if that
needs one, the operand. -/
def readAt? (code : Array UInt8) (ip : Nat) : Option Listed :=
  code[ip]?.map fun b =>
    ⟨ip, b, Opcode.ofByte? b, if Listed.needsOperand b then operandAt? code (ip + 1) else none⟩

/-- If the code can be listed, the last lines of the listing tile it from the place on. -/
def LineAt (code : Array UInt8) (ip : Nat) : Prop :=
  ∀ entries, sweep 0 code.toList = some entries →
    ∃ later, Tiles ip (code.toList.drop ip) later ∧ later <:+ entries

/-- If the frame runs a chunk, it stands where a line starts. -/
def Frame.InLine (f : Frame) : Prop :=
  ∀ code constants, f.target = .chunk code constants → LineAt code f.ip

section

variable {code : Array UInt8} {constants : List Value} {ip base n : Nat} {b : UInt8}
  {entries : List Listed} {below frames : List Frame}

theorem lineAt_zero (code : Array UInt8) : LineAt code 0 := fun entries h =>
  ⟨entries, sweep_eq_some_iff.1 h, List.suffix_rfl⟩

theorem drop_of_getElem? (hb : code[ip]? = some b) :
    code.toList.drop ip = b :: code.toList.drop (ip + 1) := by
  rw [← Array.getElem?_toList] at hb
  exact (List.drop_eq_getElem?_toList_append.trans (by rw [hb]; rfl))

theorem operandAt?_of_drop {high low : UInt8} {more : List UInt8}
    (h : code.toList.drop ip = b :: high :: low :: more) :
    operandAt? code (ip + 1) = some (high.toNat * 256 + low.toNat) := by
  have hhigh : code[ip + 1]? = some high := by
    rw [← Array.getElem?_toList, ← List.getElem?_drop, h]
    rfl
  have hlow : code[ip + 1 + 1]? = some low := by
    rw [Nat.add_assoc, ← Array.getElem?_toList, ← List.getElem?_drop, h]
    rfl
  rw [operandAt?, hhigh, hlow]

/-- Where a line starts, the entry of the line is what is read, and another line starts behind it. -/
theorem LineAt.reads (h : LineAt code ip) (hsweep : sweep 0 code.toList = some entries)
    (hb : code[ip]? = some b) :
    ∃ e ∈ entries, readAt? code ip = some e ∧ e.Sound ∧ LineAt code (ip + e.bytes.length) := by
  obtain ⟨later, htiles, hsuffix⟩ := h entries hsweep
  generalize hbytes : code.toList.drop ip = bytes at htiles
  cases htiles with
  | nil =>
      rw [drop_of_getElem? hb] at hbytes
      cases hbytes
  | cons hsound hrest =>
      rename_i e bs es
      have hbyte : e.byte = b := by
        rw [drop_of_getElem? hb] at hbytes
        exact (List.cons.inj hbytes).1.symm
      refine ⟨e, hsuffix.subset (by simp), ?_, hsound, fun others hothers => ?_⟩
      · obtain ⟨ip, b, opcode?, operand?⟩ := e
        obtain rfl : b = _ := hbyte
        dsimp only at hb hbytes ⊢
        obtain rfl : opcode? = Opcode.ofByte? b := hsound.opcode_eq
        have hneeds : operand?.isSome = Listed.needsOperand b := hsound.operand
        rw [readAt?, hb, Option.map_some, ← hneeds]
        cases operand? with
        | none => rfl
        | some n =>
            have hn := hsound.fits n rfl
            have hvalue : (UInt8.ofNat (n / 256)).toNat * 256 + (UInt8.ofNat (n % 256)).toNat = n := by
              simp only [UInt8.toNat_ofNat']
              omega
            rw [operandAt?_of_drop hbytes, hvalue]
            rfl
      · rw [hsweep] at hothers
        obtain rfl := Option.some.inj hothers
        refine ⟨es, ?_, (List.suffix_cons e es).trans hsuffix⟩
        have hdrop : code.toList.drop (e.offset + e.bytes.length) = bs := by
          rw [← List.drop_drop, hbytes, List.drop_left]
        rw [hdrop]
        exact hrest

theorem bytes_length_of_readAt? {e : Listed} (h : readAt? code ip = some e)
    (hb : code[ip]? = some b) :
    e.bytes.length = if (Listed.needsOperand b && (operandAt? code (ip + 1)).isSome) then 3 else 1 := by
  rw [readAt?, hb, Option.map_some] at h
  obtain rfl := Option.some.inj h
  rw [Listed.bytes]
  cases Listed.needsOperand b with
  | false => rfl
  | true => cases operandAt? code (ip + 1) <;> rfl

/-- Behind a byte without an operand another line starts. -/
theorem LineAt.behind_byte (h : LineAt code ip) (hb : code[ip]? = some b)
    (hneeds : Listed.needsOperand b = false) : LineAt code (ip + 1) := by
  intro entries hsweep
  obtain ⟨e, -, hread, -, hnext⟩ := h.reads hsweep hb
  rw [bytes_length_of_readAt? hread hb, hneeds] at hnext
  exact hnext entries hsweep

/-- Behind an operand another line starts. -/
theorem LineAt.behind_operand (h : LineAt code ip) (hb : code[ip]? = some b)
    (hneeds : Listed.needsOperand b = true) (hn : operandAt? code (ip + 1) = some n) :
    LineAt code (ip + 3) := by
  intro entries hsweep
  obtain ⟨e, -, hread, -, hnext⟩ := h.reads hsweep hb
  rw [bytes_length_of_readAt? hread hb, hneeds, hn] at hnext
  exact hnext entries hsweep

/-- If a line starts where the operand is missing, the code cannot be listed. -/
theorem LineAt.of_missing (h : LineAt code ip) (hb : code[ip]? = some b)
    (hneeds : Listed.needsOperand b = true) (hn : operandAt? code (ip + 1) = none) (place : Nat) :
    LineAt code place := by
  intro entries hsweep
  obtain ⟨e, -, hread, hsound, -⟩ := h.reads hsweep hb
  rw [readAt?, hb, Option.map_some, if_pos hneeds, hn] at hread
  obtain rfl := Option.some.inj hread
  have hsome : (none : Option Nat).isSome = Listed.needsOperand b := hsound.operand
  rw [hneeds] at hsome
  cases hsome

/-! ## What a pass does to the frames -/

/-- The frames after a pass over a chunk: the frame stays at its place, goes on behind the byte or
behind the operand, enters something there, or is left. -/
inductive Advances (code : Array UInt8) (constants : List Value) (ip base : Nat)
    (below : List Frame) : List Frame → Prop where
  | stays : Advances code constants ip base below (⟨.chunk code constants, ip, base⟩ :: below)
  | behindByte {b : UInt8} (hb : code[ip]? = some b) (hneeds : Listed.needsOperand b = false) :
      Advances code constants ip base below (⟨.chunk code constants, ip + 1, base⟩ :: below)
  | missing {b : UInt8} (hb : code[ip]? = some b) (hneeds : Listed.needsOperand b = true)
      (hn : operandAt? code (ip + 1) = none) :
      Advances code constants ip base below (⟨.chunk code constants, ip + 1, base⟩ :: below)
  | behindOperand {b : UInt8} {n : Nat} (hb : code[ip]? = some b)
      (hneeds : Listed.needsOperand b = true) (hn : operandAt? code (ip + 1) = some n) :
      Advances code constants ip base below (⟨.chunk code constants, ip + 3, base⟩ :: below)
  | enters {b : UInt8} {n : Nat} (v : Value) (height : Nat) (hb : code[ip]? = some b)
      (hneeds : Listed.needsOperand b = true) (hn : operandAt? code (ip + 1) = some n) :
      Advances code constants ip base below
        (⟨v, 0, height⟩ :: ⟨.chunk code constants, ip + 3, base⟩ :: below)
  | leaves : Advances code constants ip base below below

theorem Frame.inLine_chunk (h : LineAt code ip) (base : Nat) :
    (⟨.chunk code constants, ip, base⟩ : Frame).InLine := by
  intro code' constants' htarget
  cases htarget
  exact h

theorem Frame.inLine_start (v : Value) (height : Nat) : (⟨v, 0, height⟩ : Frame).InLine :=
  fun code _ _ => lineAt_zero code

/-- However a pass goes on, all frames are where a line starts if they were before. -/
theorem Advances.inLine (h : Advances code constants ip base below frames)
    (hline : ∀ f ∈ (⟨.chunk code constants, ip, base⟩ :: below : List Frame), f.InLine) :
    ∀ f ∈ frames, f.InLine := by
  obtain ⟨htop, hbelow⟩ := List.forall_mem_cons.1 hline
  have hat : LineAt code ip := htop code constants rfl
  cases h with
  | stays => exact hline
  | behindByte hb hneeds =>
      exact List.forall_mem_cons.2 ⟨Frame.inLine_chunk (hat.behind_byte hb hneeds) base, hbelow⟩
  | missing hb hneeds hn =>
      exact List.forall_mem_cons.2 ⟨Frame.inLine_chunk (hat.of_missing hb hneeds hn _) base, hbelow⟩
  | behindOperand hb hneeds hn =>
      exact List.forall_mem_cons.2
        ⟨Frame.inLine_chunk (hat.behind_operand hb hneeds hn) base, hbelow⟩
  | enters v height hb hneeds hn =>
      exact List.forall_mem_cons.2 ⟨Frame.inLine_start v height, List.forall_mem_cons.2
        ⟨Frame.inLine_chunk (hat.behind_operand hb hneeds hn) base, hbelow⟩⟩
  | leaves => exact hbelow

end

/-- The state that a step leaves. -/
def Step.machine : Step → Machine
  | .next m => m
  | .returned _ m => m
  | .failed _ m => m

section

variable {apply : Apply} {code : Array UInt8} {constants : List Value} {ip base : Nat} {b : UInt8}
  {below : List Frame} {stack : ValueStack} {record : Record} {m : Machine}

/-! ### The table -/

/-- An instruction that needs its operand, if it goes on behind it or enters something there. -/
theorem advances_withOperand {act : Nat → Handler} (hb : code[ip]? = some b)
    (hneeds : Listed.needsOperand b = true)
    (hact : ∀ n, operandAt? code (ip + 1) = some n →
      Advances code constants ip base below
        (act n ⟨.chunk code constants, base, ip + 1, below⟩ stack record).machine.frames) :
    Advances code constants ip base below
      (withOperand code act ⟨.chunk code constants, base, ip + 1, below⟩ stack
        record).machine.frames := by
  rw [withOperand]
  dsimp only
  cases hn : operandAt? code (ip + 1) with
  | none => exact .missing hb hneeds hn
  | some n => exact hact n hn

theorem advances_withConstant {act : Value → Handler} (hb : code[ip]? = some b)
    (hneeds : Listed.needsOperand b = true)
    (hact : ∀ n, operandAt? code (ip + 1) = some n → ∀ v,
      Advances code constants ip base below
        (act v ⟨.chunk code constants, base, ip + 1, below⟩ stack record).machine.frames) :
    Advances code constants ip base below
      (withConstant code constants act ⟨.chunk code constants, base, ip + 1, below⟩ stack
        record).machine.frames := by
  refine advances_withOperand hb hneeds fun n hn => ?_
  cases constants[n]? with
  | none => exact .behindOperand hb hneeds hn
  | some v => exact hact n hn v

theorem advances_handler {op : Opcode} (hb : code[ip]? = some op.byte) :
    Advances code constants ip base below
      (handler apply code constants op ⟨.chunk code constants, base, ip + 1, below⟩ stack
        record).machine.frames := by
  have hneeds : Listed.needsOperand op.byte = op.hasOperand := by
    rw [Listed.needsOperand, Opcode.ofByte?_byte]
    rfl
  cases op with
  | pushConst => exact advances_withConstant hb hneeds fun n hn v => .behindOperand hb hneeds hn
  | list => exact advances_withOperand hb hneeds fun n hn => .behindOperand hb hneeds hn
  | runChunk => exact advances_withConstant hb hneeds fun n hn v => .enters v _ hb hneeds hn
  | call =>
      refine advances_withConstant hb hneeds fun n hn v => ?_
      rw [callConst.eq_def]
      split
      · exact .behindOperand hb hneeds hn
      · split
        · exact .behindOperand hb hneeds hn
        · exact .behindOperand hb hneeds hn
      · exact .behindOperand hb hneeds hn
  | ret =>
      rw [handler, returnTop]
      dsimp only
      cases stack.pop? with
      | none => exact .behindByte hb hneeds
      | some p => cases below <;> exact .leaves

theorem advances_step :
    Advances code constants ip base below
      ((⟨stack, ⟨.chunk code constants, ip, base⟩ :: below, record⟩ : Machine).step
        apply).machine.frames := by
  rw [Machine.step]
  dsimp only
  cases hb : code[ip]? with
  | none => exact .stays
  | some b =>
      dsimp only
      cases hop : Opcode.ofByte? b with
      | none =>
          refine .behindByte hb ?_
          rw [Listed.needsOperand, hop]
          rfl
      | some op =>
          obtain rfl := Opcode.byte_of_ofByte? hop
          exact advances_handler hb

/-! ### The flat loop -/

theorem needsOperand_of_known (h : ¬(b ≠ Opcode.pushConst.byte ∧ b ≠ Opcode.list.byte ∧
    b ≠ Opcode.call.byte ∧ b ≠ Opcode.runChunk.byte)) : Listed.needsOperand b = true := by
  simp only [not_and_or, not_not] at h
  rcases h with rfl | rfl | rfl | rfl <;> rfl

theorem advances_passChunk (hframes : m.frames = ⟨.chunk code constants, ip, base⟩ :: below) :
    Advances code constants ip base below
      (m.passChunk apply code constants ip base below).machine.frames := by
  have hstays : Advances code constants ip base below m.frames := hframes ▸ .stays
  rw [Machine.passChunk]
  cases hb : code[ip]? with
  | none => exact hstays
  | some b =>
      dsimp only
      split
      · rw [Machine.passReturn.eq_def]
        split
        · exact hstays
        · split
          · exact hstays
          · exact .leaves
      split
      · exact hstays
      next hknown =>
      have hneeds : Listed.needsOperand b = true := needsOperand_of_known hknown
      cases hn : operandAt? code (ip + 1) with
      | none => exact hstays
      | some n =>
          dsimp only
          split
          · exact .behindOperand hb hneeds hn
          split
          · exact hstays
          rw [Machine.passConstant.eq_def]
          split
          · exact .behindOperand hb hneeds hn
          split
          · split
            · exact hstays
            · split
              · split
                · exact .behindOperand hb hneeds hn
                · exact .behindOperand hb hneeds hn
              · exact hstays
          · exact .enters _ _ hb hneeds hn

/-! ### Captured code -/

/-- The frames after a pass over captured code, which has no lines: it goes on or is left. -/
def StaysInside (code : List Node) (base : Nat) (below frames : List Frame) : Prop :=
  frames = below ∨ ∃ ip, frames = ⟨.captured code, ip, base⟩ :: below

theorem staysInside_capturedHandler {code : List Node} {op : Opcode} :
    StaysInside code base below (capturedHandler code op ⟨.captured code, base, ip + 1, below⟩ stack
      record).machine.frames := by
  cases op with
  | call => exact .inr ⟨_, rfl⟩
  | runChunk => exact .inr ⟨_, rfl⟩
  | pushConst =>
      rw [capturedHandler, withCapturedOperand]
      cases capturedOperand code (ip + 1) <;> exact .inr ⟨_, rfl⟩
  | list =>
      rw [capturedHandler, withCapturedOperand]
      cases capturedOperand code (ip + 1) <;> exact .inr ⟨_, rfl⟩
  | ret =>
      rw [capturedHandler, returnTop]
      cases stack.pop? with
      | none => exact .inr ⟨_, rfl⟩
      | some p => cases below <;> exact .inl rfl

theorem staysInside_passCaptured {code : List Node}
    (hframes : m.frames = ⟨.captured code, ip, base⟩ :: below) :
    StaysInside code base below (m.passCaptured code ip base below).machine.frames := by
  have hstays : StaysInside code base below m.frames := .inr ⟨ip, hframes⟩
  rw [Machine.passCaptured.eq_def]
  split
  · exact hstays
  · split
    · rw [Machine.passReturn.eq_def]
      split
      · exact hstays
      · split
        · exact hstays
        · exact .inl rfl
    · split
      · exact hstays
      · split
        · exact .inr ⟨_, rfl⟩
        · exact hstays
    · exact hstays

theorem StaysInside.inLine {code : List Node} {frames : List Frame}
    (h : StaysInside code base below frames) (hbelow : ∀ f ∈ below, f.InLine) :
    ∀ f ∈ frames, f.InLine := by
  rcases h with rfl | ⟨ip, rfl⟩
  · exact hbelow
  · exact List.forall_mem_cons.2 ⟨fun _ _ h => (nomatch h), hbelow⟩

end

/-! ## Executing an entry -/

namespace Listed

/-- Acts on the operand of an entry. -/
def onOperand (e : Listed) (act : Nat → Handler) : Handler := fun s stack record =>
  match e.operand? with
  | some n => act n s stack record
  | none => s.fault 0 stack record .codeEnds

/-- Acts on the constant that the operand of an entry names. -/
def onConstant (e : Listed) (constants : List Value) (act : Value → Handler) : Handler :=
  e.onOperand fun n s stack record =>
    match constants[n]? with
    | some v => act v s stack record
    | none => s.fault 2 stack record .listIndex

/-- Executes an entry, which is all that is known of the code. -/
def execute (apply : Apply) (constants : List Value) (e : Listed) : Handler :=
  match e.opcode? with
  | some .pushConst => e.onConstant constants pushConst
  | some .list => e.onOperand fun n => gatherList n
  | some .call => e.onConstant constants (callConst apply)
  | some .runChunk => e.onConstant constants runChunk
  | some .ret => returnTop
  | none => fun s stack record => s.fault 0 stack record (.unknownOpcode (toString e.byte))

theorem withOperand_eq {e : Listed} {code : Array UInt8} {s : Site}
    (h : operandAt? code s.ip = e.operand?) (act : Nat → Handler) (stack : ValueStack)
    (record : Record) : withOperand code act s stack record = e.onOperand act s stack record := by
  obtain ⟨offset, b, opcode?, operand?⟩ := e
  obtain rfl : operandAt? code s.ip = operand? := h
  rfl

theorem withConstant_eq {e : Listed} {code : Array UInt8} {s : Site}
    (h : operandAt? code s.ip = e.operand?) (constants : List Value) (act : Value → Handler)
    (stack : ValueStack) (record : Record) :
    withConstant code constants act s stack record = e.onConstant constants act s stack record :=
  withOperand_eq h _ stack record

end Listed

section

variable {apply : Apply} {code : Array UInt8} {constants : List Value} {ip base : Nat} {e : Listed}
  {below : List Frame} {stack : ValueStack} {record : Record}

theorem offset_of_readAt? (h : readAt? code ip = some e) : e.offset = ip := by
  obtain ⟨b, hb, rfl⟩ := Option.map_eq_some_iff.1 h
  rfl

/-- In front of a chunk the next step is the execution of what is read. -/
theorem step_eq_execute (h : readAt? code ip = some e) :
    (⟨stack, ⟨.chunk code constants, ip, base⟩ :: below, record⟩ : Machine).step apply =
      e.execute apply constants ⟨.chunk code constants, base, ip + 1, below⟩ stack record := by
  obtain ⟨b, hb, rfl⟩ := Option.map_eq_some_iff.1 h
  rw [Machine.step, Listed.execute]
  dsimp only
  rw [hb]
  dsimp only
  cases hop : Opcode.ofByte? b with
  | none => rfl
  | some op =>
      have hneeds : Listed.needsOperand b = op.hasOperand := by
        rw [Listed.needsOperand, hop]
        rfl
      have hoperand : op.hasOperand = true → operandAt? code (ip + 1) =
          if Listed.needsOperand b then operandAt? code (ip + 1) else none :=
        fun hop => (if_pos (hneeds.trans hop)).symm
      dsimp only
      cases op with
      | ret => rfl
      | list => exact Listed.withOperand_eq (hoperand rfl) _ stack record
      | pushConst => exact Listed.withConstant_eq (hoperand rfl) constants _ stack record
      | call => exact Listed.withConstant_eq (hoperand rfl) constants _ stack record
      | runChunk => exact Listed.withConstant_eq (hoperand rfl) constants _ stack record

end

/-! ## Every state of a run -/

namespace Backend

variable {b : Backend} {apply : Apply} {m : Machine}

/-- A pass, whatever it comes to, leaves all frames where a line starts. -/
theorem inLine_pass (h : ∀ f ∈ m.frames, f.InLine) :
    ∀ f ∈ (b.pass apply m).machine.frames, f.InLine := by
  obtain ⟨stack, frames, record⟩ := m
  cases frames with
  | nil => cases b <;> exact h
  | cons f below =>
      obtain ⟨target, ip, base⟩ := f
      have hbelow := (List.forall_mem_cons.1 h).2
      cases target with
      | chunk code constants =>
          cases b with
          | table => exact advances_step.inLine h
          | flat => exact (advances_passChunk rfl).inLine h
      | captured code =>
          cases b with
          | flat => exact (staysInside_passCaptured rfl).inLine hbelow
          | table =>
              rw [pass, Machine.step]
              dsimp only
              cases code[ip]? with
              | none => exact h
              | some n =>
                  dsimp only
                  cases n.opcode? with
                  | none => exact StaysInside.inLine (.inr ⟨_, rfl⟩) hbelow
                  | some op => exact staysInside_capturedHandler.inLine hbelow
      | _ => cases b <;> exact h

/-- What a way of running chunks comes to behind a step. -/
def goesOn (b : Backend) (apply : Apply) : Step → Except Failure Value × Record
  | .next m => b.loop apply m
  | .returned v m => (.ok v, m.record)
  | .failed f m => (.error f, m.record)

/-- In front of a chunk both ways of running go on behind a step of the machine. -/
theorem loop_eq_goesOn {code : Array UInt8} {constants : List Value} {ip base : Nat}
    {below : List Frame} {stack : ValueStack} {record : Record} :
    b.loop apply ⟨stack, ⟨.chunk code constants, ip, base⟩ :: below, record⟩ =
      b.goesOn apply
        ((⟨stack, ⟨.chunk code constants, ip, base⟩ :: below, record⟩ : Machine).step apply) := by
  cases b with
  | table =>
      rw [loop_eq_pass, pass]
      cases Machine.step apply _ <;> rfl
  | flat =>
      rw [loop, Machine.inStep_chunk.eq]
      cases Machine.step apply _ <;> rfl

/-- The states that a machine can get into: a fresh one, one with something to run on top of what
there is, and whatever is left of it after a pass, also when the run has ended there. Functions may
answer in any way, and in another one every time. -/
inductive Reached (b : Backend) : Machine → Prop where
  | fresh (nextMark : Nat) : Reached b (Machine.fresh nextMark)
  | enter {m : Machine} (unit : Value) (h : Reached b m) : Reached b (m.enter unit)
  | pass {m : Machine} (apply : Apply) (h : Reached b m) : Reached b (b.pass apply m).machine

/-- In all of these states the frames stand where a line starts. -/
theorem Reached.inLine (h : b.Reached m) : ∀ f ∈ m.frames, f.InLine := by
  induction h with
  | fresh nextMark => simp [Machine.fresh]
  | enter unit h ih => exact List.forall_mem_cons.2 ⟨Frame.inLine_start unit _, ih⟩
  | pass apply h ih => exact inLine_pass ih

end Backend

/-- What a listing that there is consists of. -/
theorem exists_of_listing_ok {code : Array UInt8} {constants : List Value} {indent text : String}
    (h : (Value.chunk code constants).listing indent = .ok text) :
    ∃ entries constantLines, sweep 0 code.toList = some entries ∧
      (Value.chunk code constants).listing indent = .ok ("\n".intercalate
        (entries.map (·.text indent) ++ (indent ++ "-- constants --") :: constantLines)) := by
  rw [Value.listing] at h ⊢
  cases hsweep : sweep 0 code.toList with
  | none =>
      rw [hsweep] at h
      cases h
  | some entries =>
      rw [hsweep] at h
      cases hlines : listConstants indent 0 constants with
      | error f =>
          rw [hlines] at h
          cases h
      | ok constantLines => exact ⟨entries, constantLines, rfl, rfl⟩

/-- The entries of a listing that stand for the code of a chunk, and what follows them. -/
structure Decodes (code : Array UInt8) (constants : List Value) (indent : String)
    (entries : List Listed) (constantLines : List String) : Prop where
  listing_eq : (Value.chunk code constants).listing indent = .ok ("\n".intercalate
    (entries.map (·.text indent) ++ (indent ++ "-- constants --") :: constantLines))
  growing : (entries.map (·.offset)).Pairwise (· < ·)
  /-- Each line is read back as its entry. -/
  lines : ∀ e ∈ entries, Listed.ofLine? indent (e.text indent) = some e
  single : '\n' ∉ indent.toList → ∀ e ∈ entries, '\n' ∉ (e.text indent).toList
  bytes : entries.flatMap Listed.bytes = code.toList
  /-- In any state of a machine, what it reads in the chunk is the entry at that place, with an
  operand if it needs one, and both ways of running go on by executing that. -/
  executed : ∀ (b : Backend) (stack : ValueStack) ip base below record,
    b.Reached ⟨stack, ⟨.chunk code constants, ip, base⟩ :: below, record⟩ → ip < code.size →
      ∃ e ∈ entries, e.offset = ip ∧ readAt? code ip = some e ∧
        e.operand?.isSome = Listed.needsOperand e.byte ∧
        ∀ apply, b.loop apply ⟨stack, ⟨.chunk code constants, ip, base⟩ :: below, record⟩ =
          b.goesOn apply
            (e.execute apply constants ⟨.chunk code constants, base, ip + 1, below⟩ stack record)

/-- A chunk whose constants can be written cannot be listed just when in its code, or in that of a
chunk nested in it, an operand is cut off at the end. Otherwise its listing is a row of lines with
growing offsets, which tell the bytes of the code and whatever a machine executes in it, then a
headline and the constants. -/
theorem listing_decodes (code : Array UInt8) (constants : List Value)
    (hwritable : Value.allWritable constants = true) (indent : String) :
    ((Value.chunk code constants).listing indent = .error .codeEnds ↔
      ∃ inner others, (Value.chunk code constants).Nests (.chunk inner others) ∧
        CutOff inner.toList) ∧
      ((Value.chunk code constants).listing indent ≠ .error .codeEnds →
        ∃ entries constantLines, Decodes code constants indent entries constantLines) := by
  have hends := endsEarly_listing code constants hwritable indent
  refine ⟨⟨fun herror => ?_, fun hcut => ?_⟩, fun hne => ?_⟩
  · rcases hends with ⟨hcut, -⟩ | ⟨-, text, hok⟩
    · exact hcut
    · rw [hok] at herror
      cases herror
  · rcases hends with ⟨-, herror⟩ | ⟨hnot, -⟩
    · exact herror
    · exact absurd hcut hnot
  rcases hends with ⟨-, herror⟩ | ⟨-, text, hok⟩
  · exact absurd herror hne
  obtain ⟨entries, constantLines, hsweep, hlisting⟩ := exists_of_listing_ok hok
  have htiles : Tiles 0 code.toList entries := sweep_eq_some_iff.1 hsweep
  exact ⟨entries, constantLines, {
    listing_eq := hlisting
    growing := htiles.pairwise
    lines := fun e he => Listed.ofLine?_text (htiles.sound e he) indent
    single := fun hindent e he => Listed.lineEnd_not_mem_text (htiles.sound e he) hindent
    bytes := htiles.flatMap_bytes
    executed := by
      intro b stack ip base below record hreached hip
      have hline : LineAt code ip :=
        hreached.inLine ⟨.chunk code constants, ip, base⟩ (by simp) code constants rfl
      obtain ⟨e, he, hread, hsound, -⟩ := hline.reads hsweep (Array.getElem?_eq_getElem hip)
      refine ⟨e, he, offset_of_readAt? hread, hread, hsound.operand, fun apply => ?_⟩
      rw [Backend.loop_eq_goesOn, step_eq_execute hread] }⟩

/-- A byte that is no instruction between a constant and a return. -/
theorem listing_decodes_unknown :
    let code : Array UInt8 := #[0x05, 0x00, 0x00, 0xAB, 0x24]
    let constants : List Value := [.nothing]
    Value.allWritable constants = true ∧
      (Value.chunk code constants).listing "" =
        .ok "0000: PUSH_CONST 0\n0003: OP_AB\n0004: RETURN\n-- constants --\n[0] None" ∧
      (¬∃ inner others, (Value.chunk code constants).Nests (.chunk inner others) ∧
        CutOff inner.toList) ∧
      ∃ entries constantLines, Decodes code constants "" entries constantLines := by
  intro code constants
  have hwritable : Value.allWritable constants = true := by decide
  have hlisting : (Value.chunk code constants).listing "" =
      .ok "0000: PUSH_CONST 0\n0003: OP_AB\n0004: RETURN\n-- constants --\n[0] None" := rfl
  obtain ⟨hcut, hdecodes⟩ := listing_decodes code constants hwritable ""
  have hne : (Value.chunk code constants).listing "" ≠ .error .codeEnds := by
    rw [hlisting]
    exact fun h => nomatch h
  exact ⟨hwritable, hlisting, fun h => hne (hcut.2 h), hdecodes hne⟩

end FormLang
