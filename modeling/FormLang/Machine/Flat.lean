import FormLang.Machine

set_option autoImplicit false

/-! # Running a chunk in one loop

The same instructions as in `Machine/Dispatch.lean`, without a table: the loop compares the byte
with each instruction in turn, the operand is read at one place for all that have one, and
nothing is left behind when a run fails but the calls that were made.
-/

namespace FormLang

/-- Runs frames until the last one returns; the answer comes with the record of the run. -/
def runFrames (apply : Apply) (stack : ValueStack) (record : Record) :
    List Frame → Except Failure Value × Record
  | [] => (.error (.fault .listIndex), record)
  | ⟨.chunk code constants, ip, base⟩ :: below =>
    match _hip : code[ip]? with
    | none => (.error (.fault .noReturn), record)
    | some b =>
      if b = Opcode.ret.byte then
        match stack.pop? with
        | none => (.error (.fault .stackEmpty), record)
        | some (v, stack) =>
          if below.isEmpty then (.ok v, record)
          else runFrames apply ((stack.dropTo base).push v) record below
      else if b ≠ Opcode.pushConst.byte ∧ b ≠ Opcode.list.byte ∧ b ≠ Opcode.call.byte ∧
          b ≠ Opcode.runChunk.byte then
        (.error (.fault (.unknownOpcode (toString b))), record)
      else
        match operandAt? code (ip + 1) with
        | none => (.error (.fault .codeEnds), record)
        | some n =>
          let frames := ⟨.chunk code constants, ip + 3, base⟩ :: below
          if b = Opcode.list.byte then
            let (items, stack) := stack.gather n
            runFrames apply (stack.push (.list items)) record frames
          else
            match _hv : constants[n]? with
            | none => (.error (.fault .listIndex), record)
            | some v =>
              if b = Opcode.pushConst.byte then runFrames apply (stack.push v) record frames
              else if b = Opcode.call.byte then
                match stack.pop? with
                | none => (.error (.fault .stackEmpty), record)
                | some (args, stack) =>
                  match v with
                  | .callable target =>
                    match record.call apply target args with
                    | (.error f, record) => (.error f, record)
                    | (.ok result, record) =>
                      runFrames apply (stack.push result) record frames
                  | v =>
                    (.error (.fault (.wrongType (Misfit.notCallable v.kind.typeName))), record)
              else runFrames apply stack record (⟨v, 0, stack.height⟩ :: frames)
  | ⟨.captured code, ip, base⟩ :: below =>
    match _hip : code[ip]? with
    | none => (.error (.fault .noReturn), record)
    | some n =>
      match n.opcode? with
      | some .ret =>
        match stack.pop? with
        | none => (.error (.fault .stackEmpty), record)
        | some (v, stack) =>
          if below.isEmpty then (.ok v, record)
          else runFrames apply ((stack.dropTo base).push v) record below
      | some op =>
        match capturedOperand code (ip + 1) with
        | .error f => (.error (.fault f), record)
        | .ok count =>
          if op = .list then
            let (items, stack) := stack.gather count
            runFrames apply (stack.push (.list items)) record
              (⟨.captured code, ip + 3, base⟩ :: below)
          else (.error (.fault (Value.captured code).notAChunk), record)
      | none => (.error (.fault n.unknownOpcode), record)
  | ⟨target, _, _⟩ :: _ => (.error (.fault target.notAChunk), record)
  termination_by frames => Frame.stepsOfAll frames
  decreasing_by
  · exact Frame.stepsOfAll_leave _ _
  · obtain ⟨hlt, -⟩ := Array.getElem?_eq_some_iff.1 _hip
    exact Frame.stepsOfAll_advance hlt (by omega)
  · obtain ⟨hlt, -⟩ := Array.getElem?_eq_some_iff.1 _hip
    exact Frame.stepsOfAll_advance hlt (by omega)
  · obtain ⟨hlt, -⟩ := Array.getElem?_eq_some_iff.1 _hip
    exact Frame.stepsOfAll_advance hlt (by omega)
  · obtain ⟨hlt, -⟩ := Array.getElem?_eq_some_iff.1 _hip
    exact Frame.stepsOfAll_enter hlt (by omega) (List.mem_of_getElem? _hv)
  · exact Frame.stepsOfAll_leave _ _
  · obtain ⟨hlt, -⟩ := List.getElem?_eq_some_iff.1 _hip
    exact Frame.stepsOfAll_advance_captured hlt (by omega)

/-- Runs a value on an empty stack; `nextMark` is the next mark for an undefined number. -/
def runFlat (apply : Apply) (nextMark : Nat) (target : Value) :
    Except Failure Value × Record :=
  runFrames apply .empty ⟨[], nextMark⟩ [⟨target, 0, 0⟩]

end FormLang
