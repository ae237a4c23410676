import FormLang.Machine

set_option autoImplicit false

/-! # Running a machine by a table of instructions

Each instruction has a handler, which answers with the next state. A machine keeps its state
when a run fails: the next run starts on top of what is there and, when its own chunk has
returned, goes on with the frames below.
-/

namespace FormLang

/-- What an instruction leads to. -/
inductive Step where
  | next (m : Machine)
  /-- The last frame returned. -/
  | returned (v : Value) (m : Machine)
  | failed (f : Failure) (m : Machine)

/-! ## Handlers -/

/-- Where an instruction stands: what is run with its frame's base, the place behind the
instruction, and the frames below. -/
structure Site where
  target : Value
  base : Nat
  ip : Nat
  below : List Frame

namespace Site

/-- The frames with the top one at a given distance behind the instruction. -/
def frames (s : Site) (distance : Nat) : List Frame :=
  ⟨s.target, s.ip + distance, s.base⟩ :: s.below

/-- Goes on behind the operand with a new stack. -/
def goOn (s : Site) (stack : ValueStack) (record : Record) : Step :=
  .next ⟨stack, s.frames 2, record⟩

/-- Fails with the frame at a given distance behind the instruction. -/
def fault (s : Site) (distance : Nat) (stack : ValueStack) (record : Record) (f : Fault) : Step :=
  .failed (.fault f) ⟨stack, s.frames distance, record⟩

end Site

/-- An instruction in front of a stack and the record. -/
abbrev Handler : Type := Site → ValueStack → Record → Step

/-- An instruction that needs its operand. -/
def withOperand (code : Array UInt8) (act : Nat → Handler) : Handler := fun s stack record =>
  match operandAt? code s.ip with
  | some n => act n s stack record
  | none => s.fault 0 stack record .codeEnds

/-- An instruction that needs the constant that its operand names. -/
def withConstant (code : Array UInt8) (constants : List Value) (act : Value → Handler) : Handler :=
  withOperand code fun n s stack record =>
    match constants[n]? with
    | some v => act v s stack record
    | none => s.fault 2 stack record .listIndex

/-- An instruction of captured code that needs its operand. -/
def withCapturedOperand (code : List Node) (act : Int → Handler) : Handler :=
  fun s stack record =>
    match capturedOperand code s.ip with
    | .ok n => act n s stack record
    | .error f => s.fault 0 stack record f

/-- Pushes a constant. -/
def pushConst (v : Value) : Handler := fun s stack record => s.goOn (stack.push v) record

/-- Gathers values into a list. -/
def gatherList (count : Int) : Handler := fun s stack record =>
  let (items, stack) := stack.gather count
  s.goOn (stack.push (.list items)) record

/-- Calls a constant with the top of the stack. -/
def callConst (apply : Apply) (v : Value) : Handler := fun s stack record =>
  match stack.pop?, v with
  | none, _ => s.fault 2 stack record .stackEmpty
  | some (args, stack), .callable target =>
    match record.call apply target args with
    | (.ok result, record) => s.goOn (stack.push result) record
    | (.error f, record) => .failed f ⟨stack, s.frames 2, record⟩
  | some (_, stack), v =>
    s.fault 2 stack record (.wrongType (Misfit.notCallable v.kind.typeName))

/-- Enters a constant. Whether it is a chunk shows when its first instruction is wanted. -/
def runChunk (v : Value) : Handler := fun s stack record =>
  .next ⟨stack, ⟨v, 0, stack.height⟩ :: s.frames 2, record⟩

/-- Hands the top of the stack to the frame below, in place of all that was pushed since the
frame started. -/
def returnTop : Handler := fun s stack record =>
  match stack.pop? with
  | none => s.fault 0 stack record .stackEmpty
  | some (v, stack) =>
    let stack := stack.dropTo s.base
    match s.below with
    | [] => .returned v ⟨stack, [], record⟩
    | below => .next ⟨stack.push v, below, record⟩

/-- The handler of each instruction of a chunk. -/
def handler (apply : Apply) (code : Array UInt8) (constants : List Value) : Opcode → Handler
  | .pushConst => withConstant code constants pushConst
  | .list => withOperand code fun n => gatherList n
  | .call => withConstant code constants (callConst apply)
  | .runChunk => withConstant code constants runChunk
  | .ret => returnTop

/-- The handler of each instruction of captured code. There are no constants, and this shows
before the operand is looked at, unless the constant is only to be pushed. -/
def capturedHandler (code : List Node) : Opcode → Handler
  | .pushConst => withCapturedOperand code fun _ s stack record =>
    s.fault 2 stack record (Value.captured code).notAChunk
  | .list => withCapturedOperand code gatherList
  | .call => fun s stack record => s.fault 0 stack record (Value.captured code).notAChunk
  | .runChunk => fun s stack record => s.fault 0 stack record (Value.captured code).notAChunk
  | .ret => returnTop

/-! ## Steps -/

/-- Why a part of captured code has no handler. -/
def Node.noHandler (n : Node) : Fault :=
  match n.growing? with
  | none => n.unknownOpcode
  | some type => .wrongType (Misfit.unhashable type)

/-- Executes the next instruction. -/
def Machine.step (apply : Apply) (m : Machine) : Step :=
  match m.frames with
  | [] => .failed (.fault .listIndex) m
  | ⟨.chunk code constants, ip, base⟩ :: below =>
    match code[ip]? with
    | none => .failed (.fault .noReturn) m
    | some b =>
      let s : Site := ⟨.chunk code constants, base, ip + 1, below⟩
      match Opcode.ofByte? b with
      | some op => handler apply code constants op s m.stack m.record
      | none => s.fault 0 m.stack m.record (.unknownOpcode (toString b))
  | ⟨.captured code, ip, base⟩ :: below =>
    match code[ip]? with
    | none => .failed (.fault .noReturn) m
    | some n =>
      let s : Site := ⟨.captured code, base, ip + 1, below⟩
      match n.opcode? with
      | some op => capturedHandler code op s m.stack m.record
      | none => s.fault 0 m.stack m.record n.noHandler
  | ⟨target, _, _⟩ :: _ => .failed (.fault target.notAChunk) m

/-! ## Runs -/

/-- The work before a machine. -/
def Machine.steps (m : Machine) : Nat := Frame.stepsOfAll m.frames

section

variable {s : Site} {stack : ValueStack} {record : Record} {m : Machine}

theorem Site.frames_of_goOn (h : s.goOn stack record = .next m) : m.frames = s.frames 2 := by
  obtain rfl := Step.next.inj h
  rfl

theorem withOperand_next {code : Array UInt8} {act : Nat → Handler}
    (h : withOperand code act s stack record = .next m) :
    ∃ n, act n s stack record = .next m := by
  unfold withOperand at h
  split at h
  · exact ⟨_, h⟩
  · cases h

theorem withConstant_next {code : Array UInt8} {constants : List Value} {act : Value → Handler}
    (h : withConstant code constants act s stack record = .next m) :
    ∃ v ∈ constants, act v s stack record = .next m := by
  obtain ⟨n, h⟩ := withOperand_next h
  split at h
  · next v hv => exact ⟨v, List.mem_of_getElem? hv, h⟩
  · cases h

theorem withCapturedOperand_next {code : List Node} {act : Int → Handler}
    (h : withCapturedOperand code act s stack record = .next m) :
    ∃ n, act n s stack record = .next m := by
  unfold withCapturedOperand at h
  split at h
  · exact ⟨_, h⟩
  · cases h

theorem callConst_next {apply : Apply} {v : Value}
    (h : callConst apply v s stack record = .next m) : m.frames = s.frames 2 := by
  unfold callConst at h
  split at h
  · cases h
  · split at h
    · exact Site.frames_of_goOn h
    · cases h
  · cases h

theorem returnTop_next (h : returnTop s stack record = .next m) : m.frames = s.below := by
  unfold returnTop at h
  split at h
  · cases h
  · split at h
    · cases h
    · obtain rfl := Step.next.inj h
      rfl

end

/-- No instruction of a chunk leaves as much work as it found. -/
theorem handler_lt {apply : Apply} {op : Opcode} {code : Array UInt8} {constants : List Value}
    {ip base : Nat} {below : List Frame} {stack : ValueStack} {record : Record} {m : Machine}
    (hip : ip < code.size)
    (h : handler apply code constants op ⟨.chunk code constants, base, ip + 1, below⟩ stack
      record = .next m) :
    m.steps < Frame.stepsOfAll (⟨.chunk code constants, ip, base⟩ :: below) := by
  have advance : Frame.stepsOfAll (⟨.chunk code constants, ip + 1 + 2, base⟩ :: below) <
      Frame.stepsOfAll (⟨.chunk code constants, ip, base⟩ :: below) :=
    Frame.stepsOfAll_advance hip (by omega)
  rw [Machine.steps]
  cases op with
  | pushConst =>
    obtain ⟨v, -, h⟩ := withConstant_next h
    rw [Site.frames_of_goOn h]
    exact advance
  | list =>
    obtain ⟨n, h⟩ := withOperand_next h
    rw [Site.frames_of_goOn h]
    exact advance
  | call =>
    obtain ⟨v, -, h⟩ := withConstant_next h
    rw [callConst_next h]
    exact advance
  | runChunk =>
    obtain ⟨v, hv, h⟩ := withConstant_next h
    obtain rfl := Step.next.inj h
    exact Frame.stepsOfAll_enter hip (by dsimp only; omega) hv
  | ret =>
    rw [returnTop_next h]
    exact Frame.stepsOfAll_leave _ _

/-- No instruction of captured code leaves as much work as it found. -/
theorem capturedHandler_lt {op : Opcode} {code : List Node} {ip base : Nat}
    {below : List Frame} {stack : ValueStack} {record : Record} {m : Machine}
    (hip : ip < code.length)
    (h : capturedHandler code op ⟨.captured code, base, ip + 1, below⟩ stack record = .next m) :
    m.steps < Frame.stepsOfAll (⟨.captured code, ip, base⟩ :: below) := by
  rw [Machine.steps]
  cases op with
  | pushConst =>
    rw [capturedHandler] at h
    obtain ⟨n, h⟩ := withCapturedOperand_next h
    cases h
  | list =>
    rw [capturedHandler] at h
    obtain ⟨n, h⟩ := withCapturedOperand_next h
    rw [Site.frames_of_goOn h]
    exact Frame.stepsOfAll_advance_captured hip (by dsimp only; omega)
  | call => cases h
  | runChunk => cases h
  | ret =>
    rw [returnTop_next h]
    exact Frame.stepsOfAll_leave _ _

theorem Machine.step_lt {apply : Apply} {m next : Machine} (h : m.step apply = .next next) :
    next.steps < m.steps := by
  unfold Machine.step at h
  split at h
  · cases h
  · next code constants ip base below hframes =>
    split at h
    · cases h
    · next b hb =>
      dsimp only at h
      split at h
      · obtain ⟨hip, -⟩ := Array.getElem?_eq_some_iff.1 hb
        rw [Machine.steps.eq_def m, hframes]
        exact handler_lt hip h
      · cases h
  · next code ip base below hframes =>
    split at h
    · cases h
    · next n hn =>
      dsimp only at h
      split at h
      · obtain ⟨hip, -⟩ := List.getElem?_eq_some_iff.1 hn
        rw [Machine.steps.eq_def m, hframes]
        exact capturedHandler_lt hip h
      · cases h
  · cases h

/-- Runs a machine until its last frame returns. -/
def Machine.resume (apply : Apply) (m : Machine) : Except Failure Value × Machine :=
  match _h : m.step apply with
  | .next m => m.resume apply
  | .returned v m => (.ok v, m)
  | .failed f m => (.error f, m)
  termination_by m.steps
  decreasing_by exact Machine.step_lt _h

/-- Runs a value on top of what a machine has left. -/
def Machine.run (apply : Apply) (m : Machine) (target : Value) : Except Failure Value × Machine :=
  { m with frames := ⟨target, 0, m.stack.height⟩ :: m.frames }.resume apply

end FormLang
