import FormLang.Proofs.Machine.Backends

set_option autoImplicit false

/-! # Every run ends

Both ways of running a chunk are loops, and the frames in front of them grow as well as shrink. Here
the loops are taken apart into their passes (`Backend.pass`). A pass of the table is a step of the
machine; a pass of the flat loop is written down here, and the loop is what its passes come to
(`Machine.flat_eq_pass`). Each pass that goes on leaves less work than it found, so that a run ends
after no more passes than there was work before it (`loop_ends`): from whatever frames, with
whatever there is on the stack, and also when functions do not answer twice in the same way.
-/

namespace FormLang

/-! ## The passes of the flat loop -/

namespace Machine

/-- The instruction that ends a frame. -/
def passReturn (m : Machine) (base : Nat) (below : List Frame) : Step :=
  match m.stack.pop? with
  | none => .failed (.fault .stackEmpty) m
  | some (v, stack) =>
    if below.isEmpty then .returned v m
    else .next ⟨(stack.dropTo base).push v, below, m.record⟩

/-- An instruction that needs a constant, in front of frames that stand behind the operand. -/
def passConstant (apply : Apply) (m : Machine) (frames : List Frame) (b : UInt8) (v : Value) :
    Step :=
  if b = Opcode.pushConst.byte then .next ⟨m.stack.push v, frames, m.record⟩
  else if b = Opcode.call.byte then
    match m.stack.pop? with
    | none => .failed (.fault .stackEmpty) m
    | some (args, stack) =>
      match v with
      | .callable target =>
        match m.record.call apply target args with
        | (.error f, record) => .failed f ⟨stack, frames, record⟩
        | (.ok result, record) => .next ⟨stack.push result, frames, record⟩
      | v => .failed (.fault (.wrongType (Misfit.notCallable v.kind.typeName))) m
  else .next ⟨m.stack, ⟨v, 0, m.stack.height⟩ :: frames, m.record⟩

/-- The instruction at a place of a chunk. -/
def passChunk (apply : Apply) (m : Machine) (code : Array UInt8) (constants : List Value)
    (ip base : Nat) (below : List Frame) : Step :=
  match code[ip]? with
  | none => .failed (.fault .noReturn) m
  | some b =>
    if b = Opcode.ret.byte then m.passReturn base below
    else if b ≠ Opcode.pushConst.byte ∧ b ≠ Opcode.list.byte ∧ b ≠ Opcode.call.byte ∧
        b ≠ Opcode.runChunk.byte then
      .failed (.fault (.unknownOpcode (toString b))) m
    else
      match operandAt? code (ip + 1) with
      | none => .failed (.fault .codeEnds) m
      | some n =>
        let frames := ⟨.chunk code constants, ip + 3, base⟩ :: below
        if b = Opcode.list.byte then
          let (items, stack) := m.stack.gather n
          .next ⟨stack.push (.list items), frames, m.record⟩
        else
          match constants[n]? with
          | none => .failed (.fault .listIndex) m
          | some v => m.passConstant apply frames b v

/-- The part at a place of captured code. -/
def passCaptured (m : Machine) (code : List Node) (ip base : Nat) (below : List Frame) : Step :=
  match code[ip]? with
  | none => .failed (.fault .noReturn) m
  | some n =>
    match n.opcode? with
    | some .ret => m.passReturn base below
    | some op =>
      match capturedOperand code (ip + 1) with
      | .error f => .failed (.fault f) m
      | .ok count =>
        if op = .list then
          let (items, stack) := m.stack.gather count
          .next ⟨stack.push (.list items), ⟨.captured code, ip + 3, base⟩ :: below, m.record⟩
        else .failed (.fault (Value.captured code).notAChunk) m
    | none => .failed (.fault n.unknownOpcode) m

/-- One pass of the flat loop, from a state to the next one or to the end of the run. -/
def pass (apply : Apply) (m : Machine) : Step :=
  match m.frames with
  | [] => .failed (.fault .listIndex) m
  | ⟨.chunk code constants, ip, base⟩ :: below => m.passChunk apply code constants ip base below
  | ⟨.captured code, ip, base⟩ :: below => m.passCaptured code ip base below
  | ⟨target, _, _⟩ :: _ => .failed (.fault target.notAChunk) m

section

variable {apply : Apply} {m m' : Machine} {code : Array UInt8} {constants : List Value}
  {ip base : Nat} {below frames : List Frame} {stack : ValueStack} {record : Record}

/-! ### The loop is what its passes come to -/

theorem flat_eq_passChunk :
    (⟨stack, ⟨.chunk code constants, ip, base⟩ :: below, record⟩ : Machine).flat apply =
      (passChunk apply ⟨stack, ⟨.chunk code constants, ip, base⟩ :: below, record⟩ code constants ip
        base below).flat apply := by
  rw [flat, passChunk, runFrames]
  dsimp only
  cases code[ip]? with
  | none => rfl
  | some b =>
      dsimp only
      by_cases hret : b = Opcode.ret.byte
      · rw [if_pos hret, if_pos hret, passReturn]
        cases stack.pop? with
        | none => rfl
        | some p => cases below <;> rfl
      rw [if_neg hret, if_neg hret]
      by_cases hunknown : b ≠ Opcode.pushConst.byte ∧ b ≠ Opcode.list.byte ∧
          b ≠ Opcode.call.byte ∧ b ≠ Opcode.runChunk.byte
      · rw [if_pos hunknown, if_pos hunknown]
        rfl
      rw [if_neg hunknown, if_neg hunknown]
      cases operandAt? code (ip + 1) with
      | none => rfl
      | some n =>
          dsimp only
          by_cases hlist : b = Opcode.list.byte
          · rw [if_pos hlist, if_pos hlist]
            rfl
          rw [if_neg hlist, if_neg hlist]
          -- The loop keeps the proof that the constant is there, which `split` can abstract.
          split
          · next hv =>
              rw [hv]
              rfl
          · next v hv =>
              simp only [hv]
              rw [passConstant]
              by_cases hpush : b = Opcode.pushConst.byte
              · rw [if_pos hpush, if_pos hpush]
                rfl
              rw [if_neg hpush, if_neg hpush]
              by_cases hcall : b = Opcode.call.byte
              · rw [if_pos hcall, if_pos hcall]
                cases stack.pop? with
                | none => rfl
                | some p =>
                    obtain ⟨args, stack⟩ := p
                    cases v with
                    | callable target =>
                        dsimp only
                        obtain ⟨r, record⟩ := record.call apply target args
                        cases r <;> rfl
                    | _ => rfl
              · rw [if_neg hcall, if_neg hcall]
                rfl

theorem flat_eq_passCaptured {code : List Node} :
    (⟨stack, ⟨.captured code, ip, base⟩ :: below, record⟩ : Machine).flat apply =
      (passCaptured ⟨stack, ⟨.captured code, ip, base⟩ :: below, record⟩ code ip base below).flat
        apply := by
  rw [flat, passCaptured, runFrames]
  dsimp only
  cases code[ip]? with
  | none => rfl
  | some n =>
      dsimp only
      cases n.opcode? with
      | none => rfl
      | some op =>
          cases op with
          | ret =>
              dsimp only [passReturn]
              cases stack.pop? with
              | none => rfl
              | some p => cases below <;> rfl
          | _ => cases capturedOperand code (ip + 1) <;> rfl

/-- The flat loop comes to what it comes to behind its first pass. -/
theorem flat_eq_pass (apply : Apply) (m : Machine) : m.flat apply = (m.pass apply).flat apply := by
  obtain ⟨stack, frames, record⟩ := m
  cases frames with
  | nil =>
      rw [flat, runFrames]
      rfl
  | cons f below =>
      obtain ⟨target, ip, base⟩ := f
      cases target with
      | chunk code constants => exact flat_eq_passChunk
      | captured code => exact flat_eq_passCaptured
      | _ => rw [flat, runFrames] <;> simp <;> rfl

/-! ### A pass that goes on leaves less work -/

theorem frames_of_passReturn (h : m.passReturn base below = .next m') : m'.frames = below := by
  rw [passReturn] at h
  split at h
  · cases h
  · split at h
    · cases h
    · cases h
      rfl

/-- An instruction that needs a constant goes on behind its operand, or enters the constant. -/
theorem frames_of_passConstant {b : UInt8} {v : Value}
    (h : m.passConstant apply frames b v = .next m') :
    m'.frames = frames ∨ m'.frames = ⟨v, 0, m.stack.height⟩ :: frames := by
  rw [passConstant.eq_def] at h
  split at h
  · cases h
    exact .inl rfl
  split at h
  · split at h
    · cases h
    · split at h
      · split at h
        · cases h
        · cases h
          exact .inl rfl
      · cases h
  · cases h
    exact .inr rfl

theorem passChunk_lt (h : m.passChunk apply code constants ip base below = .next m') :
    m'.steps < Frame.stepsOfAll (⟨.chunk code constants, ip, base⟩ :: below) := by
  rw [passChunk.eq_def] at h
  rw [steps]
  split at h
  · cases h
  next b hb =>
  obtain ⟨hip, -⟩ := Array.getElem?_eq_some_iff.1 hb
  have hadvance : Frame.stepsOfAll (⟨.chunk code constants, ip + 3, base⟩ :: below) <
      Frame.stepsOfAll (⟨.chunk code constants, ip, base⟩ :: below) :=
    Frame.stepsOfAll_advance hip (by omega)
  split at h
  · rw [frames_of_passReturn h]
    exact Frame.stepsOfAll_leave _ _
  split at h
  · cases h
  split at h
  · cases h
  dsimp only at h
  split at h
  · cases h
    exact hadvance
  split at h
  · cases h
  next v hv =>
  rcases frames_of_passConstant h with hframes | hframes
  · rw [hframes]
    exact hadvance
  · rw [hframes]
    exact Frame.stepsOfAll_enter hip (by omega) (List.mem_of_getElem? hv)

theorem passCaptured_lt {code : List Node} (h : m.passCaptured code ip base below = .next m') :
    m'.steps < Frame.stepsOfAll (⟨.captured code, ip, base⟩ :: below) := by
  rw [passCaptured.eq_def] at h
  rw [steps]
  split at h
  · cases h
  next n hn =>
  obtain ⟨hip, -⟩ := List.getElem?_eq_some_iff.1 hn
  split at h
  · rw [frames_of_passReturn h]
    exact Frame.stepsOfAll_leave _ _
  · split at h
    · cases h
    · split at h
      · cases h
        exact Frame.stepsOfAll_advance_captured hip (by omega)
      · cases h
  · cases h

theorem pass_lt (h : m.pass apply = .next m') : m'.steps < m.steps := by
  rw [pass.eq_def] at h
  rw [steps.eq_def m]
  split at h
  · cases h
  · next hframes =>
    rw [hframes]
    exact passChunk_lt h
  · next hframes =>
    rw [hframes]
    exact passCaptured_lt h
  · cases h

end

/-- The machine with a value that is to be run on top of what there is. -/
def enter (m : Machine) (unit : Value) : Machine :=
  { m with frames := ⟨unit, 0, m.stack.height⟩ :: m.frames }

theorem steps_enter (m : Machine) (unit : Value) : (m.enter unit).steps = unit.steps + m.steps := by
  rw [← Frame.steps_start unit m.stack.height]
  rfl

end Machine

/-! ## Runs, pass by pass -/

namespace Backend

/-- One pass of a way of running chunks. -/
def pass : Backend → Apply → Machine → Step
  | .table => Machine.step
  | .flat => Machine.pass

/-- What a way of running chunks comes to from a state. -/
def loop (b : Backend) (apply : Apply) (m : Machine) : Except Failure Value × Record :=
  match b with
  | .table => ((m.resume apply).1, (m.resume apply).2.record)
  | .flat => m.flat apply

/-- From a state the loop goes on for a number of passes and then ends, with a value or a failure.
In each pass functions may answer in another way. -/
inductive EndsIn (b : Backend) :
    (Nat → Apply) → Machine → Nat → Except Failure Value × Record → Prop where
  | returned {answers : Nat → Apply} {m left : Machine} {v : Value}
      (h : b.pass (answers 0) m = .returned v left) : EndsIn b answers m 0 (.ok v, left.record)
  | failed {answers : Nat → Apply} {m left : Machine} {f : Failure}
      (h : b.pass (answers 0) m = .failed f left) : EndsIn b answers m 0 (.error f, left.record)
  | next {answers : Nat → Apply} {m m' : Machine} {n : Nat} {r : Except Failure Value × Record}
      (h : b.pass (answers 0) m = .next m') (hrest : EndsIn b (fun i => answers (i + 1)) m' n r) :
      EndsIn b answers m (n + 1) r

variable {b : Backend} {answers : Nat → Apply} {apply : Apply} {m m' : Machine}

theorem pass_lt (h : b.pass apply m = .next m') : m'.steps < m.steps := by
  cases b with
  | table => exact Machine.step_lt h
  | flat => exact Machine.pass_lt h

/-- The loop goes on for no more passes than there is work before it. -/
theorem exists_endsIn (b : Backend) (answers : Nat → Apply) (m : Machine) :
    ∃ n ≤ m.steps, ∃ r, b.EndsIn answers m n r := by
  induction hk : m.steps using Nat.strongRecOn generalizing answers m with
  | ind k ih =>
      cases hpass : b.pass (answers 0) m with
      | next m' =>
          have hless : m'.steps < k := hk ▸ pass_lt hpass
          obtain ⟨n, hn, r, hends⟩ := ih m'.steps hless (fun i => answers (i + 1)) m' rfl
          exact ⟨n + 1, by omega, r, .next hpass hends⟩
      | returned v left => exact ⟨0, by omega, _, .returned hpass⟩
      | failed f left => exact ⟨0, by omega, _, .failed hpass⟩

/-- What a loop comes to, pass by pass. -/
theorem loop_eq_pass (b : Backend) (apply : Apply) (m : Machine) :
    b.loop apply m =
      match b.pass apply m with
      | .next m' => b.loop apply m'
      | .returned v left => (.ok v, left.record)
      | .failed f left => (.error f, left.record) := by
  cases b with
  | flat => exact m.flat_eq_pass apply
  | table =>
      cases hstep : m.step apply with
      | next m' =>
          rw [loop, Machine.resume_of_next hstep, pass, hstep]
          rfl
      | returned v left => rw [loop, Machine.resume_of_returned hstep, pass, hstep]
      | failed f left => rw [loop, Machine.resume_of_failed hstep, pass, hstep]

/-- When functions always answer in the same way, the loop comes to what its passes end with. -/
theorem EndsIn.loop_eq {n : Nat} {r : Except Failure Value × Record} (h : b.EndsIn answers m n r)
    (hsame : ∀ i, answers i = apply) : b.loop apply m = r := by
  induction h with
  | returned h =>
      rw [hsame] at h
      rw [loop_eq_pass, h]
  | failed h =>
      rw [hsame] at h
      rw [loop_eq_pass, h]
  | next h _ ih =>
      rw [hsame] at h
      rw [loop_eq_pass, h]
      exact ih fun i => hsame (i + 1)

end Backend

/-- Running any value on top of what a machine has left ends after no more passes than the code of
all frames allows, with a value or a failure, whatever the functions answer that are called on the
way. When they always answer in the same way, a run comes to what its passes end with: on a machine
of the table that has any stack and any frames left, and on a fresh machine of either kind. -/
theorem loop_ends (m : Machine) (unit : Value) :
    (∀ (b : Backend) (answers : Nat → Apply), ∃ n ≤ unit.steps + m.steps, ∃ r,
      b.EndsIn answers (m.enter unit) n r) ∧
    (∀ apply, ∃ n ≤ unit.steps + m.steps, Backend.table.EndsIn (fun _ => apply) (m.enter unit) n
      ((m.run apply unit).1, (m.run apply unit).2.record)) ∧
    ∀ (b : Backend) apply nextMark, ∃ n ≤ unit.steps,
      b.EndsIn (fun _ => apply) ((Machine.fresh nextMark).enter unit) n
        (runOn b apply nextMark unit) := by
  refine ⟨fun b answers => ?_, fun apply => ?_, fun b apply nextMark => ?_⟩
  · rw [← m.steps_enter unit]
    exact b.exists_endsIn answers (m.enter unit)
  · obtain ⟨n, hn, r, hends⟩ := Backend.table.exists_endsIn (fun _ => apply) (m.enter unit)
    obtain rfl := hends.loop_eq fun _ => rfl
    exact ⟨n, m.steps_enter unit ▸ hn, hends⟩
  · obtain ⟨n, hn, r, hends⟩ :=
      b.exists_endsIn (fun _ => apply) ((Machine.fresh nextMark).enter unit)
    obtain rfl := hends.loop_eq fun _ => rfl
    rw [Machine.steps_enter] at hn
    have hrun : runOn b apply nextMark unit =
        b.loop apply ((Machine.fresh nextMark).enter unit) := by
      cases b <;> rfl
    rw [hrun]
    exact ⟨n, hn, hends⟩

end FormLang
