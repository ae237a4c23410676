import FormLang.Proofs.Chunk.Emission
import FormLang.Proofs.Chunk.Safety

set_option autoImplicit false

/-! # Chunks run in isolation

All frames of a machine share one stack, and a machine can be used again. Neither can be seen from
what well-formed chunks come to. They come to the same as on stacks of their own, one for each chunk
that is run (`Value.evaluate`), and a run leaves the machine as it has found it, but for the record
of what was called. So each of several runs on one machine comes to the same as on a fresh one
(`runs_isolated`).
-/

namespace FormLang

/-! ## A stack for each chunk -/

/-- The operand of the instruction at a place. -/
def operandOf (code : Array UInt8) (ip : Nat) : Calling Nat :=
  match operandAt? code (ip + 1) with
  | some n => pure n
  | none => throw (.fault .codeEnds)

/-- Runs code from a place on, with the values that it has pushed so far, the top first. A chunk
among the constants is run by itself, from the start of its code and with no values at all. -/
def evaluateFrom (apply : Apply) (code : Array UInt8) (constants : List Value) (ip : Nat)
    (vs : List Value) : Calling Value :=
  match _hb : code[ip]? with
  | none => throw (.fault .noReturn)
  | some b =>
    match Opcode.ofByte? b with
    | none => throw (.fault (.unknownOpcode (toString b)))
    | some .ret => topOf vs
    | some .pushConst => do
      let place ← operandOf code ip
      let v ← constantAt constants place
      evaluateFrom apply code constants (ip + 3) (v :: vs)
    | some .list => do
      let count ← operandOf code ip
      evaluateFrom apply code constants (ip + 3) (.list (vs.take count).reverse :: vs.drop count)
    | some .call => do
      let place ← operandOf code ip
      let v ← constantAt constants place
      match vs, v with
      | [], _ => throw (.fault .stackEmpty)
      | args :: vs, .callable f => do
        let x ← Calling.call apply f args
        evaluateFrom apply code constants (ip + 3) (x :: vs)
      | _ :: _, v => throw (.fault (.wrongType (Misfit.notCallable v.kind.typeName)))
    | some .runChunk => do
      let place ← operandOf code ip
      match _hv : constants[place]? with
      | none => throw (.fault .listIndex)
      | some (.chunk code' constants') => do
        let x ← evaluateFrom apply code' constants' 0 []
        evaluateFrom apply code constants (ip + 3) (x :: vs)
      | some v => throw (.fault v.notAChunk)
  termination_by (⟨.chunk code constants, ip, 0⟩ : Frame).steps
  decreasing_by
  all_goals
    obtain ⟨hip, -⟩ := Array.getElem?_eq_some_iff.1 _hb
    have hadvance : (⟨.chunk code constants, ip + 3, 0⟩ : Frame).steps +
        Value.stepsOfAll constants < (⟨.chunk code constants, ip, 0⟩ : Frame).steps :=
      Frame.steps_advance hip (by omega)
  · omega
  · omega
  · omega
  · have hstart := Frame.steps_start (.chunk code' constants') 0
    have hle := Value.steps_le (List.mem_of_getElem? _hv)
    omega
  · omega

/-- What a chunk comes to when each chunk is run on an empty stack of its own. -/
def Value.evaluate (apply : Apply) : Value → Calling Value
  | .chunk code constants => evaluateFrom apply code constants 0 []
  | v => throw (.fault v.notAChunk)

section

variable {apply : Apply} {pushable : Value → Prop} {code : Array UInt8} {constants vs : List Value}
  {ip place : Nat} {v : Value}

theorem operandOf_eq {n : Nat} (hn : operandAt? code (ip + 1) = some n) :
    operandOf code ip = pure n := by
  rw [operandOf, hn]

theorem evaluateFrom_ret (hb : code[ip]? = some Opcode.ret.byte) :
    evaluateFrom apply code constants ip vs = topOf vs := by
  rw [evaluateFrom.eq_def]
  split
  · next hnone => cases hnone.symm.trans hb
  · next b hsome =>
    obtain rfl : b = Opcode.ret.byte := Option.some.inj (hsome.symm.trans hb)
    rfl

theorem evaluateFrom_push (hb : code[ip]? = some Opcode.pushConst.byte)
    (hn : operandAt? code (ip + 1) = some place) (hv : constants[place]? = some v) :
    evaluateFrom apply code constants ip vs =
      evaluateFrom apply code constants (ip + 3) (v :: vs) := by
  rw [evaluateFrom.eq_def]
  split
  · next hnone => cases hnone.symm.trans hb
  · next b hsome =>
    obtain rfl : b = Opcode.pushConst.byte := Option.some.inj (hsome.symm.trans hb)
    show (do
      let place ← operandOf code ip
      let v ← constantAt constants place
      evaluateFrom apply code constants (ip + 3) (v :: vs)) = _
    rw [operandOf_eq hn, pure_bind, constantAt, hv, pure_bind]

theorem evaluateFrom_gather {count : Nat} (hb : code[ip]? = some Opcode.list.byte)
    (hn : operandAt? code (ip + 1) = some count) :
    evaluateFrom apply code constants ip vs =
      evaluateFrom apply code constants (ip + 3)
        (.list (vs.take count).reverse :: vs.drop count) := by
  rw [evaluateFrom.eq_def]
  split
  · next hnone => cases hnone.symm.trans hb
  · next b hsome =>
    obtain rfl : b = Opcode.list.byte := Option.some.inj (hsome.symm.trans hb)
    show (do
      let count ← operandOf code ip
      evaluateFrom apply code constants (ip + 3)
        (.list (vs.take count).reverse :: vs.drop count)) = _
    rw [operandOf_eq hn, pure_bind]

theorem evaluateFrom_call {f : Callable} (hb : code[ip]? = some Opcode.call.byte)
    (hn : operandAt? code (ip + 1) = some place) (hf : constants[place]? = some (.callable f)) :
    evaluateFrom apply code constants ip vs =
      (Instr.call place).exec apply constants vs >>=
        evaluateFrom apply code constants (ip + 3) := by
  rw [evaluateFrom.eq_def]
  split
  · next hnone => cases hnone.symm.trans hb
  · next b hsome =>
    obtain rfl : b = Opcode.call.byte := Option.some.inj (hsome.symm.trans hb)
    rw [Opcode.ofByte?_byte]
    dsimp only
    rw [operandOf_eq hn, pure_bind, constantAt, hf, pure_bind]
    cases vs with
    | nil => rfl
    | cons args vs =>
        rw [Instr.exec_call hf]
        simp

theorem evaluateFrom_enter (hb : code[ip]? = some Opcode.runChunk.byte)
    (hn : operandAt? code (ip + 1) = some place) (hv : constants[place]? = some v)
    (hkind : v.kind = .chunk) :
    evaluateFrom apply code constants ip vs = (do
      let x ← v.evaluate apply
      evaluateFrom apply code constants (ip + 3) (x :: vs)) := by
  obtain ⟨code', constants', rfl⟩ := Value.exists_of_kind_chunk hkind
  rw [evaluateFrom.eq_def]
  split
  · next hnone => cases hnone.symm.trans hb
  · next b hsome =>
    obtain rfl : b = Opcode.runChunk.byte := Option.some.inj (hsome.symm.trans hb)
    rw [Opcode.ofByte?_byte]
    dsimp only
    rw [operandOf_eq hn, pure_bind]
    split
    · next hnone => cases hnone.symm.trans hv
    · next hsome =>
      cases hsome.symm.trans hv
      rfl
    · next hother hsome =>
      cases hsome.symm.trans hv
      exact absurd rfl (hother _ _)

/-- One instruction does what it does to the values that its chunk has pushed. -/
theorem evaluateFrom_instr {i : Instr} (hb : code[ip]? = some i.opcode.byte)
    (hn : operandAt? code (ip + 1) = some i.operand) (hfits : i.Fits pushable constants)
    (hnested : ∀ place v, i = .enter place → constants[place]? = some v →
      v.kind = .chunk ∧ v.evaluate apply = v.outcome apply) :
    evaluateFrom apply code constants ip vs =
      i.exec apply constants vs >>= evaluateFrom apply code constants (ip + 3) := by
  obtain ⟨-, hfits⟩ := hfits
  cases i with
  | push place =>
      obtain ⟨v, hv, -⟩ := hfits
      rw [Instr.exec_push hv, pure_bind, evaluateFrom_push hb hn hv]
  | gather count =>
      rw [Instr.exec, pure_bind, evaluateFrom_gather hb hn]
      rfl
  | call place =>
      obtain ⟨f, hf⟩ := hfits
      exact evaluateFrom_call hb hn hf
  | enter place =>
      obtain ⟨v, hv⟩ := hfits
      obtain ⟨hkind, hvalue⟩ := hnested place v rfl hv
      rw [Instr.exec_enter hv, evaluateFrom_enter hb hn hv hkind, hvalue]
      simp

theorem evaluateFrom_exec {is : List Instr} (before : List UInt8)
    (hcode : code.toList = before ++ assemble is ++ [Opcode.ret.byte])
    (hip : ip = before.length) (hfits : ∀ i ∈ is, i.Fits pushable constants)
    (hnested : ∀ place v, .enter place ∈ is → constants[place]? = some v →
      v.kind = .chunk ∧ v.evaluate apply = v.outcome apply) :
    evaluateFrom apply code constants ip vs = exec apply constants is vs >>= topOf := by
  induction is generalizing before ip vs with
  | nil =>
      rw [exec, pure_bind]
      exact evaluateFrom_ret (byte_at before (by simpa using hcode) hip)
  | cons i is ih =>
      have hfit := hfits i (by simp)
      have hsplit : code.toList = before ++ i.bytes ++ (assemble is ++ [Opcode.ret.byte]) := by
        simp [hcode]
      have hb : code[ip]? = some i.opcode.byte :=
        byte_at before (by rw [hsplit, List.append_assoc]; rfl) hip
      have hn : operandAt? code (ip + 1) = some i.operand := operand_at before hsplit hip hfit.1
      have hnext : ip + 3 = (before ++ i.bytes).length := by simp [hip, Instr.bytes]
      have hrest : evaluateFrom apply code constants (ip + 3) =
          fun vs => exec apply constants is vs >>= topOf := by
        funext vs
        exact ih (before ++ i.bytes) (by simp [hcode]) hnext (fun j hj => hfits j (by simp [hj]))
          (fun place v hp => hnested place v (by simp [hp]))
      rw [evaluateFrom_instr hb hn hfit fun place v hp => hnested place v (by simp [hp]), hrest,
        exec, bind_assoc]

end

/-- The shared stack makes no difference to what a well-formed chunk comes to. -/
theorem Value.WellFormed.evaluate_eq {apply : Apply} {pushable : Value → Prop} {v : Value}
    (h : v.WellFormed pushable) : v.evaluate apply = v.outcome apply := by
  induction h with
  | @chunk code constants is h hnested ih =>
      have hvalues : ∀ place v, .enter place ∈ is → constants[place]? = some v →
          v.kind = .chunk ∧ v.evaluate apply = v.outcome apply :=
        fun place v hp hv => ⟨(hnested place v hp hv).kind, ih place v hp hv⟩
      rw [h.outcome_eq fun place v hp hv => (hnested place v hp hv).isolated]
      exact evaluateFrom_exec [] h.code_eq rfl h.fits hvalues

/-! ## Earlier calls -/

/-- The record of a machine that has made some calls before. -/
def Record.after (r : Record) (calls : List (Callable × Value)) : Record :=
  ⟨r.calls ++ calls, r.nextMark⟩

/-- Calls that were made before make no difference to a computation, and stay on record. -/
def Calling.Additive {α : Type} (x : Calling α) : Prop :=
  ∀ calls, Tracked.Agree (fun r r' => r' = r.after calls) (fun _ => True) (fun _ => True) x x

section

variable {α β : Type} {apply : Apply} {x : Calling α} {g : α → Calling β}

namespace Calling

theorem additive_pure (a : α) : Additive (pure a : Calling α) :=
  fun _ => Tracked.agree_pure trivial

theorem additive_throw (f : Failure) : Additive (throw f : Calling α) :=
  fun _ => Tracked.agree_throw trivial

theorem Additive.bind (hx : Additive x) (hg : ∀ a, Additive (g a)) : Additive (x >>= g) :=
  fun calls => (hx calls).bind fun a _ => hg a calls

theorem additive_call (f : Callable) (args : Value) : Additive (call apply f args) := by
  rintro calls r _ rfl
  have hcall : (r.after calls).call apply f args =
      ((r.call apply f args).1, (r.call apply f args).2.after calls) := by
    rw [Record.call, Record.call]
    cases apply f args <;> rfl
  have hrun : (call apply f args).run (r.after calls) = _ := hcall
  rw [hrun]
  exact ⟨rfl, rfl, ensures_true _⟩

/-- The computation starts with no calls on record, and the earlier ones are added in the end. -/
theorem Additive.run_eq (hx : Additive x) (r : Record) :
    x.run r = ((x.run ⟨[], r.nextMark⟩).1, (x.run ⟨[], r.nextMark⟩).2.after r.calls) := by
  obtain ⟨hresult, hrecord, -⟩ := hx r.calls ⟨[], r.nextMark⟩ r rfl
  exact Prod.ext hresult hrecord

end Calling

end

section

variable {apply : Apply} {pushable : Value → Prop} {constants vs : List Value} {i : Instr}
  {is : List Instr} {v : Value}

theorem additive_constantAt (constants : List Value) (place : Nat) :
    (constantAt constants place).Additive := by
  rw [constantAt]
  split
  · exact Calling.additive_pure _
  · exact Calling.additive_throw _

theorem additive_topOf (vs : List Value) : (topOf vs).Additive := by
  cases vs with
  | nil => exact Calling.additive_throw _
  | cons v vs => exact Calling.additive_pure v

theorem Instr.additive_exec
    (hnested : ∀ place v, i = .enter place → constants[place]? = some v →
      (v.outcome apply).Additive) : (i.exec apply constants vs).Additive := by
  cases i with
  | push place => exact (additive_constantAt _ _).bind fun v => Calling.additive_pure _
  | gather count => exact Calling.additive_pure _
  | call place =>
      cases vs with
      | nil => exact Calling.additive_throw _
      | cons args vs =>
          refine (additive_constantAt _ _).bind fun v => ?_
          cases v with
          | callable f => exact (Calling.additive_call f args).bind fun x => Calling.additive_pure _
          | _ => exact Calling.additive_throw _
  | enter place =>
      cases hv : constants[place]? with
      | none =>
          have hthrow : (enter place).exec apply constants vs = throw (.fault .listIndex) := by
            rw [exec, constantAt, hv]
            rfl
          rw [hthrow]
          exact Calling.additive_throw _
      | some v =>
          rw [exec_enter hv]
          exact (hnested place v rfl hv).bind fun x => Calling.additive_pure _

theorem additive_exec
    (hnested : ∀ place v, .enter place ∈ is → constants[place]? = some v →
      (v.outcome apply).Additive) : (exec apply constants is vs).Additive := by
  induction is generalizing vs with
  | nil => exact Calling.additive_pure _
  | cons i is ih =>
      have hfirst : (i.exec apply constants vs).Additive :=
        Instr.additive_exec fun place v hp => hnested place v (by simp [hp])
      exact hfirst.bind fun vs => ih fun place v hp => hnested place v (by simp [hp])

/-- What a well-formed chunk comes to does not depend on the calls that were made before. -/
theorem Value.WellFormed.additive (h : v.WellFormed pushable) : (v.outcome apply).Additive := by
  induction h with
  | @chunk code constants is h hnested ih =>
      rw [h.outcome_eq fun place v hp hv => (hnested place v hp hv).isolated]
      exact (additive_exec ih).bind additive_topOf

end

/-! ## One run -/

/-- No call that the run of a value adds to the record of the machine fails. -/
def Machine.NoCallFails (apply : Apply) (m : Machine) (v : Value) : Prop :=
  ∃ made, (m.run apply v).2.record.calls = made ++ m.record.calls ∧
    ∀ call ∈ made, ∃ x, apply call.1 call.2 = .ok x

section

variable {apply : Apply} {pushable : Value → Prop} {v x : Value} {m : Machine} {r : Record}

/-- Without frames below it, a well-formed chunk comes to its outcome on any stack. If that is no
failure, the stack is left as it was. -/
theorem Value.WellFormed.run (h : v.WellFormed pushable) (apply : Apply) (hm : m.frames = []) :
    match (v.outcome apply).run m.record with
    | (.ok x, r) => m.run apply v = (.ok x, ⟨m.stack, [], r⟩)
    | (.error _, r) => (m.run apply v).2.record = r := by
  cases h with
  | @chunk code constants is h hnested =>
      have hisolated : ∀ place v, .enter place ∈ is → constants[place]? = some v →
          v.Isolated apply := fun place v hp hv => (hnested place v hp hv).isolated
      obtain ⟨last, hleads, -, hstep⟩ := h.last hisolated m.stack m.record
      rw [Machine.run, hm, Machine.resume_of_leads hleads, h.outcome_eq hisolated]
      revert hstep
      rcases (exec apply constants is [] >>= topOf).run m.record with ⟨f | x, r⟩
      · rintro ⟨left, hfailed, rfl⟩
        rw [Machine.resume_of_failed hfailed]
      · intro hreturned
        rw [Machine.resume_of_returned hreturned]

theorem Value.WellFormed.run_of_ok (h : v.WellFormed pushable) (hm : m.frames = [])
    (hv : (v.outcome apply).run m.record = (.ok x, r)) :
    m.run apply v = (.ok x, ⟨m.stack, [], r⟩) := by
  have hrun := h.run apply hm
  rwa [hv] at hrun

/-- When no call fails, a well-formed chunk has a result, and the machine has the calls of this run
on record above the earlier ones. -/
theorem Value.WellFormed.exists_result (h : v.WellFormed pushable) (hm : m.frames = [])
    (hcalls : m.NoCallFails apply v) :
    ∃ x r, (v.outcome apply).run ⟨[], m.record.nextMark⟩ = (.ok x, r) ∧
      m.run apply v = (.ok x, ⟨m.stack, [], r.after m.record.calls⟩) := by
  have hadditive : (v.outcome apply).Additive := h.additive
  have hrun := hadditive.run_eq m.record
  rcases houtcome : (v.outcome apply).run ⟨[], m.record.nextMark⟩ with ⟨f | x, r⟩
  · -- The failing call is one of this run, as there were none before it.
    rw [houtcome] at hrun
    obtain ⟨target, args, calls, hlast, hfails⟩ := h.blames _ f r houtcome
    obtain ⟨made, hmade, hgood⟩ := hcalls
    have hrecord := h.run apply hm
    rw [hrun] at hrecord
    rw [hrecord] at hmade
    obtain rfl : r.calls = made := List.append_cancel_right hmade
    obtain ⟨x, hx⟩ := hgood (target, args) (by simp [hlast])
    cases hx.symm.trans hfails
  · rw [houtcome] at hrun
    exact ⟨x, r, rfl, h.run_of_ok hm hrun⟩

end

/-! ## Several runs -/

/-- Runs values on a machine one after the other. Functions may do different things in each run. -/
def Machine.runAll (m : Machine) : List (Apply × Value) → List (Except Failure Value) × Machine
  | [] => ([], m)
  | (apply, v) :: rest =>
    let (result, m) := m.run apply v
    let (results, m) := m.runAll rest
    (result :: results, m)

/-- Runs values one after the other, each on a fresh machine. -/
def runEachFresh (nextMark : Nat) : List (Apply × Value) → List (Except Failure Value)
  | [] => []
  | (apply, v) :: rest =>
    let (result, m) := (Machine.fresh nextMark).run apply v
    result :: runEachFresh m.record.nextMark rest

/-- No call fails that is made while values are run on a machine one after the other. -/
def Machine.NoCallFailsIn (m : Machine) : List (Apply × Value) → Prop
  | [] => True
  | (apply, v) :: rest => m.NoCallFails apply v ∧ (m.run apply v).2.NoCallFailsIn rest

section

variable {pushable : Value → Prop} {m : Machine} {runs : List (Apply × Value)}

theorem Machine.fresh_run {apply : Apply} {v x : Value} {r : Record} {nextMark : Nat}
    (h : v.WellFormed pushable) (hv : (v.outcome apply).run ⟨[], nextMark⟩ = (.ok x, r)) :
    (fresh nextMark).run apply v = (.ok x, ⟨.empty, [], r⟩) :=
  h.run_of_ok (m := fresh nextMark) rfl hv

/-- Each run leaves the stack and no frames, so the next one is like the first. -/
theorem Machine.runAll_eq (hruns : ∀ run ∈ runs, run.2.WellFormed pushable) (hm : m.frames = [])
    (hcalls : m.NoCallFailsIn runs) :
    (m.runAll runs).1 = runEachFresh m.record.nextMark runs ∧
      (m.runAll runs).2.stack = m.stack ∧ (m.runAll runs).2.frames = [] := by
  induction runs generalizing m with
  | nil => exact ⟨rfl, rfl, hm⟩
  | cons run rest ih =>
      obtain ⟨apply, v⟩ := run
      have hv : v.WellFormed pushable := hruns _ List.mem_cons_self
      obtain ⟨hfirst, hrest⟩ := hcalls
      obtain ⟨x, r, houtcome, hrun⟩ := hv.exists_result hm hfirst
      rw [hrun] at hrest
      obtain ⟨hresults, hstack, hframes⟩ :=
        ih (fun run hmem => hruns run (List.mem_cons_of_mem _ hmem)) rfl hrest
      rw [runAll, hrun, runEachFresh, fresh_run hv houtcome]
      exact ⟨congrArg _ hresults, hstack, hframes⟩

/-- On a machine without frames, whatever is on its stack, a well-formed chunk that calls nothing
that fails comes to what it comes to on a fresh machine, and to what it comes to when each chunk in it
has a stack of its own. It makes the same calls, and the stack is left as it was, without frames. So
in any number of such runs on one machine each comes to what it comes to on a fresh one. -/
theorem runs_isolated (hm : m.frames = []) :
    (∀ (apply : Apply) (v : Value), v.WellFormed pushable → m.NoCallFails apply v →
      ∃ x r, m.run apply v = (.ok x, ⟨m.stack, [], r.after m.record.calls⟩) ∧
        (Machine.fresh m.record.nextMark).run apply v = (.ok x, ⟨.empty, [], r⟩) ∧
        (v.evaluate apply).run ⟨[], m.record.nextMark⟩ = (.ok x, r)) ∧
    ∀ runs : List (Apply × Value), (∀ run ∈ runs, run.2.WellFormed pushable) →
      m.NoCallFailsIn runs →
        (m.runAll runs).1 = runEachFresh m.record.nextMark runs ∧
          (m.runAll runs).2.stack = m.stack ∧ (m.runAll runs).2.frames = [] := by
  refine ⟨fun apply v hv hcalls => ?_, fun runs hruns hcalls => Machine.runAll_eq hruns hm hcalls⟩
  obtain ⟨x, r, houtcome, hrun⟩ := hv.exists_result hm hcalls
  refine ⟨x, r, hrun, Machine.fresh_run hv houtcome, ?_⟩
  rw [hv.evaluate_eq]
  exact houtcome

end

/-- A chunk that hands the result of another one and a text to a function, which answers with the
first of its arguments and fails without any. There are two values on the stack before, and a call
on record. -/
theorem runs_isolated_nested :
    let f : Callable := .plain "first"
    let apply : Apply := fun _ args =>
      match args with
      | .list (v :: _) => .ok v
      | _ => .error (.fault .listIndex)
    let inner : Value := .chunk ⟨assemble [.push 0] ++ [Opcode.ret.byte]⟩ [.text "a"]
    let outer : Value := .chunk
      ⟨assemble [.enter 0, .push 1, .gather 2, .call 2] ++ [Opcode.ret.byte]⟩
      [inner, .text "b", .callable f]
    let m : Machine := ⟨.ofValues [.nothing, .text "c"], [], ⟨[(f, .nothing)], 3⟩⟩
    let left : Machine :=
      ⟨m.stack, [], ⟨[(f, .list [.text "a", .text "b"]), (f, .nothing)], 3⟩⟩
    m.run apply outer = (.ok (.text "a"), left) ∧
      ((Machine.fresh 3).run apply outer).1 = .ok (.text "a") ∧
      (m.runAll [(apply, outer), (apply, inner)]).1 = [.ok (.text "a"), .ok (.text "a")] := by
  intro f apply inner outer m left
  -- The instructions fit, and they leave one value.
  have hpush : Assembles (fun _ => True) [.push 0] ⟨assemble [.push 0] ++ [Opcode.ret.byte]⟩
      [.text "a"] :=
    ⟨rfl, by simp [Instr.Fits, Instr.operand], rfl⟩
  have hcall : Assembles (fun _ => True) [.enter 0, .push 1, .gather 2, .call 2]
      ⟨assemble [.enter 0, .push 1, .gather 2, .call 2] ++ [Opcode.ret.byte]⟩
      [inner, .text "b", .callable f] :=
    ⟨rfl, by simp [Instr.Fits, Instr.operand], rfl⟩
  have hinner : inner.WellFormed fun _ => True := .chunk _ hpush (by simp)
  have hplace : ∀ place v, .enter place ∈ [Instr.enter 0, .push 1, .gather 2, .call 2] →
      [inner, .text "b", .callable f][place]? = some v → v = inner := by
    intro place v hplace hv
    obtain rfl : place = 0 := by simpa using hplace
    exact (Option.some.inj hv).symm
  have houter : outer.WellFormed fun _ => True :=
    .chunk _ hcall fun place v hp hv => hplace place v hp hv ▸ hinner
  -- What the chunks come to, from whatever record.
  have hvalue : inner.outcome apply = pure (.text "a") := hpush.outcome_eq (by simp)
  have hresult : ∀ r : Record, (outer.outcome apply).run r =
      (.ok (.text "a"), ⟨(f, .list [.text "a", .text "b"]) :: r.calls, r.nextMark⟩) := by
    intro r
    have houtcome : outer.outcome apply = _ :=
      hcall.outcome_eq fun place v hp hv => hplace place v hp hv ▸ hinner.isolated
    rw [houtcome, exec, Instr.exec_enter rfl, hvalue]
    rfl
  have hrun : m.run apply outer = (.ok (.text "a"), left) := houter.run_of_ok rfl (hresult _)
  have hagain : left.run apply inner = (.ok (.text "a"), left) :=
    hinner.run_of_ok rfl (by rw [hvalue]; rfl)
  have hfirst : m.NoCallFails apply outer := by
    refine ⟨[(f, .list [.text "a", .text "b"])], by rw [hrun]; rfl, fun call hmem => ?_⟩
    obtain rfl := List.mem_singleton.1 hmem
    exact ⟨_, rfl⟩
  have hsecond : left.NoCallFails apply inner := ⟨[], by rw [hagain]; rfl, by simp⟩
  have hruns : ∀ run ∈ [(apply, outer), (apply, inner)], run.2.WellFormed fun _ => True := by
    simp [houter, hinner]
  have hcalls : m.NoCallFailsIn [(apply, outer), (apply, inner)] := by
    refine ⟨hfirst, ?_, trivial⟩
    rw [hrun]
    exact hsecond
  obtain ⟨x, r, hx, hfresh, -⟩ := (runs_isolated (m := m) rfl).1 apply outer houter hfirst
  obtain rfl : .text "a" = x := Except.ok.inj (congrArg Prod.fst (hrun.symm.trans hx))
  obtain ⟨heach, -⟩ := (runs_isolated (m := m) rfl).2 _ hruns hcalls
  have hnext : (Machine.fresh r.nextMark).run apply inner =
      (.ok (.text "a"), Machine.fresh r.nextMark) :=
    Machine.fresh_run hinner (by rw [hvalue]; rfl)
  refine ⟨hrun, congrArg Prod.fst hfresh, heach.trans ?_⟩
  simp only [runEachFresh, hfresh, hnext]

end FormLang
