import FormLang.Proofs.Chunk.Plan
import FormLang.Proofs.Tracked

set_option autoImplicit false

/-! # Emitting what was planned

Emitting a value adds the instructions and the constants that its plan says, and fails just when
one of the operands is too large (`Emit.emits_value`). Hence the exact chunks that `Chunk.ofValue`
and `Chunk.ofCall` build. They are well-formed when the chunks that are built into them are.
-/

namespace FormLang

/-! ## Emitting -/

/-- A chunk with some more instructions and constants. -/
def Chunk.extended (c : Chunk) (is : List Instr) (vs : List Value) : Chunk :=
  ⟨(c.code.toList ++ assemble is).toArray, poolOf c.constants vs⟩

theorem Chunk.extended_singleton (c : Chunk) (i : Instr) (vs : List Value) :
    c.extended [i] vs =
      ⟨((c.code.push i.opcode.byte).push (UInt8.ofNat (i.operand / 256))).push
        (UInt8.ofNat (i.operand % 256)), poolOf c.constants vs⟩ := by
  have hcode : (c.code.toList ++ assemble [i]).toArray =
      ((c.code.push i.opcode.byte).push (UInt8.ofNat (i.operand / 256))).push
        (UInt8.ofNat (i.operand % 256)) := by
    apply Array.toList_inj.1
    simp [Instr.bytes]
  rw [extended, hcode]

namespace Emit

/-- The steps add the instructions of a plan and some constants, and fail just when an operand is
too large. -/
def Emits (steps : Emit Unit) (plan : List Value → List Instr) (vs : List Value) : Prop :=
  ∀ c : Chunk,
    ((∀ i ∈ plan c.constants, i.operand ≤ maxOperand) →
      steps.run c = (.ok (), c.extended (plan c.constants) vs)) ∧
    ((∃ i ∈ plan c.constants, maxOperand < i.operand) →
      ∃ n left, steps.run c = (.error (.operandRange n), left))

variable {steps more : Emit Unit} {p q : List Value → List Instr} {vs ws : List Value}

theorem Emits.bind (h : Emits steps p vs) (h' : Emits more q ws) :
    Emits (do steps; more) (fun pool => p pool ++ q (poolOf pool vs)) (vs ++ ws) := by
  intro c
  constructor
  · intro hsmall
    -- The second plan is read off the pool that the first one leaves.
    have hfirst := (h c).1 fun i hi => hsmall i (List.mem_append_left _ hi)
    have hsecond := (h' (c.extended (p c.constants) vs)).1
      fun i hi => hsmall i (List.mem_append_right _ hi)
    rw [Tracked.run_bind_of_ok hfirst, hsecond]
    simp [Chunk.extended, poolOf_append]
  · rintro ⟨i, hi, hlarge⟩
    by_cases hsmall : ∀ i ∈ p c.constants, i.operand ≤ maxOperand
    · rw [Tracked.run_bind_of_ok ((h c).1 hsmall)]
      refine (h' _).2 ⟨i, ?_, hlarge⟩
      rcases List.mem_append.1 hi with hi | hi
      · exact absurd (hsmall i hi) (by omega)
      · exact hi
    · obtain ⟨n, left, hfails⟩ := (h c).2 (by simpa using hsmall)
      exact ⟨n, left, Tracked.run_bind_of_error hfails⟩

theorem run_op (o : Opcode) (c : Chunk) :
    (op o).run c = (.ok c.code.size, ⟨c.code.push o.byte, c.constants⟩) := rfl

theorem run_constant (v : Value) (c : Chunk) :
    (constant v).run c =
      (.ok (placeIn c.constants v), ⟨c.code, pooled c.constants v⟩) := by
  show (Except.ok (c.addConstant v).1, (c.addConstant v).2) = _
  rw [Chunk.addConstant_eq]

theorem run_operand_of_le {n : Nat} (hn : n ≤ maxOperand) (c : Chunk) :
    (operand n).run c =
      (.ok (), ⟨(c.code.push (UInt8.ofNat (n / 256))).push (UInt8.ofNat (n % 256)),
        c.constants⟩) := by
  have hrange : (0 : Int) ≤ n ∧ (n : Int) ≤ maxOperand := by omega
  rw [operand, if_pos hrange]
  rfl

theorem run_operand_of_lt {n : Nat} (hn : maxOperand < n) (c : Chunk) :
    (operand n).run c = (.error (.operandRange n), c) := by
  have hrange : ¬((0 : Int) ≤ n ∧ (n : Int) ≤ maxOperand) := by omega
  rw [operand, if_neg hrange]
  rfl

/-- Steps that come down to one instruction, in which the operand is added last. -/
theorem emits_instr {i : List Value → Instr}
    (h : ∀ c : Chunk, steps.run c = (operand (i c.constants).operand).run
      ⟨c.code.push (i c.constants).opcode.byte, poolOf c.constants vs⟩) :
    Emits steps (fun pool => [i pool]) vs := by
  intro c
  constructor
  · intro hsmall
    rw [h, run_operand_of_le (hsmall _ (by simp)), Chunk.extended_singleton]
  · rintro ⟨j, hj, hlarge⟩
    obtain rfl := List.mem_singleton.1 hj
    rw [h, run_operand_of_lt hlarge]
    exact ⟨_, _, rfl⟩

theorem emits_pushConstant (v : Value) :
    Emits (pushConstant v) (fun pool => [.push (placeIn pool v)]) [v] :=
  emits_instr fun c => by
    rw [pushConstant, Tracked.run_bind_of_ok (run_constant v c),
      Tracked.run_bind_of_ok (run_op _ _)]
    rfl

theorem emits_runConstant (v : Value) :
    Emits (runConstant v) (fun pool => [.enter (placeIn pool v)]) [v] :=
  emits_instr fun c => by
    rw [runConstant, Tracked.run_bind_of_ok (run_op _ c),
      Tracked.run_bind_of_ok (run_constant v _)]
    rfl

theorem emits_gather (n : Nat) :
    Emits (do let _ ← op .list; operand n) (fun _ => [.gather n]) [] :=
  emits_instr fun c => by
    rw [Tracked.run_bind_of_ok (run_op _ c)]
    rfl

theorem emits_callConstant (target : Value) :
    Emits (do let _ ← op .call; let i ← constant target; operand i)
      (fun pool => [.call (placeIn pool target)]) [target] :=
  emits_instr fun c => by
    rw [Tracked.run_bind_of_ok (run_op _ c), Tracked.run_bind_of_ok (run_constant target _)]
    rfl

/-- What is neither a list nor a chunk is pushed as it is. -/
theorem value_of_atomic {v : Value} (h : v.Atomic) : value v = pushConstant v := by
  cases v with
  | list items => exact absurd rfl h.1
  | chunk code constants => exact absurd rfl h.2
  | _ => rw [value] <;> simp

theorem emits_leaf {v : Value} (hv : v.kind ≠ .list) :
    Emits (value v) (fun pool => v.plan pool) v.leaves := by
  rw [Value.leaves_of_ne hv]
  by_cases hchunk : v.kind = .chunk
  · obtain ⟨code, constants, rfl⟩ := Value.exists_of_kind_chunk hchunk
    exact emits_runConstant _
  · simp only [value_of_atomic ⟨hv, hchunk⟩, Value.plan_of_atomic ⟨hv, hchunk⟩]
    exact emits_pushConstant v

theorem emits_values (h : ∀ v ∈ vs, Emits (value v) (fun pool => v.plan pool) v.leaves) :
    Emits (values vs) (fun pool => Value.planOfAll pool vs) (Value.leavesOfAll vs) := by
  induction vs with
  | nil =>
      intro c
      refine ⟨fun _ => ?_, by simp [Value.planOfAll]⟩
      simp [values, Value.planOfAll, Value.leavesOfAll, Chunk.extended, poolOf]
  | cons v vs ih => exact (h v (by simp)).bind (ih fun w hw => h w (by simp [hw]))

/-- Emitting a value adds what its plan says. -/
theorem emits_value (v : Value) : Emits (value v) (fun pool => v.plan pool) v.leaves := by
  induction v using Value.leafInduction with
  | leaf v hv => exact emits_leaf hv
  | list items ih =>
      have h := (emits_values ih).bind (emits_gather items.length)
      rw [List.append_nil] at h
      exact h

end Emit

/-! ## Whole chunks -/

namespace Chunk

/-- The chunk of some instructions with a return behind them. -/
def ofPlan (is : List Instr) (constants : List Value) : Chunk :=
  ⟨(assemble is ++ [Opcode.ret.byte]).toArray, constants⟩

/-- The instructions that are emitted for a call. -/
def callPlan (target : Value) (args : List Value) : List Instr :=
  (Value.list args).plan [] ++ [.call (placeIn (poolOf [] (Value.leavesOfAll args)) target)]

/-- The constants of a call. -/
def callPool (target : Value) (args : List Value) : List Value :=
  pooled (poolOf [] (Value.leavesOfAll args)) target

theorem kind_toValue (c : Chunk) : c.toValue.kind ≠ .list := by
  simp [toValue, Value.kind]

theorem build_eq_ok_iff {steps : Emit Unit} {p : List Value → List Instr} {vs : List Value}
    (h : Emit.Emits steps p vs) {c : Chunk} :
    Emit.build (do steps; Emit.ret) = .ok c ↔
      (∀ i ∈ p [], i.operand ≤ Emit.maxOperand) ∧ c = ofPlan (p []) (poolOf [] vs) := by
  rw [Emit.build]
  by_cases hsmall : ∀ i ∈ p [], i.operand ≤ Emit.maxOperand
  · have hcode : (empty.extended (p []) vs).code.push Opcode.ret.byte =
        (assemble (p []) ++ [Opcode.ret.byte]).toArray := by
      apply Array.toList_inj.1
      simp [extended, empty]
    -- The return has no operand, so that adding it cannot fail.
    have hrun : (do steps; Emit.ret).run empty = (.ok (), ofPlan (p []) (poolOf [] vs)) := by
      rw [Tracked.run_bind_of_ok ((h empty).1 hsmall), Emit.ret,
        Tracked.run_bind_of_ok (Emit.run_op _ _), ofPlan, ← hcode]
      rfl
    rw [hrun]
    show Except.ok _ = Except.ok c ↔ _
    rw [Except.ok.injEq, eq_comm]
    exact ⟨fun hc => ⟨hsmall, hc⟩, fun hc => hc.2⟩
  · have hlarge : ∃ i ∈ p empty.constants, Emit.maxOperand < i.operand := by
      simpa [empty] using hsmall
    obtain ⟨n, left, hfails⟩ := (h empty).2 hlarge
    rw [Tracked.run_bind_of_error hfails]
    simp [hsmall]

/-- The only thing that can go wrong is an operand that is too large. -/
theorem build_eq_error {steps : Emit Unit} {p : List Value → List Instr} {vs : List Value}
    (h : Emit.Emits steps p vs) {f : Fault} (hf : Emit.build (do steps; Emit.ret) = .error f) :
    ∃ n, f = .operandRange n := by
  by_cases hsmall : ∀ i ∈ p [], i.operand ≤ Emit.maxOperand
  · rw [(build_eq_ok_iff h).2 ⟨hsmall, rfl⟩] at hf
    cases hf
  · have hlarge : ∃ i ∈ p empty.constants, Emit.maxOperand < i.operand := by
      simpa [empty] using hsmall
    obtain ⟨n, left, hfails⟩ := (h empty).2 hlarge
    rw [Emit.build, Tracked.run_bind_of_error hfails] at hf
    exact ⟨n, (Except.error.inj hf).symm⟩

theorem ofValue_eq_ok_iff {v : Value} {c : Chunk} :
    ofValue v = .ok c ↔
      (∀ i ∈ v.plan [], i.operand ≤ Emit.maxOperand) ∧
        c = ofPlan (v.plan []) (poolOf [] v.leaves) :=
  build_eq_ok_iff (Emit.emits_value v)

theorem ofValue_eq_error {v : Value} {f : Fault} (h : ofValue v = .error f) :
    ∃ n, f = .operandRange n :=
  build_eq_error (Emit.emits_value v) h

theorem ofCall_eq_ok_iff {target : Value} {args : List Value} {c : Chunk} :
    ofCall target args = .ok c ↔
      (∀ i ∈ callPlan target args, i.operand ≤ Emit.maxOperand) ∧
        c = ofPlan (callPlan target args) (callPool target args) := by
  have h := build_eq_ok_iff (c := c)
    ((Emit.emits_value (.list args)).bind (Emit.emits_callConstant target))
  rw [poolOf_append] at h
  simp only [bind_assoc] at h
  exact h

theorem ofCall_eq_error {target : Value} {args : List Value} {f : Fault}
    (h : ofCall target args = .error f) : ∃ n, f = .operandRange n := by
  have hemits := (Emit.emits_value (.list args)).bind (Emit.emits_callConstant target)
  refine build_eq_error hemits ?_
  simp only [bind_assoc]
  exact h

end Chunk

/-! ## Chunks that are built are well-formed -/

/-- Is a value built of parts of a kind, and of well-formed chunks that push such parts? -/
def Value.BuiltOf (Q : Value → Prop) (v : Value) : Prop := ∀ w ∈ v.leaves, Q w ∨ w.WellFormed Q

/-- Can code be emitted for a value so that it runs? Chunks in it have to be well-formed. -/
def Value.Emittable (v : Value) : Prop :=
  ∀ w ∈ v.leaves, w.Atomic ∨ w.WellFormed Value.Atomic

theorem Value.WellFormed.kind {pushable : Value → Prop} {v : Value} (h : v.WellFormed pushable) :
    v.kind = .chunk := by
  cases h
  rfl

/-- Well-formed code stays so when the constants that it may push are of another kind as well. -/
theorem Assembles.imp {p q : Value → Prop} {is : List Instr} {code : Array UInt8}
    {constants : List Value} (h : Assembles p is code constants)
    (hpq : ∀ v ∈ constants, p v → q v) : Assembles q is code constants where
  code_eq := h.code_eq
  fits i hi := by
    obtain ⟨hsmall, hfits⟩ := h.fits i hi
    refine ⟨hsmall, ?_⟩
    cases i with
    | push place =>
        obtain ⟨v, hv, hp⟩ := hfits
        exact ⟨v, hv, hpq v (List.mem_of_getElem? hv) hp⟩
    | _ => exact hfits
  height := h.height

theorem Value.WellFormed.imp {p q : Value → Prop} {v : Value} (h : v.WellFormed p)
    (hpq : ∀ w, p w → q w) : v.WellFormed q := by
  induction h with
  | chunk is h _ ih => exact .chunk is (h.imp fun w _ => hpq w) ih

section

variable {Q T : Value → Prop} {v w : Value} {args : List Value} {c : Chunk}

theorem Value.BuiltOf.list (h : ∀ v ∈ args, v.BuiltOf Q) : (Value.list args).BuiltOf Q :=
  forall_leaves_list.2 h

theorem Value.Emittable.list (h : ∀ v ∈ args, v.Emittable) : (Value.list args).Emittable :=
  forall_leaves_list.2 h

theorem Value.BuiltOf.emittable (hQ : PartKind Q) (h : v.BuiltOf Q) : v.Emittable :=
  fun w hw => (h w hw).imp hQ.atomic fun hwell => hwell.imp fun _ => hQ.atomic

theorem Value.MadeOf.builtOf (h : v.MadeOf Q) : v.BuiltOf Q := fun w hw => .inl (h w hw)

/-- What is pushed as it is among the leaves of a value is a part of the kind. -/
theorem Value.BuiltOf.part (h : v.BuiltOf Q) (hw : w ∈ v.leaves) (hatomic : w.Atomic) : Q w :=
  (h w hw).resolve_right fun hwell => hatomic.2 hwell.kind

/-- A chunk among the constants of an emitted value has what the chunks in the value have. -/
theorem Value.nested (h : ∀ w ∈ v.leaves, w.Atomic ∨ T w) {w : Value}
    (hw : w ∈ poolOf [] v.leaves) (hchunk : w.kind = .chunk) : T w := by
  rcases mem_poolOf hw with hw | hw
  · cases hw
  · exact (h w hw).resolve_left fun hatomic => hatomic.2 hchunk

theorem Value.nested_plan (h : ∀ w ∈ v.leaves, w.Atomic ∨ T w) {place : Nat} {w : Value}
    (hi : .enter place ∈ v.plan []) (hw : (poolOf [] v.leaves)[place]? = some w) : T w := by
  obtain ⟨w', hw', hchunk⟩ := v.planned List.prefix_rfl _ hi
  obtain rfl := Option.some.inj (hw.symm.trans hw')
  exact nested h (List.mem_of_getElem? hw) hchunk

theorem Value.assembles (hsmall : ∀ i ∈ v.plan [], i.operand ≤ Emit.maxOperand) :
    Assembles Value.Atomic (v.plan []) (Chunk.ofPlan (v.plan []) (poolOf [] v.leaves)).code
      (poolOf [] v.leaves) where
  code_eq := by simp [Chunk.ofPlan]
  fits i hi := (v.planned List.prefix_rfl i hi).fits (hsmall i hi)
  height := v.heightAfter_plan [] 0

theorem Value.BuiltOf.ofValue (hQ : PartKind Q) (h : v.BuiltOf Q) (hc : Chunk.ofValue v = .ok c) :
    c.toValue.WellFormed Q := by
  obtain ⟨hsmall, rfl⟩ := Chunk.ofValue_eq_ok_iff.1 hc
  refine .chunk _ ((Value.assembles hsmall).imp fun w hw hatomic => ?_) fun place w hi hw => ?_
  · exact h.part (by simpa using mem_poolOf hw) hatomic
  · exact Value.nested_plan (fun w hw => (h w hw).imp_left hQ.atomic) hi hw

theorem Value.Emittable.ofValue (h : v.Emittable) (hc : Chunk.ofValue v = .ok c) :
    c.toValue.WellFormed Value.Atomic :=
  BuiltOf.ofValue partKind_atomic h hc

theorem standIn_callable {pool : List Value} {f : Callable} :
    standIn pool (.callable f) = .callable f := by
  apply standIn_eq_self
  intro w _ hsame
  cases w with
  | callable g =>
      simp only [Value.sameConstant, Value.equals, Bool.and_eq_true, beq_iff_eq] at hsame
      rw [hsame.2]
  | _ => simp [Value.sameConstant, Value.equals] at hsame

namespace Chunk

variable {f : Callable}

theorem getElem?_callPool (args : List Value) (f : Callable) :
    (callPool (.callable f) args)[placeIn (poolOf [] (Value.leavesOfAll args)) (.callable f)]? =
      some (.callable f) := by
  rw [callPool, getElem?_placeIn, standIn_callable]

theorem planned_call (target : Value) (args : List Value) :
    ∀ i ∈ (Value.list args).plan [], i.Planned (callPool target args) :=
  (Value.list args).planned (prefix_pooled _ _)

theorem assembles_call (hsmall : ∀ i ∈ callPlan (.callable f) args, i.operand ≤ Emit.maxOperand) :
    Assembles Value.Atomic (callPlan (.callable f) args)
      (ofPlan (callPlan (.callable f) args) (callPool (.callable f) args)).code
      (callPool (.callable f) args) where
  code_eq := by simp [ofPlan]
  fits i hi := by
    rcases List.mem_append.1 hi with hi' | hi'
    · exact (planned_call _ args i hi').fits (hsmall i hi)
    · obtain rfl := List.mem_singleton.1 hi'
      exact ⟨hsmall _ hi, f, getElem?_callPool args f⟩
  height := by
    rw [callPlan, heightAfter_append, Value.heightAfter_plan]
    rfl

theorem nested_callPlan (h : ∀ w ∈ (Value.list args).leaves, w.Atomic ∨ T w) {place : Nat}
    {w : Value} (hi : .enter place ∈ callPlan (.callable f) args)
    (hw : (callPool (.callable f) args)[place]? = some w) : T w := by
  rcases List.mem_append.1 hi with hi | hi
  · obtain ⟨w', hw', hchunk⟩ := planned_call _ args _ hi
    obtain rfl := Option.some.inj (hw.symm.trans hw')
    rcases mem_pooled (List.mem_of_getElem? hw) with hmem | rfl
    · exact Value.nested h hmem hchunk
    · cases f <;> cases hchunk
  · cases List.mem_singleton.1 hi

end Chunk

theorem Chunk.mem_callPool {f : Callable} (hw : w ∈ callPool (.callable f) args) :
    w ∈ (Value.list args).leaves ∨ w = .callable f := by
  rcases mem_pooled hw with hw | hw
  · exact .inl (by simpa [Value.leaves] using mem_poolOf hw)
  · exact .inr hw

theorem Value.BuiltOf.ofCall (hQ : PartKind Q) (h : (Value.list args).BuiltOf Q) {f : Callable}
    (hc : Chunk.ofCall (.callable f) args = .ok c) : c.toValue.WellFormed Q := by
  obtain ⟨hsmall, rfl⟩ := Chunk.ofCall_eq_ok_iff.1 hc
  refine .chunk _ ((Chunk.assembles_call hsmall).imp fun w hw hatomic => ?_)
    fun place w hi hw => ?_
  · rcases Chunk.mem_callPool hw with hw | rfl
    · exact h.part hw hatomic
    · exact hQ.codeless (codeless_callable f)
  · exact Chunk.nested_callPlan (fun w hw => (h w hw).imp_left hQ.atomic) hi hw

theorem Value.Emittable.ofCall (h : (Value.list args).Emittable) {f : Callable}
    (hc : Chunk.ofCall (.callable f) args = .ok c) : c.toValue.WellFormed Value.Atomic :=
  BuiltOf.ofCall partKind_atomic h hc

end

end FormLang
