import FormLang.Proofs.Chunk.Extent

set_option autoImplicit false

/-! # The limits of operands

An operand has 16 bits. It is either the length of a list, which can be 65535 at most, or the place
of a constant, so that there can be 65536 constants. What goes beyond one of these limits is refused,
and nothing else is (`Value.operands_fit_iff`). What is not refused can be read from the code again,
operand by operand (`Chunk.Decodes`).
-/

namespace FormLang

/-! ## What has to fit -/

mutual
/-- How many elements the lists in a value have, among them the value itself if it is one. The
lists in a chunk do not count. -/
def Value.listLengths : Value → List Nat
  | .list items => items.length :: Value.listLengthsOfAll items
  | _ => []

/-- How many elements the lists in some values have. -/
def Value.listLengthsOfAll : List Value → List Nat
  | [] => []
  | v :: rest => v.listLengths ++ Value.listLengthsOfAll rest
end

/-- Can all the places in the pool be operands? -/
def PoolFits (pool : List Value) : Prop := pool.length ≤ Emit.maxOperand + 1

section

variable {v : Value} {vs pool : List Value}

theorem PoolFits.of_prefix {later : List Value} (h : PoolFits later) (hgrown : pool <+: later) :
    PoolFits pool :=
  Nat.le_trans hgrown.length_le h

/-- The place of a value fits just when the pool with the value in it does. -/
theorem placeIn_fits_iff (h : PoolFits pool) :
    placeIn pool v ≤ Emit.maxOperand ↔ PoolFits (pooled pool v) := by
  unfold PoolFits at h ⊢
  obtain ⟨before, w, after, hpool, -, -, hplace, hpooled, -⟩ | ⟨-, hplace, hpooled, -⟩ :=
    pool_cases pool v
  · -- The pool stays as it is, and the place in it is one of those that fit already.
    rw [hpool, List.length_append, List.length_cons] at h
    rw [hplace, hpooled, hpool, List.length_append, List.length_cons]
    omega
  · rw [hplace, hpooled, List.length_append, List.length_singleton]
    omega

namespace Value

theorem listLengths_of_ne (h : v.kind ≠ .list) : v.listLengths = [] := by
  cases v with
  | list items => exact absurd rfl h
  | _ => rfl

/-- A part that is pushed or run has one operand, its place. -/
theorem operands_leaf (h : v.kind ≠ .list) :
    (v.plan pool).map Instr.operand = [placeIn pool v] := by
  by_cases hchunk : v.kind = .chunk
  · obtain ⟨code, constants, rfl⟩ := exists_of_kind_chunk hchunk
    rfl
  · rw [plan_of_atomic ⟨h, hchunk⟩]
    rfl

theorem operands_leaf_fit_iff (hv : v.kind ≠ .list) (h : PoolFits pool) :
    (∀ i ∈ v.plan pool, i.operand ≤ Emit.maxOperand) ↔ PoolFits (poolOf pool v.leaves) := by
  have hplan : (∀ i ∈ v.plan pool, i.operand ≤ Emit.maxOperand) ↔
      ∀ n ∈ (v.plan pool).map Instr.operand, n ≤ Emit.maxOperand := by
    rw [List.forall_mem_map]
  rw [hplan, operands_leaf hv, leaves_of_ne hv, List.forall_mem_singleton]
  exact placeIn_fits_iff h

theorem operands_all_fit_iff
    (hvs : ∀ v ∈ vs, ∀ pool, PoolFits pool →
      ((∀ i ∈ v.plan pool, i.operand ≤ Emit.maxOperand) ↔
        (∀ n ∈ v.listLengths, n ≤ Emit.maxOperand) ∧ PoolFits (poolOf pool v.leaves)))
    (h : PoolFits pool) :
    (∀ i ∈ planOfAll pool vs, i.operand ≤ Emit.maxOperand) ↔
      (∀ n ∈ listLengthsOfAll vs, n ≤ Emit.maxOperand) ∧
        PoolFits (poolOf pool (leavesOfAll vs)) := by
  induction vs generalizing pool with
  | nil =>
      rw [planOfAll, listLengthsOfAll, leavesOfAll, poolOf]
      simp [h]
  | cons v vs ih =>
      rw [planOfAll, listLengthsOfAll, leavesOfAll, poolOf_append, List.forall_mem_append,
        List.forall_mem_append, hvs v List.mem_cons_self pool h]
      have hrest := @ih (poolOf pool v.leaves) fun w hw => hvs w (List.mem_cons_of_mem _ hw)
      constructor
      · rintro ⟨⟨hlists, hpool⟩, hplan⟩
        obtain ⟨hmore, hlater⟩ := (hrest hpool).1 hplan
        exact ⟨⟨hlists, hmore⟩, hlater⟩
      · -- The pool that the first value leaves fits, since it can only grow later.
        rintro ⟨⟨hlists, hmore⟩, hlater⟩
        have hpool := hlater.of_prefix (prefix_poolOf _ _)
        exact ⟨⟨hlists, hpool⟩, (hrest hpool).2 ⟨hmore, hlater⟩⟩

/-- All operands for a value fit just when the lists in it are short enough and there are places
for all of its parts. -/
theorem operands_fit_iff (v : Value) (h : PoolFits pool) :
    (∀ i ∈ v.plan pool, i.operand ≤ Emit.maxOperand) ↔
      (∀ n ∈ v.listLengths, n ≤ Emit.maxOperand) ∧ PoolFits (poolOf pool v.leaves) := by
  induction v using leafInduction generalizing pool with
  | leaf v hv =>
      rw [operands_leaf_fit_iff hv h, listLengths_of_ne hv]
      simp
  | list items ih =>
      rw [plan, listLengths, leaves, List.forall_mem_append, List.forall_mem_singleton,
        List.forall_mem_cons, operands_all_fit_iff (fun v hv pool hpool => ih v hv hpool) h]
      exact and_right_comm.trans (and_congr_left' and_comm)

end Value

end

/-! ## Reading operands back -/

/-- Do the machine's reads of the code give the instructions with their operands, one after the
other, and the return at the end? -/
structure Chunk.Decodes (c : Chunk) (is : List Instr) : Prop where
  opcode : ∀ k i, is[k]? = some i → c.code[3 * k]? = some i.opcode.byte
  operand : ∀ k i, is[k]? = some i → operandAt? c.code (3 * k + 1) = some i.operand
  ret : c.code[3 * is.length]? = some Opcode.ret.byte
  size : c.code.size = 3 * is.length + 1

section

variable {is : List Instr} {constants : List Value}

/-- The bytes of an instruction stand behind those of the ones before it. -/
theorem exists_assemble_eq {k : Nat} {i : Instr} (h : is[k]? = some i) :
    ∃ before after, assemble is = before ++ i.bytes ++ after ∧ before.length = 3 * k := by
  obtain ⟨hlt, rfl⟩ := List.getElem?_eq_some_iff.1 h
  refine ⟨assemble (is.take k), assemble (is.drop (k + 1)), ?_, ?_⟩
  · have hsplit : is = is.take k ++ is[k] :: is.drop (k + 1) := by simp
    rw [List.append_assoc, ← assemble_cons, ← assemble_append, ← hsplit]
  · rw [length_assemble, List.length_take, Nat.min_eq_left (Nat.le_of_lt hlt)]

theorem Chunk.decodes_ofPlan (h : ∀ i ∈ is, i.operand ≤ Emit.maxOperand) :
    (Chunk.ofPlan is constants).Decodes is where
  opcode k i hi := by
    obtain ⟨before, after, hcode, hlength⟩ := exists_assemble_eq hi
    have hbytes : (ofPlan is constants).code.toList =
        before ++ i.opcode.byte :: (i.bytes.tail ++ after ++ [Opcode.ret.byte]) := by
      simp [ofPlan, hcode, Instr.bytes]
    exact byte_at before hbytes hlength.symm
  operand k i hi := by
    obtain ⟨before, after, hcode, hlength⟩ := exists_assemble_eq hi
    have hbytes : (ofPlan is constants).code.toList =
        before ++ i.bytes ++ (after ++ [Opcode.ret.byte]) := by
      simp [ofPlan, hcode]
    exact operand_at before hbytes hlength.symm (h i (List.mem_of_getElem? hi))
  ret := by
    have hbytes : (ofPlan is constants).code.toList = assemble is ++ Opcode.ret.byte :: [] := by
      simp [ofPlan]
    exact byte_at (assemble is) hbytes (length_assemble is).symm
  size := by simp [ofPlan, length_assemble]

end

/-! ## Refused beyond the limits -/

/-- Is one of the lists too long for an operand, or are there too many constants? -/
def OverLimit (lengths : List Nat) (pool : List Value) : Prop :=
  (∃ n ∈ lengths, Emit.maxOperand < n) ∨ Emit.maxOperand + 1 < pool.length

theorem overLimit_iff {lengths : List Nat} {pool : List Value} :
    OverLimit lengths pool ↔ ¬((∀ n ∈ lengths, n ≤ Emit.maxOperand) ∧ PoolFits pool) := by
  rw [not_and_or, OverLimit, PoolFits, Nat.not_le]
  simp

namespace Chunk

theorem poolFits_nil : PoolFits [] := Nat.zero_le _

theorem callPlan_fits_iff (target : Value) (args : List Value) :
    (∀ i ∈ callPlan target args, i.operand ≤ Emit.maxOperand) ↔
      (∀ n ∈ (Value.list args).listLengths, n ≤ Emit.maxOperand) ∧
        PoolFits (callPool target args) := by
  rw [callPlan, List.forall_mem_append, List.forall_mem_singleton,
    Value.operands_fit_iff _ poolFits_nil, callPool, Value.leaves]
  constructor
  · rintro ⟨⟨hlists, hpool⟩, hplace⟩
    exact ⟨hlists, (placeIn_fits_iff hpool).1 hplace⟩
  · rintro ⟨hlists, hcall⟩
    have hpool := hcall.of_prefix (prefix_pooled _ target)
    exact ⟨⟨hlists, hpool⟩, (placeIn_fits_iff hpool).2 hcall⟩

/-- Is building refused just when a limit is exceeded, and is it the code of the instructions over
the constants that is built otherwise? -/
structure Limited (result : Except Fault Chunk) (is : List Instr) (lengths : List Nat)
    (pool : List Value) : Prop where
  refused : (∃ n, result = .error (.operandRange n)) ↔ OverLimit lengths pool
  built : ∀ c, result = .ok c → c.constants = pool ∧ c.Decodes is
  total : (∃ c, result = .ok c) ∨ ∃ n, result = .error (.operandRange n)

theorem limited_of {result : Except Fault Chunk} {is : List Instr} {lengths : List Nat}
    {pool : List Value}
    (hok : ∀ {c}, result = .ok c ↔
      (∀ i ∈ is, i.operand ≤ Emit.maxOperand) ∧ c = ofPlan is pool)
    (herror : ∀ {f}, result = .error f → ∃ n, f = .operandRange n)
    (hfits : (∀ i ∈ is, i.operand ≤ Emit.maxOperand) ↔
      (∀ n ∈ lengths, n ≤ Emit.maxOperand) ∧ PoolFits pool) :
    Limited result is lengths pool := by
  cases hresult : result with
  | ok c =>
      obtain ⟨hsmall, rfl⟩ := hok.1 hresult
      refine ⟨iff_of_false (by simp) fun hover => ?_, fun c hc => ?_, .inl ⟨_, rfl⟩⟩
      · exact overLimit_iff.1 hover (hfits.1 hsmall)
      · cases hc
        exact ⟨rfl, decodes_ofPlan hsmall⟩
  | error f =>
      obtain ⟨n, rfl⟩ := herror hresult
      refine ⟨iff_of_true ⟨n, rfl⟩ (overLimit_iff.2 fun hfit => ?_), fun c hc => ?_,
        .inr ⟨n, rfl⟩⟩
      · have hbuilt := hok.2 ⟨hfits.2 hfit, rfl⟩
        cases hresult.symm.trans hbuilt
      · cases hc

/-- Code for a value and for a call of it is refused just beyond the limits, where the constant that
is called comes in last; what is built has the operands that were emitted. -/
theorem refused_beyond_limits (v target : Value) (args : List Value) :
    Limited (ofValue v) (v.plan []) v.listLengths (poolOf [] v.leaves) ∧
      Limited (ofCall target args) (callPlan target args) (Value.list args).listLengths
        (callPool target args) :=
  ⟨limited_of ofValue_eq_ok_iff ofValue_eq_error (v.operands_fit_iff poolFits_nil),
    limited_of ofCall_eq_ok_iff ofCall_eq_error (callPlan_fits_iff target args)⟩

end Chunk

end FormLang
