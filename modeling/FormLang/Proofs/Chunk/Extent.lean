import FormLang.Proofs.Chunk.Emission

set_option autoImplicit false

/-! # Chunks that are small enough

Operands count the items of lists and the constants of a chunk. Neither can be more than there are
values in what is compiled (`Value.extent`), so a chunk is refused only when these are too many
(`Chunk.ofValue_eq_error_extent`, `Chunk.ofCall_eq_error_extent`).
-/

namespace FormLang

mutual
/-- How many values there are in a value. A chunk counts as one, whatever it is made of. -/
def Value.extent : Value → Nat
  | .list items => Value.extentOfAll items + 1
  | _ => 1

/-- How many values there are in some values. -/
def Value.extentOfAll : List Value → Nat
  | [] => 0
  | v :: rest => v.extent + Value.extentOfAll rest
end

section

variable {pool : List Value} {v : Value}

theorem placeIn_le (pool : List Value) (v : Value) : placeIn pool v ≤ pool.length := by
  obtain ⟨before, w, after, hpool, -, -, hplace, -, -⟩ | ⟨-, hplace, -, -⟩ := pool_cases pool v
  · rw [hplace, hpool, List.length_append]
    omega
  · omega

theorem length_pooled_le (pool : List Value) (v : Value) :
    (pooled pool v).length ≤ pool.length + 1 := by
  obtain ⟨_, _, _, -, -, -, -, hpooled, -⟩ | ⟨-, -, hpooled, -⟩ := pool_cases pool v
  · rw [hpooled]
    omega
  · simp [hpooled]

theorem length_poolOf_le (pool vs : List Value) :
    (poolOf pool vs).length ≤ pool.length + vs.length := by
  induction vs generalizing pool with
  | nil => exact Nat.le_refl _
  | cons v vs ih =>
      calc
        (poolOf (pooled pool v) vs).length ≤ (pooled pool v).length + vs.length := ih _
        _ ≤ pool.length + 1 + vs.length := Nat.add_le_add_right (length_pooled_le pool v) _
        _ = pool.length + (v :: vs).length := by
          rw [List.length_cons]
          omega

end

namespace Value

variable {v : Value} {vs pool : List Value}

theorem extentOfAll_append (vs ws : List Value) :
    extentOfAll (vs ++ ws) = extentOfAll vs + extentOfAll ws := by
  induction vs with
  | nil => simp [extentOfAll]
  | cons v vs ih =>
      rw [List.cons_append, extentOfAll, extentOfAll, ih]
      omega

theorem extentOfAll_reverse (vs : List Value) : extentOfAll vs.reverse = extentOfAll vs := by
  induction vs with
  | nil => rfl
  | cons v vs ih =>
      rw [List.reverse_cons, extentOfAll_append, ih]
      simp only [extentOfAll]
      omega

theorem extent_of_ne (h : v.kind ≠ .list) : v.extent = 1 := by
  cases v with
  | list items => exact absurd rfl h
  | _ => rfl

theorem extent_pos (v : Value) : 0 < v.extent := by
  cases v <;> simp [extent]

theorem length_le_extentOfAll (vs : List Value) : vs.length ≤ extentOfAll vs := by
  induction vs with
  | nil => exact Nat.le_refl _
  | cons v vs ih =>
      have hpos := extent_pos v
      rw [List.length_cons, extentOfAll]
      omega

theorem length_leavesOfAll_le (h : ∀ v ∈ vs, v.leaves.length ≤ v.extent) :
    (leavesOfAll vs).length ≤ extentOfAll vs := by
  induction vs with
  | nil => exact Nat.le_refl _
  | cons v vs ih =>
      rw [leavesOfAll, extentOfAll, List.length_append]
      exact Nat.add_le_add (h v (by simp)) (ih fun w hw => h w (by simp [hw]))

theorem length_leaves_le (v : Value) : v.leaves.length ≤ v.extent := by
  induction v using leafInduction with
  | leaf v hv => simp [leaves_of_ne hv, extent_of_ne hv]
  | list items ih => exact Nat.le_succ_of_le (length_leavesOfAll_le ih)

theorem operand_leaf_le (hv : v.kind ≠ .list) : ∀ i ∈ v.plan pool, i.operand ≤ pool.length := by
  intro i hi
  have hplace := placeIn_le pool v
  by_cases hchunk : v.kind = .chunk
  · obtain ⟨code, cs, rfl⟩ := exists_of_kind_chunk hchunk
    rw [plan, List.mem_singleton] at hi
    rwa [hi]
  · rw [plan_of_atomic ⟨hv, hchunk⟩, List.mem_singleton] at hi
    rwa [hi]

theorem operand_planOfAll_le
    (h : ∀ v ∈ vs, ∀ pool, ∀ i ∈ v.plan pool, i.operand ≤ pool.length + v.extent) :
    ∀ i ∈ planOfAll pool vs, i.operand ≤ pool.length + extentOfAll vs := by
  induction vs generalizing pool with
  | nil => simp [planOfAll]
  | cons v vs ih =>
      intro i hi
      rw [planOfAll, List.mem_append] at hi
      rw [extentOfAll]
      rcases hi with hi | hi
      · have hfirst := h v (by simp) pool i hi
        omega
      · have hrest := ih (fun w hw => h w (by simp [hw])) i hi
        have hpool := length_poolOf_le pool v.leaves
        have hleaves := length_leaves_le v
        omega

/-- The operands of what is emitted for a value are at most the number of constants there are
already and of the values in it. -/
theorem operand_plan_le (v : Value) (pool : List Value) :
    ∀ i ∈ v.plan pool, i.operand ≤ pool.length + v.extent := by
  induction v using leafInduction generalizing pool with
  | leaf v hv => exact fun i hi => Nat.le_add_right_of_le (operand_leaf_le hv i hi)
  | list items ih =>
      intro i hi
      rw [plan, List.mem_append, List.mem_singleton] at hi
      rw [extent]
      rcases hi with hi | rfl
      · have hitems := operand_planOfAll_le (fun w hw pool => ih w hw pool) i hi
        omega
      · have hlength := length_le_extentOfAll items
        show items.length ≤ _
        omega

end Value

namespace Chunk

theorem operand_callPlan_le (target : Value) (args : List Value) :
    ∀ i ∈ callPlan target args, i.operand ≤ (Value.list args).extent := by
  intro i hi
  rcases List.mem_append.1 hi with hi | hi
  · simpa using (Value.list args).operand_plan_le [] i hi
  · obtain rfl := List.mem_singleton.1 hi
    calc
      placeIn (poolOf [] (Value.leavesOfAll args)) target
      _ ≤ (poolOf [] (Value.leavesOfAll args)).length := placeIn_le _ _
      _ ≤ [].length + (Value.leavesOfAll args).length := length_poolOf_le _ _
      _ ≤ (Value.list args).extent := by
        rw [List.length_nil, Nat.zero_add]
        exact (Value.list args).length_leaves_le

/-- A value that is refused has many values in it. -/
theorem ofValue_eq_error_extent {v : Value} {f : Fault} (h : ofValue v = .error f) :
    (∃ n, f = .operandRange n) ∧ Emit.maxOperand < v.extent := by
  refine ⟨ofValue_eq_error h, ?_⟩
  by_contra hsmall
  have hfits : ∀ i ∈ v.plan [], i.operand ≤ Emit.maxOperand := fun i hi => by
    have hle := v.operand_plan_le [] i hi
    rw [List.length_nil] at hle
    omega
  rw [ofValue_eq_ok_iff.2 ⟨hfits, rfl⟩] at h
  cases h

/-- A call that is refused has many values in its arguments. -/
theorem ofCall_eq_error_extent {target : Value} {args : List Value} {f : Fault}
    (h : ofCall target args = .error f) :
    (∃ n, f = .operandRange n) ∧ Emit.maxOperand < (Value.list args).extent := by
  refine ⟨ofCall_eq_error h, ?_⟩
  by_contra hsmall
  have hfits : ∀ i ∈ callPlan target args, i.operand ≤ Emit.maxOperand := fun i hi => by
    have hle := operand_callPlan_le target args i hi
    omega
  rw [ofCall_eq_ok_iff.2 ⟨hfits, rfl⟩] at h
  cases h

end Chunk

end FormLang
