import FormLang.Proofs.Chunk.Pool
import FormLang.Proofs.Machine.Instruction

set_option autoImplicit false

/-! # Plans

The code for a compiled argument is a row of instructions that can be said beforehand: one for each
part that becomes a constant, at the place that the pool gives it, and one for each list
(`Value.plan`). All of them name constants of the right kinds (`Value.planned`), and together they
leave one value more (`Value.heightAfter_plan`).
-/

namespace FormLang

/-! ## Leaves -/

/-- Neither a list nor a chunk: a value that is pushed as it is. -/
def Value.Atomic (v : Value) : Prop := v.kind ≠ .list ∧ v.kind ≠ .chunk

theorem Value.atomic_text (s : String) : (Value.text s).Atomic :=
  ⟨by simp [kind], by simp [kind]⟩

theorem Value.atomic_truth (b : Bool) : (Value.truth b).Atomic :=
  ⟨by simp [kind], by simp [kind]⟩

theorem Value.atomic_number (n : Numeral) : (Value.number n).Atomic := by
  cases n <;> exact ⟨by simp [kind], by simp [kind]⟩

theorem Value.atomic_captured (code : List Node) : (Value.captured code).Atomic :=
  ⟨by simp [kind], by simp [kind]⟩

theorem Value.atomic_callable (f : Callable) : (Value.callable f).Atomic := by
  cases f <;> exact ⟨by simp [kind], by simp [kind]⟩

mutual
/-- The parts of a value that become constants: all but lists, of which the elements do. -/
def Value.leaves : Value → List Value
  | .list items => Value.leavesOfAll items
  | v => [v]

/-- The parts of some values that become constants. -/
def Value.leavesOfAll : List Value → List Value
  | [] => []
  | v :: rest => v.leaves ++ Value.leavesOfAll rest
end

mutual
/-- The instructions that are emitted for a value when the chunk has some constants already. -/
def Value.plan (pool : List Value) : Value → List Instr
  | .list items => Value.planOfAll pool items ++ [.gather items.length]
  | .chunk code constants => [.enter (placeIn pool (.chunk code constants))]
  | v => [.push (placeIn pool v)]

/-- The instructions that are emitted for some values, one after the other. -/
def Value.planOfAll (pool : List Value) : List Value → List Instr
  | [] => []
  | v :: rest => v.plan pool ++ Value.planOfAll (poolOf pool v.leaves) rest
end

namespace Value

/-- Lists are made of other values, down to leaves. -/
@[elab_as_elim]
theorem leafInduction {P : Value → Prop} (leaf : ∀ v : Value, v.kind ≠ .list → P v)
    (list : ∀ items, (∀ v ∈ items, P v) → P (.list items)) (v : Value) : P v := by
  by_cases hv : v.kind = .list
  · cases v with
    | list items => exact list items fun w _ => leafInduction leaf list w
    | number n => cases n <;> cases hv
    | callable f => cases f <;> cases hv
    | _ => cases hv
  · exact leaf v hv
  termination_by sizeOf v
  decreasing_by
    have := List.sizeOf_lt_of_mem ‹w ∈ items›
    simp only [Value.list.sizeOf_spec]
    omega

theorem exists_of_kind_chunk {v : Value} (h : v.kind = .chunk) :
    ∃ code constants, v = .chunk code constants := by
  cases v with
  | chunk code constants => exact ⟨code, constants, rfl⟩
  | number n => cases n <;> cases h
  | callable f => cases f <;> cases h
  | _ => cases h

theorem exists_of_kind_truth {v : Value} (h : v.kind = .truth) : ∃ b, v = .truth b := by
  cases v with
  | truth b => exact ⟨b, rfl⟩
  | number n => cases n <;> cases h
  | callable f => cases f <;> cases h
  | _ => cases h

variable {v : Value}

theorem leaves_of_ne (h : v.kind ≠ .list) : v.leaves = [v] := by
  cases v with
  | list items => exact absurd rfl h
  | _ => rfl

theorem plan_of_atomic (h : v.Atomic) (pool : List Value) :
    v.plan pool = [.push (placeIn pool v)] := by
  cases v with
  | list items => exact absurd rfl h.1
  | chunk code constants => exact absurd rfl h.2
  | _ => rw [plan] <;> simp

theorem forall_leaves_of_ne {P : Value → Prop} (h : v.kind ≠ .list) :
    (∀ w ∈ v.leaves, P w) ↔ P v := by
  simp [leaves_of_ne h]

theorem leavesOfAll_eq_flatMap (vs : List Value) : leavesOfAll vs = vs.flatMap leaves := by
  induction vs with
  | nil => rfl
  | cons v vs ih => simp [leavesOfAll, ih]

theorem forall_leaves_list {P : Value → Prop} {vs : List Value} :
    (∀ w ∈ (Value.list vs).leaves, P w) ↔ ∀ v ∈ vs, ∀ w ∈ v.leaves, P w := by
  rw [leaves, leavesOfAll_eq_flatMap]
  constructor
  · intro h v hv w hw
    exact h w (List.mem_flatMap.2 ⟨v, hv, hw⟩)
  · intro h w hw
    obtain ⟨v, hv, hw⟩ := List.mem_flatMap.1 hw
    exact h v hv w hw

end Value

/-! ## What values are made of -/

/-- Is all that a value consists of, apart from lists, of a kind? -/
def Value.MadeOf (Q : Value → Prop) (v : Value) : Prop := ∀ w ∈ v.leaves, Q w

/-- A value without parts that holds no code either. -/
def Value.Codeless (v : Value) : Prop := v.Atomic ∧ v.kind ≠ .captured

/-- A kind of parts: no lists or chunks are of the kind, and all values without code are. -/
structure PartKind (Q : Value → Prop) : Prop where
  atomic : ∀ {v : Value}, Q v → v.Atomic
  codeless : ∀ {v : Value}, v.Codeless → Q v

theorem partKind_atomic : PartKind Value.Atomic := ⟨id, And.left⟩

/-- A value without parts that holds only code with a property, if it holds any. -/
def Value.Holding (S : List Node → Prop) (v : Value) : Prop :=
  v.Atomic ∧ ∀ code, v = .captured code → S code

theorem partKind_holding (S : List Node → Prop) : PartKind (Value.Holding S) where
  atomic := And.left
  codeless h := ⟨h.1, fun _ hcode => absurd (congrArg Value.kind hcode) h.2⟩

namespace Value

theorem holding_captured {S : List Node → Prop} {code : List Node} :
    (Value.captured code).Holding S ↔ S code := by
  refine ⟨fun h => h.2 code rfl, fun h => ⟨atomic_captured code, fun _ hcode => ?_⟩⟩
  rwa [← Value.captured.inj hcode]

variable {Q : Value → Prop} {v : Value} {vs : List Value}

theorem codeless_nothing : Value.nothing.Codeless :=
  ⟨⟨by simp [kind], by simp [kind]⟩, by simp [kind]⟩

theorem codeless_truth (b : Bool) : (Value.truth b).Codeless := ⟨atomic_truth b, by simp [kind]⟩

theorem codeless_text (s : String) : (Value.text s).Codeless := ⟨atomic_text s, by simp [kind]⟩

theorem codeless_number (n : Numeral) : (Value.number n).Codeless :=
  ⟨atomic_number n, by cases n <;> simp [kind]⟩

theorem codeless_callable (f : Callable) : (Value.callable f).Codeless :=
  ⟨atomic_callable f, by cases f <;> simp [kind]⟩

theorem madeOf_of (hQ : PartKind Q) (h : Q v) : v.MadeOf Q :=
  (forall_leaves_of_ne (hQ.atomic h).1).2 h

theorem MadeOf.imp {Q' : Value → Prop} (h : v.MadeOf Q) (hQ : ∀ w, Q w → Q' w) : v.MadeOf Q' :=
  fun w hw => hQ w (h w hw)

theorem madeOf_list : (Value.list vs).MadeOf Q ↔ ∀ v ∈ vs, v.MadeOf Q := forall_leaves_list

end Value

/-! ## Plans -/

/-- Does an instruction of a plan name a constant of the right kind? -/
def Instr.Planned (constants : List Value) : Instr → Prop
  | .push place => ∃ v, constants[place]? = some v ∧ v.Atomic
  | .gather _ => True
  | .call _ => False
  | .enter place => ∃ v, constants[place]? = some v ∧ v.kind = .chunk

theorem Instr.Planned.fits {i : Instr} {constants : List Value} (h : i.Planned constants)
    (hsmall : i.operand ≤ 0xFFFF) : i.Fits Value.Atomic constants := by
  refine ⟨hsmall, ?_⟩
  cases i with
  | push place => exact h
  | gather count => trivial
  | call place => exact h.elim
  | enter place =>
      obtain ⟨v, hv, -⟩ := h
      exact ⟨v, hv⟩

namespace Value

variable {v : Value} {vs constants pool : List Value} {i : Instr}

/-- The constant at the place of a value in a pool that has grown. -/
theorem getElem?_of_prefix (h : pooled pool v <+: constants) :
    constants[placeIn pool v]? = some (standIn pool v) := by
  obtain ⟨later, rfl⟩ := h
  have hplace := getElem?_placeIn pool v
  obtain ⟨hlt, -⟩ := List.getElem?_eq_some_iff.1 hplace
  rw [List.getElem?_append_left hlt, hplace]

theorem planned_leaf (hv : v.kind ≠ .list) (hpool : pooled pool v <+: constants) :
    ∀ i ∈ v.plan pool, i.Planned constants := by
  intro i hi
  -- What stands for a part is of the same kind, so the instruction is right for it too.
  have hplace := getElem?_of_prefix hpool
  have hkind := kind_standIn pool v
  by_cases hchunk : v.kind = .chunk
  · obtain ⟨code, cs, rfl⟩ := exists_of_kind_chunk hchunk
    rw [plan, List.mem_singleton] at hi
    subst hi
    exact ⟨_, hplace, hkind⟩
  · rw [plan_of_atomic ⟨hv, hchunk⟩, List.mem_singleton] at hi
    subst hi
    exact ⟨_, hplace, by rwa [hkind], by rwa [hkind]⟩

theorem planned_all
    (h : ∀ v ∈ vs, ∀ pool, poolOf pool v.leaves <+: constants →
      ∀ i ∈ v.plan pool, i.Planned constants)
    (hpool : poolOf pool (leavesOfAll vs) <+: constants) :
    ∀ i ∈ planOfAll pool vs, i.Planned constants := by
  induction vs generalizing pool with
  | nil => simp [planOfAll]
  | cons v vs ih =>
      rw [leavesOfAll, poolOf_append] at hpool
      intro i hi
      rw [planOfAll, List.mem_append] at hi
      rcases hi with hi | hi
      · exact h v (by simp) pool ((prefix_poolOf _ _).trans hpool) i hi
      · exact ih (fun w hw => h w (by simp [hw])) hpool i hi

/-- All that is emitted for a value names constants of the right kinds, whatever constants come
later. -/
theorem planned (v : Value) (hpool : poolOf pool v.leaves <+: constants) :
    ∀ i ∈ v.plan pool, i.Planned constants := by
  induction v using leafInduction generalizing pool with
  | leaf v hv =>
      rw [leaves_of_ne hv] at hpool
      exact planned_leaf hv hpool
  | list items ih =>
      intro i hi
      rw [plan, List.mem_append, List.mem_singleton] at hi
      rcases hi with hi | rfl
      · exact planned_all (fun v hv pool hp => ih v hv hp) hpool i hi
      · trivial

theorem heightAfter_planOfAll
    (h : ∀ v ∈ vs, ∀ pool n, heightAfter (v.plan pool) n = some (n + 1)) (pool : List Value)
    (n : Nat) : heightAfter (planOfAll pool vs) n = some (n + vs.length) := by
  induction vs generalizing pool n with
  | nil => rfl
  | cons v vs ih =>
      rw [planOfAll, heightAfter_append, h v (by simp), Option.bind_some,
        ih (fun w hw => h w (by simp [hw])), List.length_cons]
      congr 1
      omega

/-- What is emitted for a value leaves one value more. -/
theorem heightAfter_plan (v : Value) (pool : List Value) (n : Nat) :
    heightAfter (v.plan pool) n = some (n + 1) := by
  induction v using leafInduction generalizing pool n with
  | leaf v hv =>
      by_cases hchunk : v.kind = .chunk
      · obtain ⟨code, cs, rfl⟩ := exists_of_kind_chunk hchunk
        rfl
      · rw [plan_of_atomic ⟨hv, hchunk⟩]
        rfl
  | list items ih =>
      rw [plan, heightAfter_append, heightAfter_planOfAll ih, Option.bind_some]
      have hgather : (Instr.gather items.length).height (n + items.length) = some (n + 1) := by
        rw [Instr.height, if_pos (Nat.le_add_left _ _)]
        congr 1
        omega
      rw [heightAfter, hgather]
      rfl

end Value

end FormLang
