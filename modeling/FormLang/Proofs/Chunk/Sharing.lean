import FormLang.Proofs.Chunk.Emission
import FormLang.Proofs.Machine.Execution

set_option autoImplicit false

/-! # What built chunks come to

A compiled argument comes to the value in which each chunk is replaced by what it comes to
(`Value.expand`). A chunk that is built from arguments does not quite give that: constants are
shared, and what is pushed or run in the place of a part is the constant that stands for it. So the
arguments are replaced by their stand-ins first (`Value.sharedAll`), and this is all there is to it
(`Chunk.outcome_ofValue`, `Chunk.outcome_ofCall`).
-/

namespace FormLang

/-! ## Arguments -/

mutual
/-- What a compiled argument comes to: chunks are run, from left to right, and any other part is
itself. -/
def Value.expand (apply : Apply) : Value → Calling Value
  | .list items => do
    let vs ← Value.expandAll apply items
    return .list vs
  | .chunk code constants => (Value.chunk code constants).outcome apply
  | v => pure v

/-- What some compiled arguments come to. -/
def Value.expandAll (apply : Apply) : List Value → Calling (List Value)
  | [] => pure []
  | v :: rest => do
    let x ← v.expand apply
    let xs ← Value.expandAll apply rest
    return x :: xs
end

mutual
/-- The value in which the constants of a pool stand for the parts of a value. -/
def Value.shared (pool : List Value) : Value → Value
  | .list items => .list (Value.sharedAll pool items)
  | v => standIn pool v

/-- The values in which the constants of a pool stand for the parts of some values; parts get into
the pool as they come. -/
def Value.sharedAll (pool : List Value) : List Value → List Value
  | [] => []
  | v :: rest => v.shared pool :: Value.sharedAll (poolOf pool v.leaves) rest
end

namespace Value

variable {apply : Apply} {v : Value} {vs ws constants pool : List Value} {r r' : Record}

theorem shared_of_ne (h : v.kind ≠ .list) (pool : List Value) :
    v.shared pool = standIn pool v := by
  cases v with
  | list items => exact absurd rfl h
  | _ => rw [shared] <;> simp

theorem expand_of_atomic (h : v.Atomic) : v.expand apply = pure v := by
  cases v with
  | list items => exact absurd rfl h.1
  | chunk code constants => exact absurd rfl h.2
  | _ => rw [expand] <;> simp

theorem expand_of_kind_chunk (h : v.kind = .chunk) : v.expand apply = v.outcome apply := by
  obtain ⟨code, constants, rfl⟩ := exists_of_kind_chunk h
  rw [expand]

theorem expandAll_of_expand (h : ∀ v ∈ vs, v.expand apply = pure v) :
    expandAll apply vs = pure vs := by
  induction vs with
  | nil => rw [expandAll]
  | cons v vs ih =>
      rw [expandAll, h v (by simp), ih fun w hw => h w (by simp [hw])]
      rfl

/-- A value without chunks comes to itself. -/
theorem expand_of_madeOf (h : v.MadeOf Atomic) : v.expand apply = pure v := by
  induction v using leafInduction with
  | leaf v hv => exact expand_of_atomic ((forall_leaves_of_ne hv).1 h)
  | list items ih =>
      rw [expand, expandAll_of_expand fun v hv => ih v hv (madeOf_list.1 h v hv)]
      rfl

theorem length_expandAll (h : (expandAll apply vs).run r = (.ok ws, r')) :
    ws.length = vs.length := by
  induction vs generalizing ws r with
  | nil =>
      cases h
      rfl
  | cons v vs ih =>
      obtain ⟨x, r₁, -, h⟩ := Tracked.of_run_bind h
      obtain ⟨xs, r₂, h, hpure⟩ := Tracked.of_run_bind h
      cases hpure
      rw [List.length_cons, List.length_cons, ih h]

theorem length_sharedAll (pool vs : List Value) : (sharedAll pool vs).length = vs.length := by
  induction vs generalizing pool with
  | nil => rfl
  | cons v vs ih => rw [sharedAll, List.length_cons, List.length_cons, ih]

/-! ## Running a plan -/

theorem exec_plan_leaf (hv : v.kind ≠ .list) (hpool : pooled pool v <+: constants) :
    exec apply constants (v.plan pool) vs = (do
      let x ← (v.shared pool).expand apply
      return x :: vs) := by
  have hplace := getElem?_of_prefix hpool
  have hkind := kind_standIn pool v
  rw [shared_of_ne hv]
  by_cases hchunk : v.kind = .chunk
  · obtain ⟨code, cs, rfl⟩ := exists_of_kind_chunk hchunk
    rw [plan, exec, Instr.exec_enter hplace, expand_of_kind_chunk (hkind.trans hchunk)]
    simp [exec]
  · have hatomic : (standIn pool v).Atomic := ⟨by rwa [hkind], by rwa [hkind]⟩
    rw [plan_of_atomic ⟨hv, hchunk⟩, exec, Instr.exec_push hplace, expand_of_atomic hatomic]
    simp [exec]

theorem exec_planOfAll
    (h : ∀ v ∈ vs, ∀ pool ws, poolOf pool v.leaves <+: constants →
      exec apply constants (v.plan pool) ws = (do
        let x ← (v.shared pool).expand apply
        return x :: ws))
    (hpool : poolOf pool (leavesOfAll vs) <+: constants) :
    exec apply constants (planOfAll pool vs) ws = (do
      let xs ← expandAll apply (sharedAll pool vs)
      return xs.reverse ++ ws) := by
  induction vs generalizing pool ws with
  | nil => simp [planOfAll, sharedAll, expandAll, exec]
  | cons v vs ih =>
      -- The later values come into the pool that the first one leaves.
      rw [leavesOfAll, poolOf_append] at hpool
      have hv := h v (by simp) pool ws ((prefix_poolOf _ _).trans hpool)
      have hvs := fun ws => @ih ws _ (fun w hw => h w (by simp [hw])) hpool
      simp [planOfAll, sharedAll, expandAll, exec_append, hv, hvs]

/-- The code for a value pushes what its stand-in comes to, whatever constants come later. -/
theorem exec_plan (v : Value) (hpool : poolOf pool v.leaves <+: constants) :
    exec apply constants (v.plan pool) vs = (do
      let x ← (v.shared pool).expand apply
      return x :: vs) := by
  induction v using leafInduction generalizing pool vs with
  | leaf v hv =>
      rw [leaves_of_ne hv] at hpool
      exact exec_plan_leaf hv hpool
  | list items ih =>
      rw [plan, exec_append, exec_planOfAll (fun v hv pool ws hp => ih v hv hp) hpool, shared,
        expand]
      simp only [bind_assoc, pure_bind]
      -- As many values have been pushed as the list has elements, so it gathers just these.
      refine Tracked.bind_congr fun r xs r' hxs => ?_
      have hlength := (length_expandAll hxs).trans (length_sharedAll pool items)
      rw [exec, Instr.exec, pure_bind, exec, ← hlength]
      simp

end Value

/-! ## Running built chunks -/

namespace Chunk

variable {apply : Apply} {v : Value} {args : List Value} {f : Callable} {c : Chunk}

theorem outcome_ofValue (h : v.Emittable) (hc : ofValue v = .ok c) :
    c.toValue.outcome apply = (v.shared []).expand apply := by
  obtain ⟨hsmall, rfl⟩ := ofValue_eq_ok_iff.1 hc
  have hrun : (ofPlan (v.plan []) (poolOf [] v.leaves)).toValue.outcome apply =
      exec apply (poolOf [] v.leaves) (v.plan []) [] >>= topOf :=
    (Value.assembles hsmall).outcome_eq fun place w hi hw => (Value.nested_plan h hi hw).isolated
  rw [hrun, Value.exec_plan v List.prefix_rfl]
  simp [topOf]

/-- The function is called with what the stand-ins of the arguments come to. -/
theorem outcome_ofCall (h : (Value.list args).Emittable) (hc : ofCall (.callable f) args = .ok c) :
    c.toValue.outcome apply = (do
      let vs ← Value.expandAll apply (Value.sharedAll [] args)
      Calling.call apply f (.list vs)) := by
  obtain ⟨hsmall, rfl⟩ := ofCall_eq_ok_iff.1 hc
  have hrun : (ofPlan (callPlan (.callable f) args) (callPool (.callable f) args)).toValue.outcome
      apply = exec apply (callPool (.callable f) args) (callPlan (.callable f) args) [] >>= topOf :=
    (assembles_call hsmall).outcome_eq fun place w hi hw => (nested_callPlan h hi hw).isolated
  have hargs : exec apply (callPool (.callable f) args) ((Value.list args).plan []) [] = (do
      let x ← ((Value.list args).shared []).expand apply
      return [x]) := Value.exec_plan _ (prefix_pooled _ _)
  rw [hrun, callPlan, exec_append, hargs, Value.shared, Value.expand]
  simp [exec, Instr.exec_call (getElem?_callPool args f), topOf]

end Chunk

/-! ## Sharing that makes no difference -/

namespace Value

theorem sharedAll_eq_iff_of {vs pool : List Value}
    (h : ∀ v ∈ vs, ∀ pool, v.shared pool = v ↔ standIns pool v.leaves = v.leaves) :
    sharedAll pool vs = vs ↔ standIns pool (leavesOfAll vs) = leavesOfAll vs := by
  induction vs generalizing pool with
  | nil => simp [sharedAll, leavesOfAll, standIns]
  | cons v vs ih =>
      rw [sharedAll, leavesOfAll, standIns_append, List.cons.injEq, h v (by simp),
        ih fun w hw => h w (by simp [hw])]
      constructor
      · rintro ⟨hv, hvs⟩
        rw [hv, hvs]
      · intro happend
        exact List.append_inj happend (length_standIns pool v.leaves)

theorem shared_eq_iff (v : Value) (pool : List Value) :
    v.shared pool = v ↔ standIns pool v.leaves = v.leaves := by
  induction v using leafInduction generalizing pool with
  | leaf v hv => simp [shared_of_ne hv, leaves_of_ne hv, standIns]
  | list items ih =>
      rw [shared, leaves, list.injEq]
      exact sharedAll_eq_iff_of ih

/-- A value stands for itself just when none of its parts can stand for a different one. -/
theorem shared_nil_eq_iff (v : Value) :
    v.shared [] = v ↔ v.leaves.Pairwise fun w u => w.sameConstant u = true → w = u := by
  rw [shared_eq_iff, standIns_eq_iff List.Pairwise.nil]
  simp

theorem sharedAll_eq_iff (vs : List Value) :
    sharedAll [] vs = vs ↔
      (leavesOfAll vs).Pairwise fun v w => v.sameConstant w = true → v = w := by
  have hlist := shared_nil_eq_iff (.list vs)
  rwa [shared, leaves, list.injEq] at hlist

end Value

end FormLang
