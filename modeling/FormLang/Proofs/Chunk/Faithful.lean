import FormLang.Proofs.Chunk.Listing
import FormLang.Proofs.Chunk.Sharing

set_option autoImplicit false

/-! # Arguments that sharing does not change

Where equal numbers are identical, so is everything that can stand for something else. Arguments
over such numbers are *faithful*: the chunk that is built from them comes to what the arguments
themselves say, its constants included, and it can be built into other chunks in turn.
-/

namespace FormLang

namespace Value

variable {S : Value → Prop} {v : Value} {vs : List Value}

/-- A compiled argument that is kept as it is when it is built into a chunk. -/
structure Faithful (S : Value → Prop) (v : Value) : Prop where
  emittable : v.Emittable
  isOver : v.Over S
  listable : ∀ w ∈ v.leaves, w.Listable

theorem over_of_mem_leaves (h : v.Over S) : ∀ w ∈ v.leaves, w.Over S := by
  induction v using leafInduction with
  | leaf v hv => exact (forall_leaves_of_ne hv).2 h
  | list items ih => exact forall_leaves_list.2 fun v hv => ih v hv (allOver_iff.1 h v hv)

/-- Over separated numbers a value stands for itself. -/
theorem shared_eq_self (hS : Separated S) (h : v.Over S) : v.shared [] = v := by
  refine (shared_nil_eq_iff v).2 ?_
  -- Parts that can stand for each other are made over separated numbers, hence identical.
  have hpair : ∀ w ∈ v.leaves, ∀ u ∈ v.leaves, w.sameConstant u = true → w = u :=
    fun w hw u hu => eq_of_sameConstant hS (over_of_mem_leaves h w hw) (over_of_mem_leaves h u hu)
  exact List.pairwise_of_forall_mem_list hpair

theorem faithful_of_atomic (h : v.Atomic) (hover : v.Over S) (hwritable : v.writable = true) :
    v.Faithful S where
  emittable := (forall_leaves_of_ne h.1).2 (.inl h)
  isOver := hover
  listable := (forall_leaves_of_ne h.1).2 (listable_of_writable h.2 hwritable)

theorem Faithful.list (h : ∀ v ∈ vs, v.Faithful S) : (Value.list vs).Faithful S where
  emittable := .list fun v hv => (h v hv).emittable
  isOver := allOver_iff.2 fun v hv => (h v hv).isOver
  listable := forall_leaves_list.2 fun v hv => (h v hv).listable

/-! ## Values without chunks -/

theorem allWritable_iff :
    allWritable vs = true ↔ ∀ v ∈ vs, v.writable = true := by
  induction vs with
  | nil => simp [allWritable]
  | cons v vs ih => simp [allWritable, ih]

theorem listable_of_madeOf (h : v.MadeOf Atomic) (hwritable : v.writable = true) :
    ∀ w ∈ v.leaves, w.Listable := by
  induction v using leafInduction with
  | leaf v hv =>
      have hatomic := (forall_leaves_of_ne hv).1 h
      exact (forall_leaves_of_ne hv).2 (listable_of_writable hatomic.2 hwritable)
  | list items ih =>
      rw [writable] at hwritable
      have hitems := allWritable_iff.1 hwritable
      exact forall_leaves_list.2 fun v hv => ih v hv (madeOf_list.1 h v hv) (hitems v hv)

end Value

/-! ## Building faithful arguments into chunks -/

namespace Chunk

variable {S : Value → Prop} {apply : Apply} {v : Value} {args : List Value} {f : Callable}
  {c : Chunk}

theorem faithful_toValue (hwell : c.toValue.WellFormed Value.Atomic)
    (hconstants : ∀ w ∈ c.constants, w.Over S) (hlistable : c.toValue.Listable) :
    c.toValue.Faithful S where
  emittable := (Value.forall_leaves_of_ne c.kind_toValue).2 (.inr hwell)
  isOver := Value.allOver_iff.2 hconstants
  listable := (Value.forall_leaves_of_ne c.kind_toValue).2 hlistable

theorem listable_ofValue (h : ∀ w ∈ v.leaves, w.Listable) (hc : ofValue v = .ok c) :
    c.toValue.Listable := by
  obtain ⟨hsmall, rfl⟩ := ofValue_eq_ok_iff.1 hc
  exact (Value.assembles hsmall).listable fun w hw => h w (by simpa using mem_poolOf hw)

theorem listable_ofCall (h : ∀ w ∈ (Value.list args).leaves, w.Listable)
    (hc : ofCall (.callable f) args = .ok c) : c.toValue.Listable := by
  obtain ⟨hsmall, rfl⟩ := ofCall_eq_ok_iff.1 hc
  refine (assembles_call hsmall).listable fun w hw => ?_
  rcases mem_callPool hw with hw | rfl
  · exact h w hw
  · exact Value.listable_of_writable (Value.atomic_callable f).2 (by simp [Value.writable])

theorem faithful_ofValue (h : v.Faithful S) (hc : ofValue v = .ok c) : c.toValue.Faithful S := by
  have hwell := h.emittable.ofValue hc
  have hlistable := listable_ofValue h.listable hc
  obtain ⟨hsmall, rfl⟩ := ofValue_eq_ok_iff.1 hc
  refine faithful_toValue hwell (fun w hw => ?_) hlistable
  exact Value.over_of_mem_leaves h.isOver w (by simpa using mem_poolOf hw)

theorem faithful_ofCall (h : ∀ v ∈ args, v.Faithful S) (hc : ofCall (.callable f) args = .ok c) :
    c.toValue.Faithful S := by
  have hlist := Value.Faithful.list h
  have hwell := hlist.emittable.ofCall hc
  have hlistable := listable_ofCall hlist.listable hc
  obtain ⟨hsmall, rfl⟩ := ofCall_eq_ok_iff.1 hc
  refine faithful_toValue hwell (fun w hw => ?_) hlistable
  rcases mem_callPool hw with hw | rfl
  · exact Value.over_of_mem_leaves hlist.isOver w hw
  · trivial

theorem outcome_of_faithful (hS : Separated S) (h : v.Faithful S) (hc : ofValue v = .ok c) :
    c.toValue.outcome apply = v.expand apply := by
  rw [outcome_ofValue h.emittable hc, Value.shared_eq_self hS h.isOver]

theorem outcome_call_of_faithful (hS : Separated S) (h : ∀ v ∈ args, v.Faithful S)
    (hc : ofCall (.callable f) args = .ok c) :
    c.toValue.outcome apply = (do
      let vs ← Value.expandAll apply args
      Calling.call apply f (.list vs)) := by
  have hlist := Value.Faithful.list h
  have hshared : Value.sharedAll [] args = args := by
    have := Value.shared_eq_self hS hlist.isOver
    rwa [Value.shared, Value.list.injEq] at this
  rw [outcome_ofCall hlist.emittable hc, hshared]

end Chunk

end FormLang
