import FormLang.Proofs.Chunk.Plan
import FormLang.Proofs.Machine.Execution

set_option autoImplicit false

/-! # Well-formed chunks are safe

Whatever goes wrong while a well-formed chunk is run goes wrong in a function that it calls: the
machine itself has no reason to fail (`Value.WellFormed.blames`). And what is computed is made of
the parts that the chunk pushes, as long as the functions put nothing into their results that they
were not given (`Value.WellFormed.yields_madeOf`). One kind of parts is whatever is no chunk, so
that no chunk gets into the values that are computed.
-/

namespace FormLang

/-! ## Who is to blame -/

/-- When the computation fails, the last call on record has failed in the same way. -/
def Calling.Blames {α : Type} (apply : Apply) (x : Calling α) : Prop :=
  ∀ r f r', x.run r = (.error f, r') →
    ∃ target args calls, r'.calls = (target, args) :: calls ∧ apply target args = .error f

namespace Calling

variable {α β : Type} {apply : Apply} {x : Calling α} {g : α → Calling β}

theorem blames_pure (a : α) : Blames apply (pure a : Calling α) := by
  intro r f r' hrun
  cases hrun

theorem Blames.bind (hx : Blames apply x)
    (hg : ∀ r a r', x.run r = (.ok a, r') → Blames apply (g a)) : Blames apply (x >>= g) := by
  intro r f r'' hrun
  rcases hrunx : x.run r with ⟨e | a, r'⟩
  · rw [Tracked.run_bind_of_error hrunx] at hrun
    cases hrun
    exact hx r f r'' hrunx
  · rw [Tracked.run_bind_of_ok hrunx] at hrun
    exact hg r a r' hrunx r' f r'' hrun

theorem blames_call (f : Callable) (args : Value) : Blames apply (call apply f args) := by
  intro r e r' hrun
  have hcall : r.call apply f args = (.error e, r') := hrun
  rw [Record.call] at hcall
  cases happly : apply f args with
  | ok v =>
      rw [happly] at hcall
      cases hcall
  | error e' =>
      rw [happly] at hcall
      cases hcall
      exact ⟨f, args, r.calls, rfl, happly⟩

end Calling

section

variable {apply : Apply} {pushable : Value → Prop} {constants vs : List Value} {i : Instr}
  {is : List Instr} {h : Nat}

theorem Instr.blames_exec (hfits : i.Fits pushable constants) (hh : i.height vs.length = some h)
    (hnested : ∀ place v, i = .enter place → constants[place]? = some v →
      (v.outcome apply).Blames apply) : (i.exec apply constants vs).Blames apply := by
  obtain ⟨-, hfits⟩ := hfits
  cases i with
  | push place =>
      obtain ⟨v, hv, -⟩ := hfits
      rw [exec_push hv]
      exact Calling.blames_pure _
  | gather count => exact Calling.blames_pure _
  | call place =>
      obtain ⟨f, hf⟩ := hfits
      cases vs with
      | nil => simp [height] at hh
      | cons args vs =>
          rw [exec_call hf]
          exact (Calling.blames_call f args).bind fun _ _ _ _ => Calling.blames_pure _
  | enter place =>
      obtain ⟨v, hv⟩ := hfits
      rw [exec_enter hv]
      exact (hnested place v rfl hv).bind fun _ _ _ _ => Calling.blames_pure _

theorem blames_exec (hfits : ∀ i ∈ is, i.Fits pushable constants)
    (hh : heightAfter is vs.length = some h)
    (hnested : ∀ place v, .enter place ∈ is → constants[place]? = some v →
      (v.outcome apply).Blames apply) : (exec apply constants is vs).Blames apply := by
  induction is generalizing vs with
  | nil => exact Calling.blames_pure _
  | cons i is ih =>
      obtain ⟨h₁, hi, his⟩ := Option.bind_eq_some_iff.1 hh
      have hfit := hfits i (by simp)
      have hfirst := Instr.blames_exec hfit hi fun place v hp => hnested place v (by simp [hp])
      refine hfirst.bind fun r vs₁ r₁ hexec => ?_
      have hlength := Instr.exec_height hfit hi hexec
      exact ih (fun j hj => hfits j (by simp [hj])) (hlength ▸ his)
        fun place v hp => hnested place v (by simp [hp])

end

/-- A well-formed chunk fails only where a function that it calls does. -/
theorem Value.WellFormed.blames {apply : Apply} {pushable : Value → Prop} {v : Value}
    (h : v.WellFormed pushable) : (v.outcome apply).Blames apply := by
  induction h with
  | @chunk code constants is h hnested ih =>
      rw [h.outcome_eq fun place v hp hv => (hnested place v hp hv).isolated]
      have hheight : heightAfter is ([] : List Value).length = some 1 := h.height
      -- The return cannot fail, as there is exactly one value left for it.
      refine (blames_exec h.fits hheight ih).bind fun r vs r' hexec => ?_
      obtain ⟨x, rfl⟩ := h.eq_singleton_of_exec hexec
      exact Calling.blames_pure x

/-! ## What values are made of -/

/-- Is there no chunk in the value, at any depth of lists? -/
def Value.ChunkFree (v : Value) : Prop := ∀ w ∈ v.leaves, w.Atomic

/-- Functions hand out no chunk unless they are given one. -/
def KeepsChunkFree (apply : Apply) : Prop :=
  ∀ f args v, args.ChunkFree → apply f args = .ok v → v.ChunkFree

/-- What functions hand out is made of parts of a kind if what they are given is. -/
def KeepsParts (Q : Value → Prop) (apply : Apply) : Prop :=
  ∀ f args v, args.MadeOf Q → apply f args = .ok v → v.MadeOf Q

theorem Value.MadeOf.marked {Q : Value → Prop} {v : Value} (hQ : PartKind Q) (h : v.MadeOf Q)
    (next : Nat) : (v.marked next).1.MadeOf Q := by
  cases v with
  | number n => exact madeOf_of hQ (hQ.codeless (codeless_number (n.marked next).1))
  | _ => exact h

section

variable {Q : Value → Prop} {apply : Apply} {constants vs : List Value} {i : Instr}
  {is : List Instr}

theorem Calling.yields_call (hQ : PartKind Q) (happly : KeepsParts Q apply) (f : Callable)
    {args : Value} (hargs : args.MadeOf Q) : (call apply f args).Yields (Value.MadeOf Q) := by
  intro r v r' hrun
  have hcall : r.call apply f args = (.ok v, r') := hrun
  rw [Record.call] at hcall
  cases hresult : apply f args with
  | ok x =>
      rw [hresult] at hcall
      cases hcall
      exact (happly f args x hargs hresult).marked hQ r.nextMark
  | error e =>
      rw [hresult] at hcall
      cases hcall

theorem Instr.yields_exec (hQ : PartKind Q) (happly : KeepsParts Q apply)
    (hfits : i.Fits Q constants) (hvs : ∀ v ∈ vs, v.MadeOf Q)
    (hnested : ∀ place v, i = .enter place → constants[place]? = some v →
      (v.outcome apply).Yields (Value.MadeOf Q)) :
    (i.exec apply constants vs).Yields fun vs => ∀ v ∈ vs, v.MadeOf Q := by
  obtain ⟨-, hfits⟩ := hfits
  cases i with
  | push place =>
      obtain ⟨v, hv, hpart⟩ := hfits
      rw [exec_push hv]
      exact Tracked.yields_pure (List.forall_mem_cons.2 ⟨Value.madeOf_of hQ hpart, hvs⟩)
  | gather count =>
      refine Tracked.yields_pure (List.forall_mem_cons.2 ⟨Value.madeOf_list.2 fun v hv => ?_,
        fun v hv => hvs v (List.mem_of_mem_drop hv)⟩)
      exact hvs v (List.mem_of_mem_take (List.mem_reverse.1 hv))
  | call place =>
      obtain ⟨f, hf⟩ := hfits
      cases vs with
      | nil => exact Tracked.yields_throw _
      | cons args vs =>
          rw [exec_call hf]
          obtain ⟨hargs, hvs⟩ := List.forall_mem_cons.1 hvs
          exact (Calling.yields_call hQ happly f hargs).bind fun v hv =>
            Tracked.yields_pure (List.forall_mem_cons.2 ⟨hv, hvs⟩)
  | enter place =>
      obtain ⟨v, hv⟩ := hfits
      rw [exec_enter hv]
      exact (hnested place v rfl hv).bind fun x hx =>
        Tracked.yields_pure (List.forall_mem_cons.2 ⟨hx, hvs⟩)

theorem yields_exec (hQ : PartKind Q) (happly : KeepsParts Q apply)
    (hfits : ∀ i ∈ is, i.Fits Q constants) (hvs : ∀ v ∈ vs, v.MadeOf Q)
    (hnested : ∀ place v, .enter place ∈ is → constants[place]? = some v →
      (v.outcome apply).Yields (Value.MadeOf Q)) :
    (exec apply constants is vs).Yields fun vs => ∀ v ∈ vs, v.MadeOf Q := by
  induction is generalizing vs with
  | nil => exact Tracked.yields_pure hvs
  | cons i is ih =>
      have hfirst := Instr.yields_exec hQ happly (hfits i (by simp)) hvs
        fun place v hp => hnested place v (by simp [hp])
      exact hfirst.bind fun vs₁ hvs₁ => ih (fun j hj => hfits j (by simp [hj])) hvs₁
        fun place v hp => hnested place v (by simp [hp])

/-- What a well-formed chunk comes to is made of the parts that it may push. -/
theorem Value.WellFormed.yields_madeOf (hQ : PartKind Q) (happly : KeepsParts Q apply) {v : Value}
    (h : v.WellFormed Q) : (v.outcome apply).Yields (Value.MadeOf Q) := by
  induction h with
  | @chunk code constants is h hnested ih =>
      rw [h.outcome_eq fun place v hp hv => (hnested place v hp hv).isolated]
      refine (yields_exec hQ happly h.fits (by simp) ih).bind fun vs hvs => ?_
      cases vs with
      | nil => exact Tracked.yields_throw _
      | cons x vs => exact Tracked.yields_pure (hvs x (by simp))

end

end FormLang
