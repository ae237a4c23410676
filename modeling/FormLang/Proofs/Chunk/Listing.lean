import FormLang.Chunk.Listing
import FormLang.Proofs.Machine.Instruction
import FormLang.Proofs.Tracked

set_option autoImplicit false

/-! # Listing well-formed code

A row of instructions with a return behind it can be listed from the first byte to the last, as no
operand is cut off. So a chunk of such code can be listed when its constants can, and otherwise fails
as they do (`Assembles.sameFailure_listing`). There are three reasons why a listing can fail
(`Value.ensures_listing`).
-/

namespace FormLang

/-- Can the value be listed as a constant, and, if it is a chunk, as one by itself? -/
def Value.Listable : Value → Prop
  | .chunk code constants =>
    ∀ indent, ∃ text, (Value.chunk code constants).listing indent = .ok text
  | v => ∃ text, describeConstant v = .ok text

theorem Instr.hasOperand_opcode (i : Instr) : i.opcode.hasOperand = true := by
  cases i <;> rfl

theorem sweep_assemble (is : List Instr) (offset : Nat) :
    ∃ entries, sweep offset (assemble is ++ [Opcode.ret.byte]) = some entries := by
  induction is generalizing offset with
  | nil => exact ⟨_, rfl⟩
  | cons i is ih =>
      obtain ⟨entries, hentries⟩ := ih (offset + 3)
      rw [assemble_cons, Instr.bytes]
      simp only [List.cons_append, List.nil_append, sweep, Opcode.ofByte?_byte,
        i.hasOperand_opcode, if_true, hentries, Option.map_some]
      exact ⟨_, rfl⟩

theorem listConstants_ok {vs : List Value} (h : ∀ v ∈ vs, v.Listable) (indent : String)
    (place : Nat) : ∃ lines, listConstants indent place vs = .ok lines := by
  induction vs generalizing place with
  | nil => exact ⟨[], by rw [listConstants]; rfl⟩
  | cons v vs ih =>
      obtain ⟨more, hmore⟩ := ih (fun w hw => h w (by simp [hw])) (place + 1)
      have hv := h v (by simp)
      rw [listConstants.eq_def]
      cases v with
      | chunk code constants =>
          obtain ⟨nested, hnested⟩ := hv (indent ++ "    ")
          simp only [hnested, hmore]
          exact ⟨_, rfl⟩
      | _ =>
          obtain ⟨text, htext⟩ := hv
          simp only [htext, hmore]
          exact ⟨_, rfl⟩

/-- A chunk of well-formed code can be listed if its constants can. -/
theorem Assembles.listable {pushable : Value → Prop} {is : List Instr} {code : Array UInt8}
    {constants : List Value} (h : Assembles pushable is code constants)
    (hconstants : ∀ v ∈ constants, v.Listable) : (Value.chunk code constants).Listable := by
  intro indent
  obtain ⟨entries, hentries⟩ := sweep_assemble is 0
  obtain ⟨lines, hlines⟩ := listConstants_ok hconstants indent 0
  rw [Value.listing, h.code_eq, hentries]
  simp only [hlines]
  exact ⟨_, rfl⟩

theorem Value.listable_of_writable {v : Value} (hv : v.kind ≠ .chunk) (h : v.writable = true) :
    v.Listable := by
  have hwritten : v.written = .ok v.write := by rw [written, if_pos h]
  cases v with
  | chunk code constants => exact absurd rfl hv
  | callable f => cases f <;> exact ⟨_, rfl⟩
  | _ => exact ⟨_, by rw [describeConstant, hwritten]; simp⟩

/-! ## What listings fail with -/

/-- The reasons why a value cannot be listed. -/
def Fault.OfListing (f : Fault) : Prop :=
  f = .codeEnds ∨ (∃ text, f = .noAttribute text) ∨ f = .writtenDigits

theorem Value.ensures_written (v : Value) :
    Ensures Fault.OfListing (fun _ => True) v.written := by
  rw [written]
  split
  · trivial
  · exact .inr (.inr rfl)

theorem ensures_describeConstant (v : Value) :
    Ensures Fault.OfListing (fun _ => True) (describeConstant v) := by
  rw [describeConstant.eq_def]
  split
  · trivial
  · exact Value.ensures_written _

theorem Value.notAChunk_eq (v : Value) : ∃ text, v.notAChunk = .noAttribute text := by
  cases v <;> exact ⟨_, rfl⟩

mutual
theorem Value.ensures_listing (v : Value) (indent : String) :
    Ensures Fault.OfListing (fun _ => True) (v.listing indent) := by
  rw [Value.listing.eq_def]
  split
  · next code constants =>
    dsimp only
    split
    · exact (ensures_listConstants indent 0 constants).bind fun _ _ => trivial
    · exact .inl rfl
  · exact .inr (.inl (Value.notAChunk_eq _))
  termination_by sizeOf v

theorem ensures_listConstants (indent : String) (place : Nat) (vs : List Value) :
    Ensures Fault.OfListing (fun _ => True) (listConstants indent place vs) := by
  rw [listConstants.eq_def]
  split
  · trivial
  · next v rest =>
    have hrest := ensures_listConstants indent (place + 1) rest
    -- A chunk is listed below its label, and anything else is described behind it.
    dsimp only
    split
    · next code constants =>
      refine (Value.ensures_listing (.chunk code constants) _).bind fun _ _ => ?_
      exact hrest.bind fun _ _ => trivial
    · refine (ensures_describeConstant _).bind fun _ _ => ?_
      exact hrest.bind fun _ _ => trivial
  termination_by sizeOf vs
end

/-! ## Failing alike -/

/-- Both results are failures, and the same one, or neither is. -/
def SameFailure {ε α β : Type} (r : Except ε α) (r' : Except ε β) : Prop :=
  r.map (fun _ => ()) = r'.map fun _ => ()

namespace SameFailure

variable {ε α β γ δ : Type} {r : Except ε α} {r' : Except ε β} {g : α → Except ε γ}
  {g' : β → Except ε δ}

theorem refl (r : Except ε α) : SameFailure r r := rfl

theorem symm (h : SameFailure r r') : SameFailure r' r := Eq.symm h

theorem trans {r'' : Except ε γ} (h : SameFailure r r') (h' : SameFailure r' r'') :
    SameFailure r r'' :=
  Eq.trans h h'

theorem bind (h : SameFailure r r') (hg : ∀ a b, SameFailure (g a) (g' b)) :
    SameFailure (r >>= g) (r' >>= g') := by
  cases r <;> cases r' <;> cases h
  · rfl
  · exact hg _ _

/-- What follows does not fail. -/
theorem bind_ok {f : α → γ} : SameFailure (do return f (← r)) r := by
  cases r <;> rfl

theorem error_iff (h : SameFailure r r') {e : ε} : r = .error e ↔ r' = .error e := by
  cases r <;> cases r' <;> cases h <;> simp

theorem exists_ok (h : SameFailure r r') (hr : ∃ a, r = .ok a) : ∃ b, r' = .ok b := by
  obtain ⟨a, rfl⟩ := hr
  cases r' <;> cases h
  exact ⟨_, rfl⟩

end SameFailure

mutual
/-- How far a listing is moved to the right has no bearing on whether it fails. -/
theorem Value.sameFailure_listing (v : Value) (indent indent' : String) :
    SameFailure (v.listing indent) (v.listing indent') := by
  rw [Value.listing.eq_def, Value.listing.eq_def]
  split
  · next code constants =>
    dsimp only
    split
    · exact (sameFailure_listConstants constants indent indent' 0 0).bind fun _ _ => rfl
    · rfl
  · rfl
  termination_by sizeOf v

theorem sameFailure_listConstants (vs : List Value) (indent indent' : String)
    (place place' : Nat) :
    SameFailure (listConstants indent place vs) (listConstants indent' place' vs) := by
  rw [listConstants.eq_def, listConstants.eq_def]
  split
  · rfl
  · next v rest =>
    have hrest := sameFailure_listConstants rest indent indent' (place + 1) (place' + 1)
    dsimp only
    split
    · next code constants =>
      refine (Value.sameFailure_listing (.chunk code constants) _ _).bind fun _ _ => ?_
      exact hrest.bind fun _ _ => rfl
    · refine (SameFailure.refl (describeConstant _)).bind fun _ _ => ?_
      exact hrest.bind fun _ _ => rfl
  termination_by sizeOf vs
end

/-- A chunk of well-formed code cannot be listed for the reason that its constants cannot. -/
theorem Assembles.sameFailure_listing {pushable : Value → Prop} {is : List Instr}
    {code : Array UInt8} {constants : List Value} (h : Assembles pushable is code constants)
    (indent : String) :
    SameFailure ((Value.chunk code constants).listing indent)
      (listConstants indent 0 constants) := by
  obtain ⟨entries, hentries⟩ := sweep_assemble is 0
  rw [Value.listing, h.code_eq, hentries]
  exact SameFailure.bind_ok

/-- A function among the constants is no reason for a listing to fail. -/
theorem sameFailure_listConstants_callable (vs : List Value) (f : Callable) (indent : String)
    (place : Nat) :
    SameFailure (listConstants indent place (vs ++ [.callable f]))
      (listConstants indent place vs) := by
  induction vs generalizing place with
  | nil => cases f <;> rfl
  | cons v vs ih =>
    rw [List.cons_append, listConstants.eq_def, listConstants.eq_def indent place (v :: vs)]
    dsimp only
    split
    · next code constants =>
      refine (SameFailure.refl (Value.listing _ (.chunk code constants))).bind fun _ _ => ?_
      exact (ih _).bind fun _ _ => rfl
    · refine (SameFailure.refl (describeConstant _)).bind fun _ _ => ?_
      exact (ih _).bind fun _ _ => rfl

/-- A chunk cannot be listed as a constant for the reason that it cannot by itself. -/
theorem sameFailure_listConstants_singleton (code : Array UInt8) (constants : List Value)
    (indent : String) (place : Nat) :
    SameFailure (listConstants indent place [.chunk code constants])
      ((Value.chunk code constants).listing indent) := by
  have hnested := Value.sameFailure_listing (.chunk code constants) (indent ++ "    ") indent
  have hempty : listConstants indent (place + 1) [] = .ok [] := by rw [listConstants]; rfl
  rw [listConstants.eq_def]
  dsimp only
  rw [hempty]
  refine SameFailure.trans ?_ hnested
  cases (Value.chunk code constants).listing (indent ++ "    ") <;> rfl

end FormLang
