import FormLang.Library.Samples
import FormLang.Proofs.Chunk.Listing
import FormLang.Proofs.Failure

set_option autoImplicit false

/-! # What library functions hand out

No library function makes code: whatever code there is in what a function hands out was in its
arguments (`handsOn_apply`). Functions that hand out nothing but numbers, texts and truth values
need no arguments to be looked at for that; the functions on lists hand on elements that they were
given. Nor do functions complain of captured code, which is the business of the compiler.
-/

namespace FormLang

/-- A function that hands on what it is given: what it comes to is made of parts of its arguments
and of values without code, whatever the parts are. -/
def HandsOn (run : Value → Except Failure Value) : Prop :=
  ∀ Q : Value → Prop, (∀ v : Value, v.Codeless → Q v) → ∀ args : Value, args.MadeOf Q →
    Ensures Failure.Regular (Value.MadeOf Q) (run args)

theorem Value.Codeless.madeOf {Q : Value → Prop} {v : Value} (h : v.Codeless)
    (hQ : ∀ v : Value, v.Codeless → Q v) : v.MadeOf Q :=
  (forall_leaves_of_ne h.1.1).2 (hQ v h)

/-- Functions whose results hold no code hand on what they are given. -/
theorem handsOn_of_codeless {run : Value → Except Failure Value}
    (h : ∀ args, Ensures Failure.Regular Value.Codeless (run args)) : HandsOn run :=
  fun _ hQ args _ => (h args).imp (fun _ hf => hf) fun _ hv => hv.madeOf hQ

/-! ## Arguments -/

section

variable {α : Type} {Q : Value → Prop} {P : α → Prop} {args v : Value}

theorem Value.MadeOf.elements (h : v.MadeOf Q) (hQ : ∀ v : Value, v.Codeless → Q v)
    {items : List Value} (hitems : v.elements? = some items) : ∀ w ∈ items, w.MadeOf Q := by
  cases v with
  | list vs =>
      obtain rfl : vs = items := by simpa [elements?] using hitems
      exact madeOf_list.1 h
  | text s =>
      obtain rfl : s.toList.map (fun c => Value.text (String.singleton c)) = items := by
        simpa [elements?] using hitems
      intro w hw
      obtain ⟨c, -, rfl⟩ := List.mem_map.1 hw
      exact (codeless_text _).madeOf hQ
  | _ => cases hitems

namespace LibraryFunction

/-- Functions do not count how deep they are called. -/
theorem ensures_liftFault {r : Except Fault α}
    (h : Ensures (· ≠ Fault.evaluationDepth) P r) : Ensures Failure.Regular P (liftFault r) :=
  (h.imp (fun _ => Failure.regular_fault) fun _ h => h).liftFault

theorem ensures_wrongType (misfit : String → String) (v : Value) :
    Ensures Failure.Regular P (wrongType misfit v : Except Failure α) :=
  Ensures.throw (Failure.regular_fault (by simp))

theorem ensures_arguments {misfit : String → String}
    (hQ : ∀ v : Value, v.Codeless → Q v) (h : args.MadeOf Q) :
    Ensures Failure.Regular (fun vs => ∀ v ∈ vs, v.MadeOf Q) (arguments misfit args) := by
  rw [arguments]
  split
  · next items hitems => exact h.elements hQ hitems
  · exact ensures_wrongType _ _

/-- Of arguments that are only looked at, nothing has to be known. -/
theorem ensures_anyArguments (misfit : String → String) (args : Value) :
    Ensures Failure.Regular (fun _ => True) (arguments misfit args) := by
  have h : args.MadeOf fun _ => True := fun _ _ => trivial
  exact (ensures_arguments (fun _ _ => trivial) h).imp (fun _ hf => hf) fun _ _ => trivial

theorem ensures_arityError (function expected : String) (args : List Value) :
    Ensures Failure.Regular P (arityError function expected args) :=
  Ensures.throw (Failure.regular_error (by simp))

theorem ensures_argumentError (function reason : String) :
    Ensures Failure.Regular P (argumentError function reason) :=
  Ensures.throw (Failure.regular_error (by simp))

theorem ensures_written (v : Value) :
    Ensures Failure.Regular (fun _ => True) (liftFault v.written) := by
  refine ensures_liftFault (v.ensures_written.imp (fun f hf => ?_) fun _ h => h)
  obtain rfl | ⟨text, rfl⟩ | rfl := hf <;> simp

theorem ensures_expected (function what : String) (got : Value) :
    Ensures Failure.Regular P (expected function what got) :=
  (ensures_written got).bind fun _ _ => ensures_argumentError _ _

/-- A function with one argument hands on what it does with that. -/
theorem handsOn_unary {function : String} {run : Value → Except Failure Value} (h : HandsOn run) :
    HandsOn (unary function run) := by
  intro Q hQ args hargs
  refine (ensures_arguments hQ hargs).bind fun vs hvs => ?_
  split
  · next v => exact h Q hQ v (hvs v (by simp))
  · exact ensures_arityError _ _ _

end LibraryFunction

end

/-! ## Arithmetic -/

namespace Numeral

theorem ensures_toFloat (n : Numeral) :
    Ensures (· ≠ Fault.evaluationDepth) (fun _ => True) n.toFloat := by
  -- How an integer is rounded does not matter, and cannot be computed for a variable.
  obtain ⟨rounded, hrounded⟩ : ∃ rounded, rounded = Binary64.ofInt? := ⟨_, rfl⟩
  rw [toFloat.eq_def, ← hrounded]
  split
  · split
    · trivial
    · exact Ensures.throw (by simp)
  · trivial

theorem ensures_floats {α : Type} {P : α → Prop} (a b : Numeral)
    {g : Binary64 → Binary64 → Except Fault α}
    (h : ∀ x y, Ensures (· ≠ Fault.evaluationDepth) P (g x y)) :
    Ensures (· ≠ Fault.evaluationDepth) P (do
      let x ← a.toFloat
      let y ← b.toFloat
      g x y) :=
  (ensures_toFloat a).bind fun x _ => (ensures_toFloat b).bind fun y _ => h x y

theorem ensures_combine (ints : Int → Int → Int) (floats : Binary64 → Binary64 → Binary64)
    (a b : Numeral) :
    Ensures (· ≠ Fault.evaluationDepth) (fun _ => True) (combine ints floats a b) := by
  rw [combine.eq_def]
  split
  · trivial
  · exact ensures_floats a b fun _ _ => trivial

theorem ensures_div (a b : Numeral) :
    Ensures (· ≠ Fault.evaluationDepth) (fun _ => True) (a.div b) := by
  rw [div.eq_def]
  split
  · split
    · exact Ensures.throw (by simp)
    · split
      · trivial
      · exact Ensures.throw (by simp)
  · refine ensures_floats a b fun x y => ?_
    split
    · exact Ensures.throw (by simp)
    · trivial

theorem ensures_mod (a b : Numeral) :
    Ensures (· ≠ Fault.evaluationDepth) (fun _ => True) (a.mod b) := by
  rw [mod.eq_def]
  split
  · split
    · exact Ensures.throw (by simp)
    · trivial
  · refine ensures_floats a b fun x y => ?_
    split
    · exact Ensures.throw (by simp)
    · trivial

end Numeral

namespace Arithmetic

open LibraryFunction

/-- A number that was computed, if that went well, holds no code. -/
theorem ensures_number {r : Except Fault Numeral}
    (h : Ensures (· ≠ Fault.evaluationDepth) (fun _ => True) r) :
    Ensures Failure.Regular Value.Codeless (do
      let n ← liftFault r
      return .number n) :=
  (ensures_liftFault h).bind fun n _ => Value.codeless_number n

theorem ensures_foldlM {step : Numeral → Numeral → Except Fault Numeral} (ns : List Numeral)
    (n : Numeral) (h : ∀ a b, Ensures (· ≠ Fault.evaluationDepth) (fun _ => True) (step a b)) :
    Ensures (· ≠ Fault.evaluationDepth) (fun _ => True) (ns.foldlM step n) :=
  Ensures.foldlM trivial fun a b _ => h a b

theorem ensures_numbersFrom (function : String) (seen : List Numeral) (vs : List Value) :
    Ensures Failure.Regular (fun _ => True) (numbersFrom function seen vs) := by
  induction vs generalizing seen with
  | nil => exact Ensures.pure trivial
  | cons v vs ih =>
      cases v with
      | number n => exact ih (n :: seen)
      | _ => exact ensures_expected _ _ _

theorem ensures_numbers (function : String) (atLeast : Nat) (args : Value) :
    Ensures Failure.Regular (fun _ => True) (numbers function atLeast args) := by
  refine (ensures_anyArguments _ args).bind fun vs _ => ?_
  split
  · exact ensures_arityError _ _ _
  · exact ensures_numbersFrom _ _ _

theorem handsOn_add : HandsOn add :=
  handsOn_of_codeless fun args => (ensures_numbers _ _ args).bind fun ns _ =>
    ensures_number (ensures_foldlM ns zero (Numeral.ensures_combine _ _))

theorem handsOn_subtract : HandsOn subtract := by
  refine handsOn_of_codeless fun args => (ensures_numbers _ _ args).bind fun ns _ => ?_
  split
  · exact ensures_arityError _ _ _
  · exact Value.codeless_number _
  · next n rest _ =>
    have hsum : Ensures (· ≠ Fault.evaluationDepth) (fun _ => True) (total rest) :=
      ensures_foldlM rest zero (Numeral.ensures_combine _ _)
    exact (ensures_liftFault hsum).bind fun sum _ =>
      ensures_number (Numeral.ensures_combine _ _ n sum)

theorem handsOn_multiply : HandsOn multiply :=
  handsOn_of_codeless fun args => (ensures_numbers _ _ args).bind fun ns _ =>
    ensures_number (ensures_foldlM ns one (Numeral.ensures_combine _ _))

theorem handsOn_divide : HandsOn divide := by
  refine handsOn_of_codeless fun args => (ensures_numbers _ _ args).bind fun ns _ => ?_
  split
  · exact ensures_arityError _ _ _
  · next n rest => exact ensures_number (ensures_foldlM rest n Numeral.ensures_div)

theorem handsOn_mod : HandsOn mod := by
  refine handsOn_of_codeless fun args => (ensures_anyArguments _ args).bind fun vs _ => ?_
  split
  · exact ensures_arityError _ _ _
  · refine (ensures_numbersFrom _ _ _).bind fun ns _ => ?_
    split
    · exact ensures_number (Numeral.ensures_mod _ _)
    · exact ensures_arityError _ _ _

theorem handsOn_best (function : String) (beats : Numeral → Numeral → Bool) :
    HandsOn (best function beats) := by
  refine handsOn_of_codeless fun args => (ensures_numbers _ _ args).bind fun ns _ => ?_
  split
  · exact ensures_arityError _ _ _
  · exact Value.codeless_number _

theorem handsOn_functions : ∀ f ∈ functions, HandsOn f.run := by
  simp only [functions, List.forall_mem_cons]
  exact ⟨handsOn_add, handsOn_subtract, handsOn_multiply, handsOn_divide, handsOn_mod,
    handsOn_best _ _, handsOn_best _ _, by simp⟩

end Arithmetic

/-! ## Lists -/

namespace Lists

open LibraryFunction

section

variable {Q : Value → Prop} {v : Value}

theorem ensures_list (function : String) (h : v.MadeOf Q) :
    Ensures Failure.Regular (fun vs => ∀ v ∈ vs, v.MadeOf Q) (list function v) := by
  cases v with
  | list items => exact Value.madeOf_list.1 h
  | _ => exact ensures_expected _ _ _

theorem handsOn_ofList {function : String} {run : List Value → Except Failure Value}
    (h : ∀ Q : Value → Prop, (∀ v : Value, v.Codeless → Q v) → ∀ vs : List Value,
      (∀ v ∈ vs, v.MadeOf Q) → Ensures Failure.Regular (Value.MadeOf Q) (run vs)) :
    HandsOn (ofList function run) :=
  handsOn_unary fun Q hQ _ hargs => (ensures_list function hargs).bind fun vs hvs => h Q hQ vs hvs

/-- An element of a list of parts, if there is one. -/
theorem ensures_element (function : String) {v? : Option Value} (h : ∀ v ∈ v?, v.MadeOf Q) :
    Ensures Failure.Regular (Value.MadeOf Q) (element function v?) := by
  cases v? with
  | none => exact ensures_argumentError _ _
  | some v => exact h v rfl

theorem mem_of_place? {items : List Value} {index : Value} (h : place? items index = some v) :
    v ∈ items := by
  rw [place?.eq_def] at h
  split at h
  · split at h
    · cases h
    · exact List.mem_of_getElem? h
  · cases h

theorem ensures_appendFrom {vs : List Value} (hvs : ∀ v ∈ vs, v.MadeOf Q) {seen : List Value}
    (hseen : ∀ v ∈ seen, v.MadeOf Q) :
    Ensures Failure.Regular (Value.MadeOf Q) (appendFrom seen vs) := by
  induction vs generalizing seen with
  | nil => exact Value.madeOf_list.2 fun v hv => hseen v (List.mem_reverse.1 hv)
  | cons v vs ih =>
      obtain ⟨hv, hvs⟩ := List.forall_mem_cons.1 hvs
      refine (ensures_list _ hv).bind fun items hitems => ih hvs fun w hw => ?_
      rcases List.mem_append.1 hw with hw | hw
      · exact hitems w (List.mem_reverse.1 hw)
      · exact hseen w hw

end

theorem handsOn_first : HandsOn first :=
  handsOn_ofList fun _ _ _ hvs => ensures_element _ fun v hv => hvs v (List.mem_of_mem_head? hv)

theorem handsOn_last : HandsOn last :=
  handsOn_ofList fun _ _ _ hvs => ensures_element _ fun v hv => hvs v (List.mem_of_getLast? hv)

theorem handsOn_rest : HandsOn rest :=
  handsOn_ofList fun _ _ _ hvs => Value.madeOf_list.2 fun v hv => hvs v (List.mem_of_mem_tail hv)

theorem handsOn_count : HandsOn count :=
  handsOn_ofList fun _ hQ _ _ => (Value.codeless_number _).madeOf hQ

theorem handsOn_reverse : HandsOn reverse :=
  handsOn_ofList fun _ _ _ hvs => Value.madeOf_list.2 fun v hv => hvs v (List.mem_reverse.1 hv)

theorem handsOn_nth : HandsOn nth := by
  intro Q hQ args hargs
  refine (ensures_arguments hQ hargs).bind fun vs hvs => ?_
  split
  · next v index =>
    refine (ensures_list _ (hvs v (by simp))).bind fun items hitems => ?_
    split
    · next element hplace => exact hitems element (mem_of_place? hplace)
    · exact (ensures_written index).bind fun _ _ => ensures_argumentError _ _
  · exact ensures_arityError _ _ _

theorem handsOn_append : HandsOn append := fun _ hQ _ hargs =>
  (ensures_arguments hQ hargs).bind fun _ hvs => ensures_appendFrom hvs (by simp)

theorem handsOn_functions : ∀ f ∈ functions, HandsOn f.run := by
  simp only [functions, List.forall_mem_cons]
  exact ⟨handsOn_first, handsOn_last, handsOn_rest, handsOn_count, handsOn_reverse, handsOn_nth,
    handsOn_append, by simp⟩

end Lists

/-! ## Text -/

namespace Texts

open LibraryFunction

theorem ensures_text (function : String) (v : Value) :
    Ensures Failure.Regular (fun _ => True) (text function v) := by
  cases v with
  | text s => trivial
  | _ => exact ensures_expected _ _ _

theorem handsOn_ofText {function : String} {run : String → Value} (h : ∀ s, (run s).Codeless) :
    HandsOn (ofText function run) :=
  handsOn_unary (handsOn_of_codeless fun v => (ensures_text function v).bind fun s _ => h s)

theorem ensures_plainText (v : Value) :
    Ensures (· ≠ Fault.evaluationDepth) (fun _ => True) v.plainText := by
  rw [Value.plainText]
  split
  · trivial
  · exact Ensures.throw (by simp)

theorem handsOn_concat : HandsOn concat :=
  handsOn_of_codeless fun args => (ensures_anyArguments _ args).bind fun _ _ =>
    (ensures_liftFault (Ensures.mapM ensures_plainText)).bind fun _ _ => Value.codeless_text _

theorem madeOf_texts {Q : Value → Prop} (hQ : ∀ v : Value, v.Codeless → Q v)
    (pieces : List (List Char)) : (Value.list (pieces.map ofChars)).MadeOf Q := by
  refine Value.madeOf_list.2 fun v hv => ?_
  obtain ⟨cs, -, rfl⟩ := List.mem_map.1 hv
  exact (Value.codeless_text _).madeOf hQ

theorem handsOn_split : HandsOn split := by
  intro Q hQ args _
  refine (ensures_anyArguments _ args).bind fun vs _ => ?_
  split
  · exact (ensures_text _ _).bind fun _ _ => madeOf_texts hQ _
  · refine (ensures_text _ _).bind fun s _ => (ensures_text _ _).bind fun separator _ => ?_
    split
    · exact Ensures.throw (Failure.regular_fault (by simp))
    · exact madeOf_texts hQ _
  · exact ensures_arityError _ _ _

theorem handsOn_functions : ∀ f ∈ functions, HandsOn f.run := by
  simp only [functions, List.forall_mem_cons]
  exact ⟨handsOn_concat, handsOn_ofText fun _ => Value.codeless_text _,
    handsOn_ofText fun _ => Value.codeless_text _, handsOn_ofText fun _ => Value.codeless_number _,
    handsOn_split, by simp⟩

end Texts

/-! ## General functions -/

namespace Standard

open LibraryFunction

theorem handsOn_equal : HandsOn equal :=
  handsOn_of_codeless fun args =>
    (ensures_anyArguments _ args).bind fun _ _ => Value.codeless_truth _

theorem handsOn_general : ∀ f ∈ general, HandsOn f.run := by
  simp only [general, List.forall_mem_cons]
  exact ⟨handsOn_unary fun _ _ _ hv => hv, handsOn_equal, by simp⟩

end Standard

end FormLang
