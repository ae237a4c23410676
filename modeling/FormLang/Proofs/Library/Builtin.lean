import FormLang.Library.Find
import FormLang.Library.Tables
import FormLang.Proofs.Compile.Agreement
import FormLang.Proofs.Library.Functions

set_option autoImplicit false

/-! # The builtin libraries

Whatever is called hands on what it is given (`handsOn_apply`), and the builtin libraries answer
requests for their functions with calls of them (`load_builtin`). So the compiler that works with
one of them keeps to parts of any kind (`keeps_builtin`).
-/

namespace FormLang

open LibraryFunction
open LibraryClass (derived exportsOf own)

/-! ## Sample functions -/

section

variable {Q : Value → Prop}

theorem ensures_firstItem (hQ : ∀ v : Value, v.Codeless → Q v) {v : Value} (h : v.MadeOf Q) :
    Ensures Failure.Regular (Value.MadeOf Q) (firstItem v) := by
  refine (ensures_arguments hQ h).bind fun items hitems => ?_
  split
  · exact hitems _ (by simp)
  · exact Ensures.throw (Failure.regular_fault (by simp))
  · exact Ensures.throw (Failure.regular_fault (by simp))

theorem ensures_asNumeral (misfit : String → String) (v : Value) :
    Ensures Failure.Regular (fun _ => True) (asNumeral misfit v) := by
  cases v with
  | number n => trivial
  | truth b => trivial
  | _ => exact ensures_wrongType _ _

theorem handsOn_plainSum : HandsOn plainSum := by
  refine handsOn_of_codeless fun args => (ensures_anyArguments _ args).bind fun vs _ => ?_
  have hsum : Ensures Failure.Regular (fun _ => True) (vs.foldlM
      (fun sum v => do
        let n ← asNumeral (Misfit.unsupported "+" (Value.number sum).kind.typeName) v
        liftFault (sum.add n)) (Numeral.int 0)) := by
    refine Ensures.foldlM trivial fun sum v _ => (ensures_asNumeral _ v).bind fun n _ => ?_
    exact ensures_liftFault (Numeral.ensures_combine _ _ sum n)
  exact hsum.bind fun n _ => Value.codeless_number n

theorem ensures_twice (hQ : ∀ v : Value, v.Codeless → Q v) {v : Value} (h : v.MadeOf Q) :
    Ensures Failure.Regular (Value.MadeOf Q) (twice v) := by
  rw [twice.eq_def]
  split
  · exact (Value.codeless_text _).madeOf hQ
  · next items =>
    refine Value.madeOf_list.2 fun w hw => Value.madeOf_list.1 h w ?_
    simpa using hw
  · have hnumber : ∀ n : Numeral, Ensures Failure.Regular Value.Codeless (do
        let double ← liftFault (n.mul (.int 2))
        return .number double) := fun n =>
      Arithmetic.ensures_number (Numeral.ensures_combine _ _ n _)
    refine (ensures_asNumeral _ _).bind fun n _ => (hnumber n).imp (fun _ h => h) fun _ hw => ?_
    exact hw.madeOf hQ

theorem handsOn_double : HandsOn double := fun _ hQ _ hargs =>
  (ensures_firstItem hQ hargs).bind fun _ hv => ensures_twice hQ hv

theorem handsOn_tagged (function tag : String) : HandsOn (tagged function tag).run :=
  fun _ hQ _ hargs => Value.madeOf_list.2 (List.forall_mem_cons.2
    ⟨(Value.codeless_text tag).madeOf hQ, List.forall_mem_cons.2 ⟨hargs, by simp⟩⟩)

theorem handsOn_labelArguments (name : String) : HandsOn (labelArguments name) :=
  fun _ hQ _ hargs =>
  (ensures_arguments hQ hargs).bind fun _ hvs => Value.madeOf_list.2 (List.forall_mem_cons.2
    ⟨(Value.codeless_text name).madeOf hQ, hvs⟩)

/-- A function that hands out a list of values without code, whatever it is given. -/
theorem madeOf_codeless (hQ : ∀ v : Value, v.Codeless → Q v) {vs : List Value}
    (h : ∀ v ∈ vs, v.Codeless) : (Value.list vs).MadeOf Q :=
  Value.madeOf_list.2 fun v hv => (h v hv).madeOf hQ

theorem handsOn_countArguments : HandsOn countArguments := fun _ hQ args _ =>
  (ensures_anyArguments _ args).bind fun _ _ => madeOf_codeless hQ (List.forall_mem_cons.2
    ⟨Value.codeless_text _, List.forall_mem_cons.2 ⟨Value.codeless_number _, by simp⟩⟩)

end

/-! ## All functions of all classes -/

theorem handsOn_own {origin : String} {functions : List LibraryFunction}
    (h : ∀ f ∈ functions, HandsOn f.run) : ∀ m ∈ own origin functions, HandsOn m.function.run := by
  intro m hm
  obtain ⟨f, hf, rfl⟩ := List.mem_map.1 hm
  exact h f hf

theorem handsOn_mixedMembers (names : List String) :
    ∀ m ∈ mixedMembers names, HandsOn m.function.run := by
  refine handsOn_own fun f hf => ?_
  obtain ⟨name, -, rfl⟩ := List.mem_map.1 hf
  exact handsOn_tagged name name

/-- Do all functions of the class hand on what they are given? -/
def LibraryClass.AllHandOn (c : LibraryClass) : Prop := ∀ m ∈ c.members, HandsOn m.function.run

theorem allHandOn_builtin : ∀ c ∈ builtinLibraries, c.AllHandOn := by
  have hmath : mathLibrary.AllHandOn := handsOn_own Arithmetic.handsOn_functions
  have hlist : listLibrary.AllHandOn := handsOn_own Lists.handsOn_functions
  have hstring : stringLibrary.AllHandOn := handsOn_own Texts.handsOn_functions
  have hstandard : standardLibrary.AllHandOn := by
    intro m hm
    have hmem : m ∈ own "StandardLibrary" Standard.general ++ mathLibrary.members ++
      listLibrary.members ++ stringLibrary.members := hm
    simp only [List.mem_append] at hmem
    obtain ((hm | hm) | hm) | hm := hmem
    · exact handsOn_own Standard.handsOn_general m hm
    · exact hmath m hm
    · exact hlist m hm
    · exact hstring m hm
  simp only [builtinLibraries, List.forall_mem_cons]
  exact ⟨hmath, hlist, hstring, hstandard, by simp⟩

theorem allHandOn_derivedSamples : ∀ c ∈ derivedSamples, c.AllHandOn := by
  have hfirst : HandsOn fun args => firstItem args >>= firstItem := fun _ hQ _ hargs =>
    (ensures_firstItem hQ hargs).bind fun _ hv => ensures_firstItem hQ hv
  have hunwrap : HandsOn firstItem := fun _ hQ _ hargs => ensures_firstItem hQ hargs
  have hecho : HandsOn .ok := fun _ _ _ hargs => hargs
  have hlisting : HandsOn fun _ => .ok (.list (ownListing.map .text)) := fun _ hQ _ _ =>
    madeOf_codeless hQ fun v hv => by
      obtain ⟨name, -, rfl⟩ := List.mem_map.1 hv
      exact Value.codeless_text name
  have hanonymous : HandsOn anonymousMember.function.run := handsOn_tagged "lam" "lam"
  simp only [derivedSamples, List.forall_mem_cons, LibraryClass.AllHandOn, derived,
    List.forall_mem_append]
  refine ⟨handsOn_own ?_, handsOn_own ?_, handsOn_own ?_, ⟨hanonymous, handsOn_mixedMembers _⟩,
    ⟨⟨⟨hanonymous, handsOn_mixedMembers _⟩, handsOn_own ?_⟩, hlisting, by simp⟩, handsOn_own ?_,
    by simp⟩ <;> simp only [List.forall_mem_cons]
  · exact ⟨handsOn_plainSum, by simp⟩
  · exact ⟨hfirst, by simp⟩
  · exact ⟨hecho, hunwrap, by simp⟩
  · exact ⟨handsOn_countArguments, by simp⟩
  · exact ⟨handsOn_tagged _ _, handsOn_tagged _ _, hecho, hunwrap, by simp⟩

theorem allHandOn_libraryClasses : ∀ c ∈ libraryClasses, c.AllHandOn := by
  have hnothing : HandsOn fun _ => .ok .nothing := fun _ hQ _ _ => Value.codeless_nothing.madeOf hQ
  intro c hc
  simp only [libraryClasses, List.cons_append, List.mem_cons, List.mem_append] at hc
  obtain rfl | ((hc | hc) | hc) | hc := hc
  · intro m hm
    cases hm
  · exact allHandOn_builtin c hc
  · exact allHandOn_derivedSamples c hc
  · -- Of the classes that stand alone, one has a function.
    revert c
    simp only [standaloneSamples, List.forall_mem_cons, LibraryClass.AllHandOn,
      LibraryClass.standalone, unasked, withoutResolve, unmade]
    simpa using hnothing
  · revert c
    simp [foreignClasses, foreignClass, LibraryClass.AllHandOn, LibraryClass.standalone]

theorem uncallable_ne (c : LibraryClass) (name : String) : c.uncallable name ≠ .evaluationDepth := by
  rw [LibraryClass.uncallable]
  split
  · simp
  · simp
  · simp
  · split
    · simp
    · split <;> simp

theorem handsOn_call {c : LibraryClass} (hc : c.AllHandOn) (name : String) :
    HandsOn (c.call name) := by
  intro Q hQ args hargs
  rw [LibraryClass.call]
  split
  · next m hm => exact hc m (List.mem_of_find?_eq_some hm) Q hQ args hargs
  · exact Ensures.throw (Failure.regular_fault (uncallable_ne c name))

theorem handsOn_callMember (owner function : String) : HandsOn (callMember owner function) := by
  intro Q hQ args hargs
  rw [callMember]
  split
  · next c hc =>
    have hmem : c ∈ libraryClasses := List.mem_of_find?_eq_some hc
    exact handsOn_call (allHandOn_libraryClasses c hmem) function Q hQ args hargs
  · exact Ensures.throw (Failure.regular_fault (by simp))

/-- Whatever is called, no code comes out that did not go in. -/
theorem handsOn_apply (f : Callable) : HandsOn (Callable.apply f) := by
  intro Q hQ args hargs
  cases f with
  | call owner function => exact handsOn_callMember owner function Q hQ args hargs
  | method owner function _ _ => exact handsOn_callMember owner function Q hQ args hargs
  | plain name =>
      rw [Callable.apply]
      split
      · exact handsOn_double Q hQ args hargs
      · exact ensures_wrongType _ _
  | labelled name => exact handsOn_labelArguments name Q hQ args hargs
  | other type text => exact ensures_wrongType _ _

/-! ## The compiler with a builtin library -/

/-- The builtin libraries under their names, among some modules. -/
def builtinSurroundings (modules : List Module) : Surroundings :=
  ⟨(Tables.samples modules).host 0, .builtin⟩

/-- The compiler for programs that name a builtin library, or leave it to the settings that do. -/
def builtinContext (modules : List Module) (c : LibraryClass) (settings : Settings) :
    CompileContext where
  library := ((builtinSurroundings modules).load (.ofText c.objectName)).map (·.2)
  libraryName := c.objectName
  apply := Callable.apply
  settings := settings
  reserve := 0

theorem load_builtin {c : LibraryClass} (hc : c ∈ builtinLibraries) (modules : List Module) :
    (builtinSurroundings modules).load (.ofText c.objectName) =
      .ok (.object c.name (.standing 0), .ofExports c.name (exportsOf c.members)) := by
  simp only [builtinLibraries, List.mem_cons, List.not_mem_nil, or_false] at hc
  obtain rfl | rfl | rfl | rfl := hc <;> rfl

theorem library_builtin {c : LibraryClass} (hc : c ∈ builtinLibraries) (modules : List Module)
    (settings : Settings) :
    (builtinContext modules c settings).library =
      .ok (.ofExports c.name (exportsOf c.members)) := by
  rw [builtinContext, load_builtin hc]
  rfl

/-- The compiler with a builtin library keeps to parts of any kind. -/
theorem keeps_builtin {c : LibraryClass} (hc : c ∈ builtinLibraries) (modules : List Module)
    (settings : Settings) {Q : Value → Prop} {E : Failure → Prop} (hQ : PartKind Q)
    (hE : ∀ f : Failure, f.Usual Q → E f) :
    (builtinContext modules c settings).Keeps c.name (exportsOf c.members) Q E := by
  have hlibrary := library_builtin hc modules settings
  refine ⟨hQ, fun library h => ?_, fun f args v hargs happly => ?_, hE, fun f h => ?_,
    fun f args e happly => hE e ?_⟩
  · exact (Except.ok.inj (hlibrary.symm.trans h)).symm
  · have h := handsOn_apply f Q (fun _ => hQ.codeless) args hargs
    rw [show Callable.apply f args = .ok v from happly] at h
    exact h
  · rw [hlibrary] at h
    cases h
  · -- Whatever its arguments are, a function fails in a regular way.
    have hargs : args.MadeOf fun _ => True := fun _ _ => trivial
    have h := handsOn_apply f (fun _ => True) (fun _ _ => trivial) args hargs
    rw [show Callable.apply f args = .error e from happly] at h
    exact Failure.Regular.usual h

end FormLang
