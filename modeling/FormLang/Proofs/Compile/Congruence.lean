import FormLang.Proofs.Compile.Agreement

set_option autoImplicit false

/-! # Relations along two compilers

Two compilers that stand for the same library take the same steps, and differ in a few only: in what
they take captured code for, or in the name that they report the library under. A relation between
actions that holds of these few, that every other step has to itself, and that goes on from step to
step (`CompileContext.Related`), holds of what they make of a tree, whatever libraries answer and
functions do (`CompileContext.Related.node`). When the compilers are one and the same, it is enough
that the relation is a congruence (`Action.Congruence`).
-/

namespace FormLang

/-- An error about a library that cannot be used, as opposed to one about a program. -/
def ProgramError.AboutLibrary (e : ProgramError) : Prop :=
  (∃ name, e = .libraryNotFound name) ∨ ∃ name, e = .contractViolation name

/-- What a relation between actions has to hold of to hold of all that the compilers for two
contexts do. -/
structure CompileContext.Related (Rel : (α : Type) → Action α → Action α → Prop)
    (ctx ctx' : CompileContext) : Prop where
  pure : ∀ {α : Type} (a : α), Rel α (pure a) (pure a)
  bind : ∀ {α β : Type} {x y : Action α} {g g' : α → Action β}, Rel α x y →
    (∀ a, Rel β (g a) (g' a)) → Rel β (x >>= g) (y >>= g')
  request : ∀ r, Rel Unit (Action.request r) (Action.request r)
  fault : ∀ {α : Type} (f : Fault), Rel α (throw (.fault f)) (throw (.fault f))
  /-- An error about the program. -/
  complaint : ∀ {α : Type} (e : ProgramError), ¬e.AboutLibrary →
    Rel α (Action.fail e) (Action.fail e)
  evaluate : ∀ unit, Rel Value (evaluate ctx.apply ctx.settings none unit)
    (evaluate ctx'.apply ctx'.settings none unit)
  /-- Neither library can be had, or they are one. -/
  library : (∃ f f', ctx.library = .error f ∧ ctx'.library = .error f' ∧
      Rel Compiled (throw f) (throw f')) ∨
    ∃ library, ctx.library = .ok library ∧ ctx'.library = .ok library ∧
      ∀ r, Rel Resolution (Action.ofExcept (library.resolve r)) (Action.ofExcept (library.resolve r))
  /-- The library answers something that is no code. -/
  violation : Rel Compiled (Action.fail (.contractViolation ctx.libraryName))
    (Action.fail (.contractViolation ctx'.libraryName))

variable {Rel : (α : Type) → Action α → Action α → Prop}

namespace CompileContext

open FormLang.Action

variable {ctx ctx' : CompileContext} {later later' : List Node → Action Value}

namespace Related

/-! ## Steps of the compilers -/

section

variable (h : Related Rel ctx ctx')

include h

theorem ofFault {α : Type} (r : Except Fault α) : Rel α (Action.ofFault r) (Action.ofFault r) := by
  cases r with
  | ok a => exact h.pure a
  | error f => exact h.fault f

theorem constant (v : Value) : Rel _ (constant v) (constant v) :=
  h.bind (h.ofFault _) fun c => h.pure (Compiled.chunk c)

theorem ofResult (v : Value) : Rel _ (ofResult v) (ofResult v) := by
  rw [CompileContext.ofResult.eq_def]
  split
  · exact h.pure _
  · exact h.constant _

theorem sourceText (writable : Bool) (text : String) :
    Rel _ (sourceText writable text) (sourceText writable text) := by
  rw [CompileContext.sourceText]
  split
  · exact h.pure _
  · exact h.fault _

theorem unitOf (target : Node) (v : Value) : Rel _ (unitOf target v) (unitOf target v) := by
  rw [CompileContext.unitOf]
  split
  · exact h.pure _
  · exact h.bind (h.constant v) fun unit => h.pure _

theorem runCaptured (hlater : ∀ code, Rel _ (later code) (later' code)) (line : Int) (v : Value) :
    Rel _ (runCaptured later line v) (runCaptured later' line v) := by
  rw [CompileContext.runCaptured.eq_def, CompileContext.runCaptured.eq_def]
  split
  · next code => exact h.bind (hlater code) fun w => h.ofResult w
  · exact h.complaint _ (by simp [ProgramError.AboutLibrary])

/-- One library is asked in both contexts. -/
theorem resolve {library : Library} (hasked : ∀ r, Rel Resolution
      (Action.ofExcept (library.resolve r)) (Action.ofExcept (library.resolve r)))
    (head : Node) (params : List Node) (args : List Value) :
    Rel _ (ctx.resolve library head params args) (ctx'.resolve library head params args) := by
  refine h.bind (h.sourceText _ _) fun name => h.bind (h.request _) fun _ =>
    h.bind (hasked _) fun answer => ?_
  cases answer with
  | fragment c => exact h.pure _
  | unusable => exact h.violation
  | unknown =>
      refine h.bind (h.sourceText _ _) fun text => h.complaint _ ?_
      simp [ProgramError.AboutLibrary]

/-- What a call is compiled to, given its parameters. -/
theorem call {x y : Action (List Value)} (hargs : Rel _ x y) (head : Node) (params : List Node) :
    Rel Compiled
      (Action.ofExcept ctx.library >>= fun library => x >>= ctx.resolve library head params)
      (Action.ofExcept ctx'.library >>= fun library => y >>= ctx'.resolve library head params) := by
  rcases h.library with ⟨f, f', hf, hf', hfail⟩ | ⟨library, hl, hl', hasked⟩
  · rw [hf, hf']
    exact hfail
  · rw [hl, hl']
    show Rel Compiled (x >>= ctx.resolve library head params) (y >>= ctx'.resolve library head params)
    exact h.bind hargs fun args => h.resolve hasked head params args

end

/-! ## Along the tree -/

mutual
theorem form (h : Related Rel ctx ctx') (hlater : ∀ code, Rel _ (later code) (later' code)) :
    ∀ items, Rel _ (form ctx later items) (form ctx' later' items)
  | [] => by
      rw [CompileContext.form, CompileContext.form]
      exact h.constant _
  | head :: params => by
      have hargs := argumentsFrom h hlater [] params
      cases formView head params with
      | proc line =>
          rw [form_proc rfl, form_proc rfl]
          exact h.pure _
      | @unwrap line target code hcode =>
          rw [form_unwrap hcode, form_unwrap hcode]
          exact form h hlater (Node.capturedBody code)
      | @stage line target hcode =>
          rw [form_eval hcode, form_eval hcode, runTarget, runTarget]
          have htarget := h.bind (argument h hlater target) fun v =>
            h.bind (h.unitOf target v) fun unit => h.evaluate unit
          exact h.bind htarget fun v => h.runCaptured hlater line v
      | call hproc heval =>
          rw [form_call_of_length hproc heval, form_call_of_length hproc heval]
          exact h.call hargs head params
  termination_by items => sizeOf items
  decreasing_by
  · simp only [List.cons.sizeOf_spec]
    omega
  · have hbody := Node.sizeOf_capturedBody_lt hcode
    simp only [List.cons.sizeOf_spec]
    omega
  · simp only [List.cons.sizeOf_spec]
    omega

theorem argument (h : Related Rel ctx ctx') (hlater : ∀ code, Rel _ (later code) (later' code)) :
    ∀ n, Rel _ (argument ctx later n) (argument ctx' later' n)
  | .symbol _ _ => by
      rw [CompileContext.argument, CompileContext.argument]
      exact h.pure _
  | .number _ _ => by
      rw [CompileContext.argument, CompileContext.argument]
      exact h.pure _
  | .truth _ _ => by
      rw [CompileContext.argument, CompileContext.argument]
      exact h.pure _
  | .text _ _ => by
      rw [CompileContext.argument, CompileContext.argument]
      exact h.pure _
  | .list elements => by
      rw [CompileContext.argument, CompileContext.argument]
      exact h.bind (argumentsFrom h hlater [] elements) fun vs => h.pure _
  | .form _ items => by
      rw [CompileContext.argument, CompileContext.argument]
      exact h.bind (form h hlater items) fun unit => h.pure _
  | .foreign v => by
      rw [CompileContext.argument, CompileContext.argument]
      exact h.bind (h.ofFault _) fun text => h.fault _
  termination_by n => sizeOf n

theorem argumentsFrom (h : Related Rel ctx ctx')
    (hlater : ∀ code, Rel _ (later code) (later' code)) (done : List Value) :
    ∀ ns, Rel _ (argumentsFrom ctx later done ns) (argumentsFrom ctx' later' done ns)
  | [] => by
      rw [CompileContext.argumentsFrom, CompileContext.argumentsFrom]
      exact h.pure _
  | n :: rest => by
      rw [CompileContext.argumentsFrom, CompileContext.argumentsFrom]
      exact h.bind (argument h hlater n) fun v => argumentsFrom h hlater (v :: done) rest
  termination_by ns => sizeOf ns
end

theorem node (h : Related Rel ctx ctx') (hlater : ∀ code, Rel _ (later code) (later' code))
    (n : Node) : Rel _ (ctx.node later n) (ctx'.node later' n) := by
  by_cases hform : n.isForm = true
  · cases n with
    | form style items => exact h.form hlater items
    | _ => cases hform
  · have hform : n.isForm = false := by simpa using hform
    rw [node_eq_argument hform, node_eq_argument hform]
    exact h.bind (h.argument hlater n) fun v => h.constant v

theorem runOnce (h : Related Rel ctx ctx') (hlater : ∀ code, Rel _ (later code) (later' code))
    (code : List Node) : Rel _ (ctx.runOnce later code) (ctx'.runOnce later' code) :=
  h.bind (h.form hlater _) fun unit => h.evaluate unit.toValue

/-- Compilers that are related in all but nested runs are related in these as well. -/
theorem runBody (h : Related Rel ctx ctx') (depth : Nat) :
    ∀ code, Rel _ (ctx.runBody depth code) (ctx'.runBody depth code) := by
  induction depth with
  | zero =>
      intro code
      exact h.fault _
  | succ depth ih =>
      intro code
      exact h.runOnce ih code

end Related

end CompileContext

/-! ## One compiler -/

/-- A relation between actions that a compiler cannot leave: its steps are related to themselves,
and related actions one behind the other are related. -/
structure Action.Congruence (Rel : (α : Type) → Action α → Action α → Prop) : Prop where
  pure : ∀ {α : Type} (a : α), Rel α (pure a) (pure a)
  throw : ∀ {α : Type} (f : Failure), Rel α (throw f) (throw f)
  request : ∀ r, Rel Unit (Action.request r) (Action.request r)
  evaluate : ∀ apply settings backend? unit,
    Rel Value (evaluate apply settings backend? unit) (evaluate apply settings backend? unit)
  bind : ∀ {α β : Type} {x y : Action α} {g g' : α → Action β}, Rel α x y →
    (∀ a, Rel β (g a) (g' a)) → Rel β (x >>= g) (y >>= g')

namespace Action.Congruence

theorem ofExcept {α : Type} (hRel : Congruence Rel) (r : Except Failure α) :
    Rel α (Action.ofExcept r) (Action.ofExcept r) := by
  cases r with
  | ok a => exact hRel.pure a
  | error f => exact hRel.throw f

theorem related (hRel : Congruence Rel) (ctx : CompileContext) :
    CompileContext.Related Rel ctx ctx where
  pure := hRel.pure
  bind := hRel.bind
  request := hRel.request
  fault f := hRel.throw (.fault f)
  complaint e _ := hRel.throw (.error e)
  evaluate := hRel.evaluate ctx.apply ctx.settings none
  library := by
    cases hlibrary : ctx.library with
    | error f => exact .inl ⟨f, f, rfl, rfl, hRel.throw f⟩
    | ok library => exact .inr ⟨library, rfl, rfl, fun r => hRel.ofExcept _⟩
  violation := hRel.throw _

end Action.Congruence

namespace CompileContext

variable {ctx : CompileContext} {later later' : List Node → Action Value}

theorem congr_node (hRel : Action.Congruence Rel)
    (hlater : ∀ code, Rel _ (later code) (later' code)) (n : Node) :
    Rel _ (ctx.node later n) (ctx.node later' n) := (hRel.related ctx).node hlater n

theorem congr_runOnce (hRel : Action.Congruence Rel)
    (hlater : ∀ code, Rel _ (later code) (later' code)) (code : List Node) :
    Rel _ (ctx.runOnce later code) (ctx.runOnce later' code) :=
  (hRel.related ctx).runOnce hlater code

end CompileContext

end FormLang
