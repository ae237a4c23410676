import FormLang.Proofs.Compile.Meaning
import FormLang.Proofs.Library.Finding

set_option autoImplicit false

/-! # When the library is consulted

Literals, captured code and the `eval` forms that take `proc` off need no library. So a program
without calls is compiled to the same whatever the library is, if there is any, and a program with a
call to nothing but the error of the library, if it cannot be had: before the first call nothing can
go wrong, and what comes behind its head is not looked at (`library_consulted_for_calls`).
-/

namespace FormLang

/-! ## References -/

/-- The compiler for programs that refer to a library. -/
def CompileContext.ofReference (s : Surroundings) (ref : Entity) (apply : Apply)
    (settings : Settings) (reserve : Nat) : CompileContext where
  library := (s.load ref).map (·.2)
  libraryName := s.host.name ref
  apply := apply
  settings := settings
  reserve := reserve

/-! ## Programs with calls -/

mutual
/-- Is there a call among the node, the elements of literal lists, and the bodies that `eval` forms
take out of their `proc` forms? -/
inductive Node.ReachesCall : Node → Prop where
  | list {elements : List Node} {n : Node} (hn : n ∈ elements) (h : n.ReachesCall) :
      Node.ReachesCall (.list elements)
  | form {style : FormStyle} {items : List Node} (h : Node.FormReachesCall items) :
      Node.ReachesCall (.form style items)

/-- Is the form with some items a call, or does its body reach one? -/
inductive Node.FormReachesCall : List Node → Prop where
  | eval {head : Node} {params body : List Node} (hproc : head.isNamed Node.procName = false)
      (hbody : Node.evalBody? head params = some body) (h : Node.FormReachesCall body) :
      Node.FormReachesCall (head :: params)
  | call {head : Node} {params : List Node} (hproc : head.isNamed Node.procName = false)
      (hbody : Node.evalBody? head params = none) : Node.FormReachesCall (head :: params)
end

mutual
/-- Compiling the node meets no `eval` of one parameter but of `proc` forms, up to the first call.
What the call is made with does not matter. -/
inductive Node.StaticToCall : Node → Prop where
  | symbol (line : Int) (name : String) : Node.StaticToCall (.symbol line name)
  | number (line : Int) (value : Numeral) : Node.StaticToCall (.number line value)
  | truth (line : Int) (value : Bool) : Node.StaticToCall (.truth line value)
  | text (line : Int) (value : String) : Node.StaticToCall (.text line value)
  | list {elements : List Node} (h : Node.RowStaticToCall elements) :
      Node.StaticToCall (.list elements)
  | form {style : FormStyle} {items : List Node} (h : Node.FormStaticToCall items) :
      Node.StaticToCall (.form style items)

/-- Compiling the form with some items meets no other `eval` of one parameter up to the first
call. -/
inductive Node.FormStaticToCall : List Node → Prop where
  | empty : Node.FormStaticToCall []
  | proc {head : Node} {params : List Node} (h : head.isNamed Node.procName = true) :
      Node.FormStaticToCall (head :: params)
  | eval {head : Node} {params body : List Node} (hproc : head.isNamed Node.procName = false)
      (hbody : Node.evalBody? head params = some body) (h : Node.FormStaticToCall body) :
      Node.FormStaticToCall (head :: params)
  | call {head : Node} {params : List Node} (hproc : head.isNamed Node.procName = false)
      (heval : head.isNamed Node.evalName = true → params.length ≠ 1) :
      Node.FormStaticToCall (head :: params)

/-- Compiling some nodes, one after the other, meets no other `eval` of one parameter up to the first
call. -/
inductive Node.RowStaticToCall : List Node → Prop where
  | nil : Node.RowStaticToCall []
  | cons {n : Node} {rest : List Node} (hn : n.StaticToCall)
      (h : ¬n.ReachesCall → Node.RowStaticToCall rest) : Node.RowStaticToCall (n :: rest)
end

theorem Node.rowStaticToCall {ns : List Node} (h : ∀ n ∈ ns, n.StaticToCall) :
    Node.RowStaticToCall ns := by
  induction ns with
  | nil => exact .nil
  | cons n ns ih => exact .cons (h n (by simp)) fun _ => ih fun m hm => h m (by simp [hm])

mutual
/-- It is enough that no other `eval` of one parameter is met at all, behind calls or not. -/
theorem Node.Static.toCall : ∀ {n : Node}, n.Static → n.StaticToCall
  | _, .symbol line name => .symbol line name
  | _, .number line value => .number line value
  | _, .truth line value => .truth line value
  | _, .text line value => .text line value
  | _, .list h => .list (Node.rowStaticToCall fun n hn => (h n hn).toCall)
  | _, .form h => .form h.toCall

theorem Node.StaticForm.toCall : ∀ {items : List Node}, Node.StaticForm items →
    Node.FormStaticToCall items
  | _, .empty => .empty
  | _, .proc h => .proc h
  | _, .eval hhead hcode h =>
      .eval (Node.not_isNamed_procName hhead) (Node.evalBody?_eq_some hhead hcode) h.toCall
  | _, .call hproc heval _ => .call hproc heval
end

/-! ## Along the tree -/

namespace CompileContext

variable {ctx : CompileContext} {later : List Node → Action Value} {head : Node}
  {params body : List Node}

/-- A step of the compiler either asks for the library before it does anything else, or has a result
that does not depend on anything outside the program. -/
inductive Consults {α : Type} (p : Prop)
    (x : CompileContext → (List Node → Action Value) → Action α) : Prop where
  | asks (hp : p) (h : ∀ ctx later f, ctx.library = .error f → x ctx later = throw f)
  | silent (hp : ¬p) (a : α) (h : ∀ ctx later, x ctx later = pure a)

namespace Consults

variable {α β : Type} {p q : Prop} {x : CompileContext → (List Node → Action Value) → Action α}
  {g : α → CompileContext → (List Node → Action Value) → Action β}

theorem of_pure (a : α) : Consults False fun _ _ => (pure a : Action α) :=
  .silent id a fun _ _ => rfl

theorem bind (hx : Consults p x) (hg : ¬p → ∀ a, Consults q (g a)) :
    Consults (p ∨ q) fun ctx later => x ctx later >>= fun a => g a ctx later := by
  cases hx with
  | asks hp h =>
      refine .asks (.inl hp) fun ctx later f hf => ?_
      rw [h ctx later f hf]
      rfl
  | silent hp a h =>
      cases hg hp a with
      | asks hq h' =>
          refine .asks (.inr hq) fun ctx later f hf => ?_
          rw [h ctx later, pure_bind, h' ctx later f hf]
      | silent hq b h' =>
          refine .silent (by simp [hp, hq]) b fun ctx later => ?_
          rw [h ctx later, pure_bind, h' ctx later]

theorem map (hx : Consults p x) (g : α → β) :
    Consults p fun ctx later => x ctx later >>= fun a => pure (g a) := by
  have h := hx.bind (q := False) fun _ a => of_pure (g a)
  rwa [or_false] at h

theorem congr (hx : Consults p x) (h : p ↔ q) : Consults q x := by rwa [← propext h]

end Consults

mutual
theorem consults_form : ∀ {items : List Node}, Node.FormStaticToCall items →
    Consults (Node.FormReachesCall items) fun ctx later => form ctx later items
  | _, .empty => by
      obtain ⟨u, hu⟩ := constant_nil
      refine .silent (fun h => by cases h) u fun ctx later => ?_
      rw [form, hu]
  | _, @Node.FormStaticToCall.proc head params hproc => by
      refine .silent (fun h => ?_) (.captured params) fun ctx later => form_proc hproc
      cases h <;> simp_all
  | _, @Node.FormStaticToCall.eval head params body hproc hbody h => by
      have hreaches : Node.FormReachesCall body ↔ Node.FormReachesCall (head :: params) := by
        refine ⟨.eval hproc hbody, fun h => ?_⟩
        cases h with
        | eval _ hbody' h => rwa [← Option.some.inj (hbody'.symm.trans hbody)]
        | call _ hnone => rw [hbody] at hnone; cases hnone
      simp only [form_of_evalBody? hproc hbody]
      exact (consults_form h).congr hreaches
  | _, @Node.FormStaticToCall.call head params hproc heval => by
      refine .asks (.call hproc (Node.evalBody?_eq_none heval)) fun ctx later f hf => ?_
      rw [form_call_of_length hproc heval, hf]
      rfl

theorem consults_argument : ∀ {n : Node}, n.StaticToCall →
    Consults n.ReachesCall fun ctx later => argument ctx later n
  | _, .symbol line name => by
      simp only [argument]
      exact (Consults.of_pure _).congr ⟨False.elim, fun h => by cases h⟩
  | _, .number line value => by
      simp only [argument]
      exact (Consults.of_pure _).congr ⟨False.elim, fun h => by cases h⟩
  | _, .truth line value => by
      simp only [argument]
      exact (Consults.of_pure _).congr ⟨False.elim, fun h => by cases h⟩
  | _, .text line value => by
      simp only [argument]
      exact (Consults.of_pure _).congr ⟨False.elim, fun h => by cases h⟩
  | _, .list h => by
      simp only [argument]
      refine ((consults_arguments h []).map Value.list).congr ⟨?_, ?_⟩
      · rintro ⟨n, hn, h⟩
        exact .list hn h
      · rintro (⟨hn, h⟩)
        exact ⟨_, hn, h⟩
  | _, .form h => by
      simp only [argument]
      refine ((consults_form h).map Compiled.toValue).congr ⟨.form, fun h => ?_⟩
      cases h with
      | form h => exact h

theorem consults_arguments : ∀ {ns : List Node}, Node.RowStaticToCall ns → ∀ done : List Value,
    Consults (∃ n ∈ ns, n.ReachesCall) fun ctx later => argumentsFrom ctx later done ns
  | _, .nil, done => by
      simp only [argumentsFrom]
      exact (Consults.of_pure _).congr (by simp)
  | _, .cons hn h, done => by
      simp only [argumentsFrom]
      refine ((consults_argument hn).bind fun hsilent v =>
        consults_arguments (h hsilent) (v :: done)).congr ?_
      simp
end

/-- A program either asks for the library first of all, or is compiled in the same way with any. -/
theorem consults_node {n : Node} (h : n.StaticToCall) :
    (n.ReachesCall ∧
      ∀ (ctx : CompileContext) later f, ctx.library = .error f → ctx.node later n = throw f) ∨
    (¬n.ReachesCall ∧
      ∀ (ctx ctx' : CompileContext) later later', ctx.node later n = ctx'.node later' n) := by
  by_cases hform : n.isForm = true
  · cases h with
    | form h =>
        -- A form is a unit already.
        cases consults_form h with
        | asks hp hthrow => exact .inl ⟨.form hp, hthrow⟩
        | silent hp u hu =>
            refine .inr ⟨fun h => ?_, fun ctx ctx' later later' => ?_⟩
            · cases h with
              | form h => exact hp h
            · exact (hu ctx later).trans (hu ctx' later').symm
    | _ => cases hform
  · have hform : n.isForm = false := by simpa using hform
    -- The constant of any other value may be too large, but that has to do with the value alone.
    cases consults_argument h with
    | asks hp hthrow =>
        refine .inl ⟨hp, fun ctx later f hf => ?_⟩
        rw [node_eq_argument hform, hthrow ctx later f hf]
        rfl
    | silent hp v hv =>
        refine .inr ⟨hp, fun ctx ctx' later later' => ?_⟩
        rw [node_eq_argument hform, node_eq_argument hform, hv, hv]

end CompileContext

/-! ## Whole programs -/

/-- When no `eval` of one parameter but of `proc` forms comes before the first call, a program that
reaches no call is compiled to the same whatever it refers to, be it a library, something that is no
library, or nothing; and a program that reaches a call is compiled to the error of a reference that
leads to no library, whatever else there is in the program. -/
theorem library_consulted_for_calls {n : Node} (hstatic : n.StaticToCall) :
    (¬n.ReachesCall → ∀ s s' ref ref' apply apply' settings settings' reserve reserve',
      compile (.ofReference s ref apply settings reserve) n =
        compile (.ofReference s' ref' apply' settings' reserve') n) ∧
    (n.ReachesCall → ∀ (s : Surroundings) ref apply settings reserve e,
      s.load ref = .error (.error e) →
      compile (.ofReference s ref apply settings reserve) n = pure (.error e) ∧
        (s.host.Raises e ∨ (∃ name, e = .libraryNotFound name) ∨
          ∃ name, e = .contractViolation name)) := by
  rcases CompileContext.consults_node hstatic with ⟨hreaches, hthrow⟩ | ⟨hreaches, hsame⟩
  · refine ⟨fun h => absurd hreaches h, fun _ s ref apply settings reserve e he => ?_⟩
    have hlibrary : (CompileContext.ofReference s ref apply settings reserve).library =
        .error (.error e) := by
      rw [CompileContext.ofReference, he]
      rfl
    refine ⟨?_, Surroundings.error_of_load he⟩
    rw [compile, hthrow _ _ _ hlibrary]
    rfl
  · refine ⟨fun _ s s' ref ref' apply apply' settings settings' reserve reserve' => ?_,
      fun h => absurd h hreaches⟩
    rw [compile, compile, hsame]

/-- A call in a body behind an empty form, with a parameter that would be run at once. -/
theorem library_consulted_for_calls_nested :
    let call : List Node := [.symbol 1 "f", .form .fixed [.symbol 1 "eval", .text 1 "x"]]
    let n : Node := .list [.form .fixed [], .form .fixed [.symbol 1 "eval",
      .form .fixed [.symbol 1 "proc", .form .fixed call]]]
    n.StaticToCall ∧ n.ReachesCall ∧ ∀ host apply settings reserve,
      compile (.ofReference ⟨host, .builtin⟩ (.value .nothing) apply settings reserve) n =
        pure (.error (.libraryNotFound "None")) := by
  intro call n
  have hbody : Node.evalBody? (.symbol 1 "eval")
      [.form .fixed [.symbol 1 "proc", .form .fixed call]] = some call := rfl
  have hstatic : n.StaticToCall := by
    refine .list (.cons (.form .empty) fun _ => .cons (.form ?_) fun _ => .nil)
    exact .eval rfl hbody (.call rfl (by simp [Node.isNamed, Node.evalName]))
  have hreaches : n.ReachesCall :=
    .list (List.mem_cons_of_mem _ (List.mem_singleton_self _))
      (.form (.eval rfl hbody (.call rfl rfl)))
  refine ⟨hstatic, hreaches, fun host apply settings reserve => ?_⟩
  exact ((library_consulted_for_calls hstatic).2 hreaches _ _ apply settings reserve _ rfl).1

end FormLang
