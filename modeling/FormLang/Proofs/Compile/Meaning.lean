import FormLang.Compile
import FormLang.Proofs.Action
import FormLang.Proofs.Chunk.Faithful
import FormLang.Proofs.Compile.Safety
import FormLang.Proofs.Reader.Tree
import Mathlib

set_option autoImplicit false

/-! # What programs mean

A program has a meaning that knows nothing of machines, chunks or constants: the tree is evaluated
from the leaves up, parameters from left to right before the call that they belong to
(`Node.meaning`). Compiling a program and running what comes out gives this meaning, with the same
calls in the same order (`compile_meaning`), as long as no two different numbers of the program are
equal.
-/

namespace FormLang

/-! ## Direct evaluation -/

/-- The captured body that a form runs, when it is `eval` of a `proc` form. -/
def Node.evalBody? (head : Node) (params : List Node) : Option (List Node) :=
  match params with
  | [target] =>
    if head.isNamed evalName then target.procCode?.map capturedBody else none
  | _ => none

theorem Node.evalBody?_eq_some {head target : Node} {code : List Node}
    (hhead : head.isNamed evalName = true) (hcode : target.procCode? = some code) :
    evalBody? head [target] = some (capturedBody code) := by
  rw [evalBody?, if_pos hhead, hcode]
  rfl

/-- No `eval` form but one of a single parameter takes `proc` off. -/
theorem Node.evalBody?_eq_none {head : Node} {params : List Node}
    (heval : head.isNamed evalName = true → params.length ≠ 1) : evalBody? head params = none := by
  rw [evalBody?.eq_def]
  split
  · exact if_neg fun hhead => heval hhead rfl
  · rfl

theorem Node.sizeOf_evalBody? {head : Node} {params body : List Node}
    (h : evalBody? head params = some body) : sizeOf body < sizeOf (head :: params) := by
  rw [evalBody?.eq_def] at h
  split at h
  · next target =>
    split at h
    · obtain ⟨code, hcode, rfl⟩ := Option.map_eq_some_iff.1 h
      have := sizeOf_capturedBody_lt hcode
      simp only [List.cons.sizeOf_spec]
      omega
    · cases h
  · cases h

mutual
/-- What a program comes to. A literal is its value, a bare word its name. -/
def Node.meaning (apply : Apply) (owner : String) : Node → Calling Value
  | .symbol _ name => pure (.text name)
  | .number _ n => pure (.number n)
  | .truth _ b => pure (.truth b)
  | .text _ s => pure (.text s)
  | .list elements => do
    let vs ← Node.meaningOfAll apply owner elements
    return .list vs
  | .form _ items => Node.meaningOfForm apply owner items
  | .foreign v => pure v
  termination_by n => sizeOf n

/-- What the form with some items comes to: the empty list, captured code, what captured code comes
to, or a call of the function that the head names. -/
def Node.meaningOfForm (apply : Apply) (owner : String) : List Node → Calling Value
  | [] => pure (.list [])
  | head :: params =>
    if head.isNamed Node.procName then pure (.captured params)
    else
      match _h : Node.evalBody? head params with
      | some body => Node.meaningOfForm apply owner body
      | none => do
        let vs ← Node.meaningOfAll apply owner params
        Calling.call apply (.call owner head.shown) (.list vs)
  termination_by items => sizeOf items
  decreasing_by
  · -- The captured body is part of the form.
    exact Node.sizeOf_evalBody? _h
  · simp only [List.cons.sizeOf_spec]
    omega

/-- What some programs come to, one after the other. -/
def Node.meaningOfAll (apply : Apply) (owner : String) : List Node → Calling (List Value)
  | [] => pure []
  | n :: rest => do
    let v ← n.meaning apply owner
    let vs ← Node.meaningOfAll apply owner rest
    return v :: vs
  termination_by ns => sizeOf ns
end

namespace Node

variable {apply : Apply} {owner : String} {head : Node} {params body : List Node}

theorem meaningOfForm_proc (h : head.isNamed procName = true) :
    meaningOfForm apply owner (head :: params) = pure (.captured params) := by
  rw [meaningOfForm, if_pos h]

theorem meaningOfForm_eval (hproc : head.isNamed procName = false)
    (hbody : evalBody? head params = some body) :
    meaningOfForm apply owner (head :: params) = meaningOfForm apply owner body := by
  rw [meaningOfForm, if_neg (by simp [hproc])]
  split
  · next body' h =>
    obtain rfl := Option.some.inj (h.symm.trans hbody)
    rfl
  · next h =>
    rw [hbody] at h
    cases h

theorem meaningOfForm_call (hproc : head.isNamed procName = false)
    (hbody : evalBody? head params = none) :
    meaningOfForm apply owner (head :: params) = (do
      let vs ← meaningOfAll apply owner params
      Calling.call apply (.call owner head.shown) (.list vs)) := by
  rw [meaningOfForm, if_neg (by simp [hproc])]
  split
  · next h =>
    rw [hbody] at h
    cases h
  · rfl

end Node

mutual
/-- Compiling the node runs no code: each `eval` of one parameter that it reaches is of a `proc`
form. -/
inductive Node.Static : Node → Prop where
  | symbol (line : Int) (name : String) : Node.Static (.symbol line name)
  | number (line : Int) (value : Numeral) : Node.Static (.number line value)
  | truth (line : Int) (value : Bool) : Node.Static (.truth line value)
  | text (line : Int) (value : String) : Node.Static (.text line value)
  | list {elements : List Node} (h : ∀ n ∈ elements, n.Static) : Node.Static (.list elements)
  | form {style : FormStyle} {items : List Node} (h : Node.StaticForm items) :
      Node.Static (.form style items)

/-- Compiling the form with some items runs no code. -/
inductive Node.StaticForm : List Node → Prop where
  | empty : Node.StaticForm []
  | proc {head : Node} {params : List Node} (h : head.isNamed Node.procName = true) :
      Node.StaticForm (head :: params)
  | eval {head target : Node} {code : List Node} (hhead : head.isNamed Node.evalName = true)
      (hcode : target.procCode? = some code) (h : Node.StaticForm (Node.capturedBody code)) :
      Node.StaticForm [head, target]
  | call {head : Node} {params : List Node} (hproc : head.isNamed Node.procName = false)
      (heval : head.isNamed Node.evalName = true → params.length ≠ 1)
      (h : ∀ n ∈ params, n.Static) : Node.StaticForm (head :: params)
end

/-! ## Steps of the compiler -/

/-- The unit comes to what a computation says, and can be built into other units. -/
structure Compiled.Means (S : Value → Prop) (apply : Apply) (u : Compiled) (x : Calling Value) :
    Prop where
  wellFormed : u.WellFormed
  faithful : u.toValue.Faithful S
  expand : u.toValue.expand apply = x

namespace CompileContext

variable {S : Value → Prop} {ctx : CompileContext} {later : List Node → Action Value}
  {owner : String} {exports : List String} {v : Value} {args : List Value} {head : Node}
  {params : List Node} {x : Calling (List Value)}

theorem means_constant (hS : Separated S) (h : v.Faithful S) :
    Tracked.Yields (fun u => u.Means S ctx.apply (v.expand ctx.apply)) (constant v) := by
  refine (Action.yields_ofFault fun c hc => hc).bind fun c hc => Tracked.yields_pure ?_
  exact ⟨h.emittable.ofValue hc, Chunk.faithful_ofValue h hc,
    Chunk.outcome_of_faithful hS h hc⟩

theorem yields_sourceText (writable : Bool) (text : String) :
    Tracked.Yields (· = text) (sourceText writable text) := by
  rw [sourceText]
  split
  · exact Tracked.yields_pure rfl
  · exact Tracked.yields_throw _

/-- A call that is resolved becomes the code of a call of the function that its head names. -/
theorem yields_resolve {P : Compiled → Prop}
    (h : ∀ c, Chunk.ofCall (.callable (.call owner head.shown)) args = .ok c → P (.chunk c)) :
    Tracked.Yields P (ctx.resolve (.ofExports owner exports) head params args) := by
  refine (yields_sourceText head.writable head.shown).bind fun name hname => ?_
  subst hname
  refine (Tracked.yields_true _).bind fun _ _ => ?_
  have hresolve : Tracked.Yields (fun r => ∀ c, r = .fragment c →
      Chunk.ofCall (.callable (.call owner head.shown)) args = .ok c)
      (Action.ofExcept ((Library.ofExports owner exports).resolve ⟨head.shown, args⟩)) := by
    refine Action.yields_ofExcept fun r hr => ?_
    rintro c rfl
    simp only [Library.ofExports] at hr
    split at hr
    · -- The function is exported, and the answer is the code of the call.
      cases hcall : Chunk.ofCall (.callable (.call owner head.shown)) args with
      | ok c' =>
          rw [hcall] at hr
          cases hr
          rfl
      | error f =>
          rw [hcall] at hr
          cases hr
    · cases hr
  refine hresolve.bind fun r hr => ?_
  split
  · next c => exact Tracked.yields_pure (h c (hr c rfl))
  · exact Tracked.yields_throw _
  · exact (Tracked.yields_true _).bind fun _ _ => Tracked.yields_throw _

theorem means_resolve (hS : Separated S) (hargs : ∀ v ∈ args, v.Faithful S)
    (hx : Value.expandAll ctx.apply args = x) :
    Tracked.Yields (fun u => u.Means S ctx.apply (do
        let vs ← x
        Calling.call ctx.apply (.call owner head.shown) (.list vs)))
      (ctx.resolve (.ofExports owner exports) head params args) := by
  refine yields_resolve fun c hc => ⟨?_, Chunk.faithful_ofCall hargs hc, ?_⟩
  · exact (Value.Faithful.list hargs).emittable.ofCall hc
  · rw [← hx]
    exact Chunk.outcome_call_of_faithful hS hargs hc

/-! ## Along the tree -/

/-- The value that a parameter is compiled to comes to what the parameter means. -/
def MeansArgument (S : Value → Prop) (apply : Apply) (owner : String) (n : Node) (v : Value) :
    Prop :=
  v.Faithful S ∧ v.expand apply = n.meaning apply owner

theorem means_arguments {ns : List Node}
    (h : ∀ n ∈ ns, Tracked.Yields (MeansArgument S ctx.apply owner n) (argument ctx later n))
    (done : List Value) :
    Tracked.Yields (fun vs => ∃ ws, vs = done.reverse ++ ws ∧ (∀ v ∈ ws, v.Faithful S) ∧
      Value.expandAll ctx.apply ws = Node.meaningOfAll ctx.apply owner ns)
      (argumentsFrom ctx later done ns) := by
  induction ns generalizing done with
  | nil =>
      rw [argumentsFrom]
      exact Tracked.yields_pure ⟨[], by simp, by simp, by rw [Value.expandAll, Node.meaningOfAll]⟩
  | cons n rest ih =>
      rw [argumentsFrom]
      -- What has been compiled is collected in reverse, and only the rest has a meaning yet.
      refine (h n (by simp)).bind fun v hv => ?_
      refine (ih (fun m hm => h m (by simp [hm])) (v :: done)).imp fun vs hvs => ?_
      obtain ⟨ws, rfl, hfaithful, hexpand⟩ := hvs
      refine ⟨v :: ws, by simp, List.forall_mem_cons.2 ⟨hv.1, hfaithful⟩, ?_⟩
      rw [Value.expandAll, Node.meaningOfAll, hv.2, hexpand]

theorem allOver_capturedBody {n : Node} {code : List Node} (hcode : n.procCode? = some code)
    (h : n.Over S) : Node.AllOver S (Node.capturedBody code) := by
  obtain ⟨style, line, rfl⟩ := Node.eq_of_procCode? hcode
  rw [Node.capturedBody.eq_def]
  split
  · exact h.2.1
  · exact h.2

theorem allWritable_capturedBody {n : Node} {code : List Node} (hcode : n.procCode? = some code)
    (h : n.writable = true) : Node.allWritable (Node.capturedBody code) = true := by
  obtain ⟨style, line, rfl⟩ := Node.eq_of_procCode? hcode
  simp only [Node.writable, Node.allWritable, Bool.true_and] at h
  rw [Node.capturedBody.eq_def]
  split
  · simpa [Node.allWritable, Node.writable] using h
  · exact h

theorem meansArgument_of_atomic {n : Node} (h : v.Atomic) (hover : v.Over S)
    (hwritable : v.writable = true) (hmeaning : n.meaning ctx.apply owner = pure v) :
    MeansArgument S ctx.apply owner n v :=
  ⟨Value.faithful_of_atomic h hover hwritable, by rw [hmeaning, Value.expand_of_atomic h]⟩

theorem means_captured {code : List Node} (hover : Node.AllOver S code)
    (hwritable : Node.allWritable code = true) :
    (Compiled.captured code).Means S ctx.apply (pure (.captured code)) := by
  have hatomic := Value.atomic_captured code
  have hcaptured : (Value.captured code).writable = true := by rwa [Value.writable]
  exact ⟨trivial, Value.faithful_of_atomic hatomic hover hcaptured, Value.expand_of_atomic hatomic⟩

theorem means_call (hS : Separated S) (hctx : ctx.Exports owner exports)
    (hargs : ∀ n ∈ params,
      Tracked.Yields (MeansArgument S ctx.apply owner n) (argument ctx later n)) :
    Tracked.Yields (fun u => u.Means S ctx.apply (do
        let vs ← Node.meaningOfAll ctx.apply owner params
        Calling.call ctx.apply (.call owner head.shown) (.list vs)))
      (do
        let library ← Action.ofExcept ctx.library
        let args ← argumentsFrom ctx later [] params
        ctx.resolve library head params args) := by
  refine (Action.yields_ofExcept fun library hl => hctx library hl).bind fun library hl => ?_
  subst hl
  refine (means_arguments hargs []).bind fun args hargs => ?_
  obtain ⟨ws, rfl, hfaithful, hexpand⟩ := hargs
  exact means_resolve hS hfaithful hexpand

/-- An `eval` form that takes `proc` off is compiled as the body. -/
theorem form_of_evalBody? {body : List Node} (hproc : head.isNamed Node.procName = false)
    (hbody : Node.evalBody? head params = some body) :
    form ctx later (head :: params) = form ctx later body := by
  rw [Node.evalBody?.eq_def] at hbody
  split at hbody
  · next target =>
    split at hbody
    · next hhead =>
      obtain ⟨code, hcode, rfl⟩ := Option.map_eq_some_iff.1 hbody
      obtain ⟨line, rfl⟩ := Node.eq_of_isNamed hhead
      exact form_unwrap hcode
    · cases hbody
  · cases hbody

mutual
theorem means_form (hS : Separated S) (hctx : ctx.Exports owner exports) :
    ∀ {items : List Node}, Node.StaticForm items → Node.AllOver S items →
    Node.allWritable items = true →
    Tracked.Yields (fun u => u.Means S ctx.apply (Node.meaningOfForm ctx.apply owner items))
      (form ctx later items)
  | [], .empty, _, _ => by
      have hnil : (Value.list []).expand ctx.apply = Node.meaningOfForm ctx.apply owner [] := by
        rw [Node.meaningOfForm, Value.expand, Value.expandAll]
        rfl
      rw [form, ← hnil]
      exact means_constant hS (Value.Faithful.list (by simp))
  | head :: params, .proc hhead, hover, hwritable => by
      rw [form_proc hhead, Node.meaningOfForm_proc hhead]
      exact Tracked.yields_pure (means_captured hover.2
        (Node.allWritable_iff.2 fun n hn => Node.allWritable_iff.1 hwritable n (by simp [hn])))
  | [head, target], @Node.StaticForm.eval _ _ code hhead hcode h, hover, hwritable => by
      have hproc := Node.not_isNamed_procName hhead
      have hbody := Node.evalBody?_eq_some hhead hcode
      have hwritable := Node.allWritable_iff.1 hwritable target (by simp)
      -- Both sides go on with the captured body in the place of the form.
      rw [form_of_evalBody? hproc hbody, Node.meaningOfForm_eval hproc hbody]
      exact means_form hS hctx h (allOver_capturedBody hcode hover.2.1)
        (allWritable_capturedBody hcode hwritable)
  | head :: params, .call hproc heval h, hover, hwritable => by
      have hargs : ∀ n ∈ params,
          Tracked.Yields (MeansArgument S ctx.apply owner n) (argument ctx later n) :=
        fun n hn => means_argument hS hctx (h n hn) (Node.allOver_iff.1 hover n (by simp [hn]))
          (Node.allWritable_iff.1 hwritable n (by simp [hn]))
      rw [form_call_of_length hproc heval,
        Node.meaningOfForm_call hproc (Node.evalBody?_eq_none heval)]
      exact means_call hS hctx hargs

theorem means_argument (hS : Separated S) (hctx : ctx.Exports owner exports) :
    ∀ {n : Node}, n.Static → n.Over S → n.writable = true →
    Tracked.Yields (MeansArgument S ctx.apply owner n) (argument ctx later n)
  | .symbol _ name, .symbol _ _, _, _ => by
      rw [argument]
      exact Tracked.yields_pure (meansArgument_of_atomic (Value.atomic_text name) trivial
        (by simp [Value.writable]) (by rw [Node.meaning]))
  | .number _ k, .number _ _, hover, hwritable => by
      rw [Node.writable] at hwritable
      rw [argument]
      exact Tracked.yields_pure (meansArgument_of_atomic (Value.atomic_number k) hover
        (by rwa [Value.writable]) (by rw [Node.meaning]))
  | .truth _ b, .truth _ _, hover, _ => by
      rw [argument]
      exact Tracked.yields_pure (meansArgument_of_atomic (Value.atomic_truth b) hover
        (by simp [Value.writable]) (by rw [Node.meaning]))
  | .text _ s, .text _ _, _, _ => by
      rw [argument]
      exact Tracked.yields_pure (meansArgument_of_atomic (Value.atomic_text s) trivial
        (by simp [Value.writable]) (by rw [Node.meaning]))
  | .list elements, .list h, hover, hwritable => by
      rw [argument]
      have hargs : ∀ n ∈ elements,
          Tracked.Yields (MeansArgument S ctx.apply owner n) (argument ctx later n) :=
        fun n hn => means_argument hS hctx (h n hn) (Node.allOver_iff.1 hover n hn)
          (Node.allWritable_iff.1 hwritable n hn)
      refine (means_arguments hargs []).bind fun vs hvs => Tracked.yields_pure ?_
      obtain ⟨ws, rfl, hfaithful, hexpand⟩ := hvs
      refine ⟨Value.Faithful.list hfaithful, ?_⟩
      rw [Node.meaning, ← hexpand]
      rfl
  | .form _ items, .form h, hover, hwritable => by
      rw [argument]
      exact (means_form hS hctx h hover hwritable).bind fun u hu =>
        Tracked.yields_pure ⟨hu.faithful, by rw [hu.expand, Node.meaning]⟩
end

theorem means_node (hS : Separated S) (hctx : ctx.Exports owner exports) {n : Node}
    (hstatic : n.Static) (hover : n.Over S) (hwritable : n.writable = true) :
    Tracked.Yields (fun u => u.Means S ctx.apply (n.meaning ctx.apply owner))
      (ctx.node later n) := by
  cases hstatic with
  | form h =>
      rw [Node.writable] at hwritable
      rw [node.eq_def, Node.meaning]
      exact means_form hS hctx h hover hwritable
  | _ =>
      rw [node.eq_def]
      refine (means_argument hS hctx (by constructor <;> assumption) hover hwritable).bind
        fun v hv => ?_
      rw [← hv.2]
      exact means_constant hS hv.1

end CompileContext

/-! ## Whole programs -/

/-- A program that was read, in which no code is run while compiling and no two different numbers
are equal, is compiled to its meaning. A chunk makes the same calls, in the same order and with the
same arguments, and has the same value or failure, on either machine; and evaluating a unit has that
value or failure whatever the settings are, provided that they name a machine. -/
theorem compile_meaning {ctx : CompileContext} {owner : String} {exports : List String}
    {source : String} {n : Node} {u : Compiled} {j j' : Journal} (hread : read source = .ok n)
    (hctx : ctx.Exports owner exports) (hstatic : n.Static)
    (hnumbers : ∀ a ∈ n.numbers, ∀ b ∈ n.numbers, a.equals b = true → a = b)
    (hcompile : (compile ctx n).run j = (.ok (.ok u), j')) :
    (∀ c, u = .chunk c → ∀ backend nextMark, runOn backend ctx.apply nextMark c.toValue =
      (n.meaning ctx.apply owner).run ⟨[], nextMark⟩) ∧
    (∀ code, u = .captured code → n.meaning ctx.apply owner = pure (.captured code)) ∧
    ∀ settings backend? b, Settings.Choose settings backend? b → ∀ j, ∃ j',
      (evaluate ctx.apply settings backend? u.toValue).run j =
        (((n.meaning ctx.apply owner).run ⟨[], j.nextMark⟩).1, j') := by
  -- A tree that was read is made over its own numbers, and these are separated.
  have hreadable := read_readable hread
  have hS := separated_numbers hnumbers
  have hover : n.Over fun v => ∃ k ∈ n.numbers, v = .number k :=
    hreadable.over fun k hk => ⟨k, hk, rfl⟩
  have hmeans := CompileContext.means_node hS hctx hstatic hover hreadable.writable j u j'
    (Action.of_run_catchError hcompile)
  cases u with
  | chunk c =>
      have houtcome : c.toValue.outcome ctx.apply = n.meaning ctx.apply owner := by
        rw [← hmeans.expand]
        exact (Value.expand_of_kind_chunk rfl).symm
      have hwell : c.toValue.WellFormed Value.Atomic := hmeans.wellFormed
      have hlistable : c.toValue.Listable :=
        hmeans.faithful.listable _ (by simp [Compiled.toValue, Chunk.toValue, Value.leaves])
      -- A chunk is run, and evaluated, to its outcome; nothing fails before it is run.
      refine ⟨?_, by simp, ?_⟩
      · rintro _ ⟨⟩ backend nextMark
        rw [hwell.runOn_eq, houtcome]
      · intro settings backend? b hb j
        obtain ⟨j', hrun, -⟩ := run_evaluate hwell (fun _ => hlistable "") hb j
        rw [houtcome] at hrun
        exact ⟨j', hrun⟩
  | captured code =>
      have hmeaning : n.meaning ctx.apply owner = pure (.captured code) := by
        rw [← hmeans.expand]
        exact Value.expand_of_atomic (Value.atomic_captured code)
      refine ⟨by simp, ?_, ?_⟩
      · rintro _ ⟨⟩
        exact hmeaning
      · intro settings backend? b hb j
        rw [hmeaning, Compiled.toValue, evaluate_captured]
        exact ⟨j, rfl⟩

/-- A call with what captured code comes to and a list. -/
theorem compile_meaning_unwrapped :
    let ctx : CompileContext := ⟨.ok (.ofExports "m" ["f"]), "m", fun _ v => .ok v, .none, 0⟩
    let n : Node := .form .fixed [.symbol 1 "f",
      .form .fixed [.symbol 1 "eval", .form .fixed [.symbol 1 "proc",
        .form .fixed [.symbol 1 "f", .number 1 (.int 2)]]],
      .list [.symbol 1 "x"]]
    let inner : Chunk := ⟨#[0x05, 0, 0, 0x51, 0, 1, 0x40, 0, 1, 0x24],
      [.number (.int 2), .callable (.call "m" "f")]⟩
    let c : Chunk := ⟨#[0x41, 0, 0, 0x05, 0, 1, 0x51, 0, 1, 0x51, 0, 2, 0x40, 0, 2, 0x24],
      [inner.toValue, .text "x", .callable (.call "m" "f")]⟩
    read "(f (eval (proc (f 2))) [x])" = .ok n ∧
      ((compile ctx n).run (.blank 0)).1 = .ok (.ok (.chunk c)) ∧
      ∀ backend nextMark, runOn backend ctx.apply nextMark c.toValue =
        (n.meaning ctx.apply "m").run ⟨[], nextMark⟩ := by
  intro ctx n inner c
  have hread : read "(f (eval (proc (f 2))) [x])" = .ok n := by
    unfold n
    cbv
  have hctx : ctx.Exports "m" ["f"] := fun library hlib => (Except.ok.inj hlib).symm
  have hinner : Node.StaticForm [.symbol 1 "f", .number 1 (.int 2)] := by
    refine .call rfl (by simp [Node.isNamed, Node.evalName]) fun m hm => ?_
    obtain rfl := List.mem_singleton.1 hm
    exact .number 1 (.int 2)
  have hstatic : n.Static := by
    have hlist : Node.Static (.list [.symbol 1 "x"]) := by
      refine .list fun m hm => ?_
      obtain rfl := List.mem_singleton.1 hm
      exact .symbol 1 "x"
    refine .form (.call rfl (by simp) fun m hm => ?_)
    obtain rfl | rfl : m = _ ∨ m = _ := by simpa using hm
    · exact .form (.eval rfl rfl hinner)
    · exact hlist
  have hnumbers : ∀ a ∈ n.numbers, ∀ b ∈ n.numbers, a.equals b = true → a = b := by
    simp [n, Node.numbers, Node.numbersOfAll]
  have hcompile : (compile ctx n).run (.blank 0) = (.ok (.ok (.chunk c)),
      ⟨[⟨"f", [inner.toValue, .list [.text "x"]]⟩, ⟨"f", [.number (.int 2)]⟩], [], [], 0⟩) := by
    unfold n ctx c inner
    cbv
  obtain ⟨hrun, -⟩ := compile_meaning hread hctx hstatic hnumbers hcompile
  exact ⟨hread, by rw [hcompile], hrun c rfl⟩

end FormLang
