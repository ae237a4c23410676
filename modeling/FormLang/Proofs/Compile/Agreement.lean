import FormLang.Compile
import FormLang.Proofs.Agreement
import FormLang.Proofs.Chunk.Emission
import FormLang.Proofs.Chunk.Safety
import FormLang.Proofs.Compile.Quotes
import FormLang.Proofs.Failure

set_option autoImplicit false

/-! # Along the compiler

The compiler is followed along the tree here, once and for all. What running captured code comes to
is left open: two compilers that agree on the code which a program can capture agree on the program
(`CompileContext.agree_form`). On the way nothing gets into compiled code or into values that is not
a part of the program or came out of a function; what the parts are is left open too, as long as
they are of a kind (`CompileContext.Keeps`).
-/

namespace FormLang

/-- A unit that can be run, and pushes only parts of a kind. -/
def Compiled.MadeOf (Q : Value → Prop) : Compiled → Prop
  | .chunk c => c.toValue.WellFormed Q
  | .captured code => Q (.captured code)

theorem Compiled.MadeOf.builtOf {Q : Value → Prop} {u : Compiled} (hQ : PartKind Q)
    (h : u.MadeOf Q) : u.toValue.BuiltOf Q := by
  cases u with
  | chunk c => exact (Value.forall_leaves_of_ne c.kind_toValue).2 (.inr h)
  | captured code => exact (Value.madeOf_of hQ h).builtOf

/-- The library, if it can be had, answers requests for its functions with calls of them. -/
def CompileContext.Exports (ctx : CompileContext) (owner : String) (exports : List String) : Prop :=
  ∀ library, ctx.library = .ok library → library = .ofExports owner exports

/-- What the compiler depends on keeps to parts of a kind, and fails in known ways. -/
structure CompileContext.Keeps (ctx : CompileContext) (owner : String) (exports : List String)
    (Q : Value → Prop) (E : Failure → Prop) : Prop where
  kind : PartKind Q
  exports : ctx.Exports owner exports
  apply : KeepsParts Q ctx.apply
  usual : ∀ f, f.Usual Q → E f
  library : ∀ f, ctx.library = .error f → E f
  applyFails : ∀ g args f, ctx.apply g args = .error f → E f

namespace CompileContext

variable {ctx : CompileContext} {owner : String} {exports : List String} {Q : Value → Prop}
  {E : Failure → Prop} {R : Journal → Journal → Prop} {later later' : List Node → Action Value}
  {v : Value} {args : List Value} {head target : Node} {params : List Node}

/-! ## Running units -/

theorem Keeps.fault (hctx : ctx.Keeps owner exports Q E) {f : Fault} (h : f ≠ .evaluationDepth) :
    E (.fault f) :=
  hctx.usual _ (Failure.regular_fault h).usual

theorem Keeps.error (hctx : ctx.Keeps owner exports Q E) {e : ProgramError}
    (h : ∀ v line, e ≠ .notCaptured v line) : E (.error e) :=
  hctx.usual _ (Failure.regular_error h).usual

theorem agree_printListing (hctx : ctx.Keeps owner exports Q E) (hR : Likeness R) (unit : Value) :
    Tracked.Agree R E (fun _ => True) (printListing unit) (printListing unit) := by
  have hlisting : Ensures (fun f => E (.fault f)) (fun _ => True) (unit.listing "") := by
    refine (unit.ensures_listing "").imp (fun f hf => hctx.fault ?_) fun _ _ => trivial
    obtain rfl | ⟨text, rfl⟩ | rfl := hf <;> simp
  refine (Action.agree_printLine hR _).bind fun _ _ => ?_
  refine (Action.agree_ofFault hlisting).bind fun _ _ => ?_
  exact (Action.agree_printLine hR _).bind fun _ _ => Action.agree_printLine hR _

theorem agree_prepare (hctx : ctx.Keeps owner exports Q E) (hR : Likeness R) (settings : Settings)
    (unit : Value) :
    Tracked.Agree R E (fun _ => True) (prepare settings none unit)
      (prepare settings none unit) := by
  have hbackend : Tracked.Agree R E (fun _ => True) (chooseBackend settings none)
      (chooseBackend settings none) := by
    refine Action.agree_ofFault ?_
    rw [Settings.backend.eq_def]
    dsimp only
    split
    · trivial
    · exact hctx.fault (by simp)
  by_cases hlisting : settings.listing = true
  · rw [prepare, if_pos hlisting]
    exact (agree_printListing hctx hR unit).bind fun _ _ => hbackend
  · rw [prepare, if_neg hlisting]
    exact hbackend

/-- A unit that is run hands out what its functions hand out, and fails as they do. -/
theorem agree_run (hctx : ctx.Keeps owner exports Q E) (hR : Likeness R) {unit : Compiled}
    (h : unit.MadeOf Q) : Tracked.Agree R E (Value.MadeOf Q) (ctx.run unit) (ctx.run unit) := by
  rw [run]
  cases unit with
  | captured code =>
      rw [Compiled.toValue, evaluate_captured]
      exact Tracked.agree_pure (Value.madeOf_of hctx.kind h)
  | chunk c =>
      have hwell : c.toValue.WellFormed Q := h
      rw [Compiled.toValue, evaluate_of_wellFormed hwell]
      refine (agree_prepare hctx hR _ _).bind fun _ _ => Calling.agree_perform hR fun r => ?_
      rcases hrun : (c.toValue.outcome ctx.apply).run r with ⟨f | v, r'⟩
      · obtain ⟨g, args, calls, -, hfails⟩ := hwell.blames r f r' hrun
        exact hctx.applyFails g args f hfails
      · exact hwell.yields_madeOf hctx.kind hctx.apply r v r' hrun

/-! ## Steps of the compiler -/

theorem agree_constant (hctx : ctx.Keeps owner exports Q E) (h : v.BuiltOf Q) :
    Tracked.Agree R E (Compiled.MadeOf Q) (constant v) (constant v) := by
  have hchunk : Ensures (fun f => E (.fault f)) (fun c => c.toValue.WellFormed Q)
      (Chunk.ofValue v) := by
    rcases hc : Chunk.ofValue v with f | c
    · obtain ⟨n, rfl⟩ := Chunk.ofValue_eq_error hc
      exact hctx.fault (by simp)
    · exact h.ofValue hctx.kind hc
  exact (Action.agree_ofFault hchunk).bind fun c hc => Tracked.agree_pure hc

theorem agree_ofResult (hctx : ctx.Keeps owner exports Q E) (h : v.MadeOf Q) :
    Tracked.Agree R E (Compiled.MadeOf Q) (ofResult v) (ofResult v) := by
  rw [ofResult.eq_def]
  split
  · next code => exact Tracked.agree_pure (h _ (by simp [Value.leaves]))
  · exact agree_constant hctx h.builtOf

theorem agree_sourceText (hctx : ctx.Keeps owner exports Q E) (writable : Bool) (text : String) :
    Tracked.Agree R E (fun _ => True) (sourceText writable text) (sourceText writable text) := by
  rw [sourceText]
  split
  · exact Tracked.agree_pure trivial
  · exact Tracked.agree_throw (hctx.fault (by simp))

/-- What a library answers that exports functions. -/
theorem ensures_resolve (hctx : ctx.Keeps owner exports Q E) (name : String)
    (hargs : (Value.list args).BuiltOf Q) :
    Ensures E (fun r => ∀ c, r = .fragment c → c.toValue.WellFormed Q)
      ((Library.ofExports owner exports).resolve ⟨name, args⟩) := by
  simp only [Library.ofExports]
  split
  · rcases hc : Chunk.ofCall (.callable (.call owner name)) args with f | c
    · obtain ⟨n, rfl⟩ := Chunk.ofCall_eq_error hc
      exact hctx.fault (by simp)
    · rintro c' ⟨⟩
      exact hargs.ofCall hctx.kind hc
  · rintro c ⟨⟩

theorem agree_resolve (hctx : ctx.Keeps owner exports Q E) (hR : Likeness R)
    (hargs : (Value.list args).BuiltOf Q) :
    Tracked.Agree R E (Compiled.MadeOf Q)
      (ctx.resolve (.ofExports owner exports) head params args)
      (ctx.resolve (.ofExports owner exports) head params args) := by
  refine (agree_sourceText hctx head.writable head.shown).bind fun name _ => ?_
  refine (Action.agree_request hR _).bind fun _ _ => ?_
  refine (Action.agree_ofExcept (ensures_resolve hctx name hargs)).bind fun r hr => ?_
  split
  · next c => exact Tracked.agree_pure (hr c rfl)
  · exact Tracked.agree_throw (hctx.error (by simp))
  · exact (agree_sourceText hctx _ _).bind fun _ _ =>
      Tracked.agree_throw (hctx.error (by simp))

/-! ## Along the tree -/

/-- What a parameter may be compiled to: code can be emitted for it, and a form is compiled to
something that can be run. -/
def Argument (Q : Value → Prop) (n : Node) (v : Value) : Prop :=
  v.BuiltOf Q ∧ (n.isForm = true → ∃ u : Compiled, u.MadeOf Q ∧ u.toValue = v)

theorem argument_of_codeless {n : Node} (hQ : PartKind Q) (h : v.Codeless)
    (hn : n.isForm = false) : Argument Q n v :=
  ⟨(Value.madeOf_of hQ (hQ.codeless h)).builtOf, fun hform => by
    rw [hn] at hform
    cases hform⟩

/-- Runs the parameter of an `eval` form while the program is being compiled. -/
def runTarget (ctx : CompileContext) (later : List Node → Action Value) (target : Node) :
    Action Value := do
  let v ← argument ctx later target
  let unit ← unitOf target v
  evaluate ctx.apply ctx.settings none unit

/-- A form is a unit already. -/
theorem runTarget_form {style : FormStyle} {items : List Node} :
    ctx.runTarget later (.form style items) = form ctx later items >>= ctx.run := by
  have hunit : ∀ v, unitOf (.form style items) v = pure v := fun v => if_pos rfl
  simp only [runTarget, argument, hunit, bind_assoc, pure_bind]
  rfl

/-- An `eval` form of a `proc` form is compiled as the form that the code stands for. -/
theorem form_unwrap {line : Int} {code : List Node} (h : target.procCode? = some code) :
    form ctx later [.symbol line Node.evalName, target] =
      form ctx later (Node.capturedBody code) := by
  rw [form.eq_def]
  dsimp only
  rw [if_neg (by simp [Node.isNamed, Node.evalName, Node.procName]),
    if_pos (by simp [Node.isNamed]), unwrap_of_procCode? h]

/-- An `eval` form of a parameter that is no `proc` form runs it and what it comes to. -/
theorem form_eval {line : Int} (h : target.procCode? = none) :
    form ctx later [.symbol line Node.evalName, target] = (do
      let v ← ctx.runTarget later target
      runCaptured later line v) := by
  have hotherwise : ∀ otherwise, unwrap ctx later target otherwise = otherwise := by
    intro otherwise
    rw [unwrap.eq_def]
    split
    · next style head code =>
      refine if_neg fun hproc => ?_
      obtain ⟨line', rfl⟩ := Node.eq_of_isNamed hproc
      simp [Node.procCode?] at h
    · rfl
  rw [form.eq_def]
  dsimp only
  rw [if_neg (by simp [Node.isNamed, Node.evalName, Node.procName]),
    if_pos (by simp [Node.isNamed]), hotherwise, runTarget]
  simp [Node.line]

/-- A `proc` form is what stands behind the word. -/
theorem form_proc (hproc : head.isNamed Node.procName = true) :
    form ctx later (head :: params) = pure (.captured params) := by
  rw [form.eq_def]
  exact if_pos hproc

/-- A form that captures nothing is a call of what its head names, unless it is an `eval` of one
parameter. -/
theorem form_call_of_length (hproc : head.isNamed Node.procName = false)
    (heval : head.isNamed Node.evalName = true → params.length ≠ 1) :
    form ctx later (head :: params) = (do
      let library ← Action.ofExcept ctx.library
      let args ← argumentsFrom ctx later [] params
      ctx.resolve library head params args) := by
  rw [form.eq_def]
  dsimp only
  rw [if_neg (by simp [hproc])]
  split
  · rw [if_neg fun hhead => heval hhead rfl]
  · rfl

/-- Any form that captures and runs nothing is a call of what its head names. -/
theorem form_call (hproc : head.isNamed Node.procName = false)
    (heval : head.isNamed Node.evalName = false) :
    form ctx later (head :: params) = (do
      let library ← Action.ofExcept ctx.library
      let args ← argumentsFrom ctx later [] params
      ctx.resolve library head params args) :=
  form_call_of_length hproc (by simp [heval])

/-- What the compiler takes a form for: captured code, an `eval` of a `proc` form, an `eval` of any
other parameter, or a call. -/
inductive FormView : Node → List Node → Prop where
  | proc (line : Int) (params : List Node) : FormView (.symbol line Node.procName) params
  | unwrap {line : Int} {target : Node} {code : List Node} (hcode : target.procCode? = some code) :
      FormView (.symbol line Node.evalName) [target]
  | stage {line : Int} {target : Node} (hcode : target.procCode? = none) :
      FormView (.symbol line Node.evalName) [target]
  | call {head : Node} {params : List Node} (hproc : head.isNamed Node.procName = false)
      (heval : head.isNamed Node.evalName = true → params.length ≠ 1) : FormView head params

theorem formView (head : Node) (params : List Node) : FormView head params := by
  by_cases hproc : head.isNamed Node.procName = true
  · obtain ⟨line, rfl⟩ := Node.eq_of_isNamed hproc
    exact .proc line params
  by_cases heval : head.isNamed Node.evalName = true ∧ params.length = 1
  · obtain ⟨hhead, hlength⟩ := heval
    obtain ⟨line, rfl⟩ := Node.eq_of_isNamed hhead
    obtain ⟨target, rfl⟩ := List.length_eq_one_iff.1 hlength
    cases hcode : target.procCode? with
    | some code => exact .unwrap hcode
    | none => exact .stage hcode
  · exact .call (by simpa using hproc) fun hhead hlength => heval ⟨hhead, hlength⟩

/-- The empty form is compiled to the chunk of the empty list. -/
theorem constant_nil : ∃ u, constant (.list []) = pure u := ⟨_, rfl⟩

/-- A program that is no form is compiled to the constant of what it is as a parameter. -/
theorem node_eq_argument {n : Node} (h : n.isForm = false) :
    ctx.node later n = argument ctx later n >>= constant := by
  rw [node.eq_def]
  split
  · cases h
  · rfl

/-- What is run at once is compiled and run like a program. -/
theorem runTarget_eq (ctx : CompileContext) (later : List Node → Action Value) (n : Node) :
    ctx.runTarget later n = ctx.node later n >>= ctx.run := by
  by_cases hform : n.isForm = true
  · cases n with
    | form style items => rw [runTarget_form, node]
    | _ => cases hform
  · have hunit : ∀ v, unitOf n v = (do
        let unit ← constant v
        return unit.toValue) := fun v => if_neg hform
    rw [node_eq_argument (by simpa using hform)]
    simp only [runTarget, hunit, bind_assoc, pure_bind]
    rfl

/-- A bare word is its own source text. -/
theorem sourceText_symbol (line : Int) (name : String) :
    sourceText (Node.symbol line name).writable (Node.symbol line name).shown = pure name := by
  rw [sourceText, if_pos (by simp [Node.writable])]
  rfl

/-- A call of a function that the library exports is resolved, unless it is too large. -/
theorem resolve_ofExports {line : Int} {name : String} {c : Chunk}
    (hname : exports.contains name = true)
    (hc : Chunk.ofCall (.callable (.call owner name)) args = .ok c) :
    ctx.resolve (.ofExports owner exports) (.symbol line name) params args = (do
      Action.request ⟨name, args⟩
      return .chunk c) := by
  have hanswer : (Library.ofExports owner exports).resolve ⟨name, args⟩ = .ok (.fragment c) := by
    simp only [Library.ofExports, hname, if_true, hc]
    rfl
  rw [resolve, sourceText_symbol, pure_bind]
  dsimp only
  rw [hanswer]
  rfl

/-- If it is too large, that is what resolving it fails with. -/
theorem run_resolve_of_error {name : String} {f : Fault} (hname : exports.contains name = true)
    (hc : Chunk.ofCall (.callable (.call owner name)) args = .error f) (line : Int) (j : Journal) :
    ∃ j', (ctx.resolve (.ofExports owner exports) (.symbol line name) params args).run j =
      (.error (.fault f), j') := by
  have hanswer : (Library.ofExports owner exports).resolve ⟨name, args⟩ = .error (.fault f) := by
    simp only [Library.ofExports, hname, if_true, hc]
    rfl
  rw [resolve, sourceText_symbol, pure_bind]
  dsimp only
  rw [hanswer]
  exact ⟨_, rfl⟩

/-- What comes of a call that is resolved is what the library has built. -/
theorem of_run_resolve {library : Library} {u : Compiled} {j j' : Journal}
    (h : (ctx.resolve library head params args).run j = (.ok u, j')) :
    ∃ c, u = .chunk c ∧ head.writable = true ∧
      library.resolve ⟨head.shown, args⟩ = .ok (.fragment c) := by
  obtain ⟨name, j₁, hname, h⟩ := Tracked.of_run_bind h
  obtain ⟨-, j₂, -, h⟩ := Tracked.of_run_bind h
  obtain ⟨answer, j₃, hanswer, h⟩ := Tracked.of_run_bind h
  rw [sourceText] at hname
  split at hname
  · next hwritable =>
    cases hname
    have hresolve : library.resolve ⟨head.shown, args⟩ = .ok answer := congrArg Prod.fst hanswer
    cases answer with
    | fragment c =>
        cases h
        exact ⟨c, rfl, hwritable, hresolve⟩
    | unusable => cases h
    | unknown =>
        obtain ⟨text, j₄, -, h⟩ := Tracked.of_run_bind h
        cases h
  · cases hname

/-- What a library has built that exports functions is a call of one of them. -/
theorem of_resolve_ofExports {request : Request} {c : Chunk}
    (h : (Library.ofExports owner exports).resolve request = .ok (.fragment c)) :
    Chunk.ofCall (.callable (.call owner request.name)) request.args = .ok c := by
  simp only [Library.ofExports] at h
  split at h
  · cases hc : Chunk.ofCall (.callable (.call owner request.name)) request.args with
    | error f =>
        rw [hc] at h
        cases h
    | ok c' =>
        rw [hc] at h
        cases h
        rfl
  · cases h

section

variable (hctx : ctx.Keeps owner exports Q E) (hR : Likeness R)

include hctx hR

theorem agree_call
    (hargs : Tracked.Agree R E (fun vs => ∀ v ∈ vs, v.BuiltOf Q)
      (argumentsFrom ctx later [] params) (argumentsFrom ctx later' [] params)) :
    Tracked.Agree R E (Compiled.MadeOf Q)
      (do
        let library ← Action.ofExcept ctx.library
        let args ← argumentsFrom ctx later [] params
        ctx.resolve library head params args)
      (do
        let library ← Action.ofExcept ctx.library
        let args ← argumentsFrom ctx later' [] params
        ctx.resolve library head params args) := by
  have hlibrary : Ensures E (· = Library.ofExports owner exports) ctx.library := by
    rcases hlib : ctx.library with f | library
    · exact hctx.library f hlib
    · exact hctx.exports library hlib
  refine (Action.agree_ofExcept hlibrary).bind fun library hlib => ?_
  subst hlib
  exact hargs.bind fun args hargs => agree_resolve hctx hR (Value.BuiltOf.list hargs)

/-- A parameter that is run at once comes to a value made of the parts of the program. -/
theorem agree_runTarget
    (harg : Tracked.Agree R E (Argument Q target) (argument ctx later target)
      (argument ctx later' target)) :
    Tracked.Agree R E (Value.MadeOf Q) (ctx.runTarget later target)
      (ctx.runTarget later' target) := by
  refine harg.bind fun v hv => ?_
  -- A form is a unit already; any other parameter becomes the chunk of its value.
  have hunit : Tracked.Agree R E (fun unit => ∃ u : Compiled, u.MadeOf Q ∧ u.toValue = unit)
      (unitOf target v) (unitOf target v) := by
    rw [unitOf]
    split
    · next hform => exact Tracked.agree_pure (hv.2 hform)
    · exact (agree_constant hctx hv.1).bind fun u hu => Tracked.agree_pure ⟨u, hu, rfl⟩
  refine hunit.bind fun unit hunit => ?_
  obtain ⟨u, hu, rfl⟩ := hunit
  exact agree_run hctx hR hu

omit hR in
theorem agree_runCaptured
    (hlater : ∀ code, Q (.captured code) →
      Tracked.Agree R E (Value.MadeOf Q) (later code) (later' code))
    (line : Int) (hv : v.MadeOf Q) :
    Tracked.Agree R E (Compiled.MadeOf Q) (runCaptured later line v)
      (runCaptured later' line v) := by
  rw [runCaptured.eq_def, runCaptured.eq_def]
  split
  · next code =>
    have hcode : Q (.captured code) := hv _ (by simp [Value.leaves])
    exact (hlater code hcode).bind fun w hw => agree_ofResult hctx hw
  · next v hne =>
    exact Tracked.agree_throw (hctx.usual _ (Failure.usual_notCaptured hv line))

end

mutual
/-- Compilers that agree on the code that a form can capture agree on the form. -/
theorem agree_form (hctx : ctx.Keeps owner exports Q E) (hR : Likeness R)
    (hlater : ∀ code, Q (.captured code) →
      Tracked.Agree R E (Value.MadeOf Q) (later code) (later' code)) :
    ∀ items, (∀ code, Node.RowQuotes items code → Q (.captured code)) →
      Tracked.Agree R E (Compiled.MadeOf Q) (form ctx later items) (form ctx later' items)
  | [] => fun _ => by
      rw [form, form]
      exact agree_constant hctx (Value.BuiltOf.list (by simp))
  | head :: params => by
      have hargs := agree_argumentsFrom hctx hR hlater [] (by simp) params
      have hparams : (∀ code, Node.RowQuotes (head :: params) code → Q (.captured code)) →
          ∀ n ∈ params, ∀ code, n.Quotes code → Q (.captured code) :=
        fun h n hn code hcode => h code (Node.RowQuotes.cons (.inr ⟨n, hn, hcode⟩))
      cases formView head params with
      | proc line =>
          intro hquotes
          rw [form_proc rfl, form_proc rfl]
          exact Tracked.agree_pure (hquotes params Node.rowQuotes_proc)
      | @unwrap line target code hcode =>
          intro hquotes
          rw [form_unwrap hcode, form_unwrap hcode]
          refine agree_form hctx hR hlater (Node.capturedBody code) fun inner hinner => ?_
          have hinner := hinner.of_capturedBody.of_procCode? hcode
          exact hparams hquotes target (by simp) inner hinner
      | @stage line target hcode =>
          intro hquotes
          have htarget := agree_argument hctx hR hlater target (hparams hquotes target (by simp))
          rw [form_eval hcode, form_eval hcode]
          exact (agree_runTarget hctx hR htarget).bind fun v hv =>
            agree_runCaptured hctx hlater line hv
      | call hproc heval =>
          intro hquotes
          rw [form_call_of_length hproc heval, form_call_of_length hproc heval]
          exact agree_call hctx hR (hargs (hparams hquotes))
  termination_by items => sizeOf items
  decreasing_by
  · simp only [List.cons.sizeOf_spec]
    omega
  · have hbody := Node.sizeOf_capturedBody_lt hcode
    simp only [List.cons.sizeOf_spec]
    omega
  · simp only [List.cons.sizeOf_spec]
    omega

theorem agree_argument (hctx : ctx.Keeps owner exports Q E) (hR : Likeness R)
    (hlater : ∀ code, Q (.captured code) →
      Tracked.Agree R E (Value.MadeOf Q) (later code) (later' code)) :
    ∀ n : Node, (∀ code, n.Quotes code → Q (.captured code)) →
      Tracked.Agree R E (Argument Q n) (argument ctx later n) (argument ctx later' n)
  | .symbol _ name, _ => by
      rw [argument, argument]
      exact Tracked.agree_pure (argument_of_codeless hctx.kind (Value.codeless_text name) rfl)
  | .number _ n, _ => by
      rw [argument, argument]
      exact Tracked.agree_pure (argument_of_codeless hctx.kind (Value.codeless_number n) rfl)
  | .truth _ b, _ => by
      rw [argument, argument]
      exact Tracked.agree_pure (argument_of_codeless hctx.kind (Value.codeless_truth b) rfl)
  | .text _ s, _ => by
      rw [argument, argument]
      exact Tracked.agree_pure (argument_of_codeless hctx.kind (Value.codeless_text s) rfl)
  | .list elements, hquotes => by
      rw [argument, argument]
      refine (agree_argumentsFrom hctx hR hlater [] (by simp) elements fun n hn code h =>
        hquotes code (h.list hn)).bind fun vs hvs => Tracked.agree_pure ?_
      exact ⟨Value.BuiltOf.list hvs, fun hform => by cases hform⟩
  | .form _ items, hquotes => by
      rw [argument, argument]
      refine (agree_form hctx hR hlater items fun code h =>
        hquotes code (Node.quotes_form.2 h)).bind fun u hu => Tracked.agree_pure ?_
      exact ⟨hu.builtOf hctx.kind, fun _ => ⟨u, hu, rfl⟩⟩
  | .foreign v, _ => by
      have hwritten : Ensures (fun f => E (.fault f)) (fun _ => True) v.written := by
        refine v.ensures_written.imp (fun f hf => hctx.fault ?_) fun _ _ => trivial
        obtain rfl | ⟨text, rfl⟩ | rfl := hf <;> simp
      rw [argument, argument]
      exact (Action.agree_ofFault hwritten).bind fun _ _ =>
        Tracked.agree_throw (hctx.fault (by simp))
  termination_by n => sizeOf n

theorem agree_argumentsFrom (hctx : ctx.Keeps owner exports Q E) (hR : Likeness R)
    (hlater : ∀ code, Q (.captured code) →
      Tracked.Agree R E (Value.MadeOf Q) (later code) (later' code))
    (done : List Value) (hdone : ∀ v ∈ done, v.BuiltOf Q) :
    ∀ ns : List Node, (∀ n ∈ ns, ∀ code, n.Quotes code → Q (.captured code)) →
      Tracked.Agree R E (fun vs => ∀ v ∈ vs, v.BuiltOf Q) (argumentsFrom ctx later done ns)
        (argumentsFrom ctx later' done ns)
  | [], _ => by
      rw [argumentsFrom, argumentsFrom]
      exact Tracked.agree_pure fun v hv => hdone v (List.mem_reverse.1 hv)
  | n :: rest, hquotes => by
      rw [argumentsFrom, argumentsFrom]
      refine (agree_argument hctx hR hlater n (hquotes n (by simp))).bind fun v hv => ?_
      exact agree_argumentsFrom hctx hR hlater (v :: done) (List.forall_mem_cons.2 ⟨hv.1, hdone⟩)
        rest fun m hm => hquotes m (by simp [hm])
  termination_by ns => sizeOf ns
end

/-- Compilers that agree on the code that a program can capture agree on the program. -/
theorem agree_node (hctx : ctx.Keeps owner exports Q E) (hR : Likeness R)
    (hlater : ∀ code, Q (.captured code) →
      Tracked.Agree R E (Value.MadeOf Q) (later code) (later' code))
    {n : Node} (hquotes : ∀ code, n.Quotes code → Q (.captured code)) :
    Tracked.Agree R E (Compiled.MadeOf Q) (ctx.node later n) (ctx.node later' n) := by
  rw [node.eq_def, node.eq_def]
  split
  · exact agree_form hctx hR hlater _ fun code h => hquotes code (Node.quotes_form.2 h)
  · exact (agree_argument hctx hR hlater n hquotes).bind fun v hv => agree_constant hctx hv.1

/-! ## Captured code -/

/-- Compiles and runs captured code, given what the runs come to that turn up while compiling it. -/
def runOnce (ctx : CompileContext) (later : List Node → Action Value) (code : List Node) :
    Action Value := do
  let unit ← form ctx later (Node.capturedBody code)
  ctx.run unit

theorem runBody_succ (ctx : CompileContext) (depth : Nat) :
    ctx.runBody (depth + 1) = ctx.runOnce (ctx.runBody depth) := by
  funext code
  rw [runBody, runOnce]

theorem agree_runOnce (hctx : ctx.Keeps owner exports Q E) (hR : Likeness R)
    (hlater : ∀ code, Q (.captured code) →
      Tracked.Agree R E (Value.MadeOf Q) (later code) (later' code))
    {code : List Node}
    (hquotes : ∀ inner, Node.RowQuotes (Node.capturedBody code) inner → Q (.captured inner)) :
    Tracked.Agree R E (Value.MadeOf Q) (ctx.runOnce later code) (ctx.runOnce later' code) :=
  (agree_form hctx hR hlater _ hquotes).bind fun _ hunit => agree_run hctx hR hunit

/-- However deep the runs go, captured code comes to a value made of its own parts. -/
theorem agree_runBody (hctx : ctx.Keeps owner exports Q E) (hR : Likeness R)
    (hdeep : E (.fault .evaluationDepth))
    (hquotes : ∀ code, Q (.captured code) → ∀ inner, Node.RowQuotes code inner →
      Q (.captured inner))
    (depth : Nat) {code : List Node} (hcode : Q (.captured code)) :
    Tracked.Agree R E (Value.MadeOf Q) (ctx.runBody depth code) (ctx.runBody depth code) := by
  induction depth generalizing code with
  | zero => exact Tracked.agree_throw hdeep
  | succ depth ih =>
      rw [runBody_succ]
      exact agree_runOnce hctx hR (fun inner hinner => ih hinner)
        fun inner h => hquotes code hcode inner h.of_capturedBody

end CompileContext

end FormLang
