import FormLang.Proofs.Action
import FormLang.Proofs.Compile.Depth
import FormLang.Proofs.Compile.Termination

set_option autoImplicit false

/-! # Taking `proc` off in place

An `eval` form of a `proc` form may stand in the place of the form in it, wherever code is compiled
in its place (`eval_proc_in_place`). All that tells the two programs apart are errors about calls
around that place, as they show the parameters as they were written.
-/

namespace FormLang

/-! ## Errors without what was written -/

/-- The error without the text of the parameters. -/
def ProgramError.withoutArgs : ProgramError → ProgramError
  | .unresolvedCall kind name line argCount _ => .unresolvedCall kind name line argCount ""
  | e => e

/-- The failure without the text of the parameters. -/
def Failure.withoutArgs : Failure → Failure
  | .error e => .error e.withoutArgs
  | f => f

namespace Action

variable {α β : Type} {x y : Action α} {g g' : α → Action β}

/-- The action with no text of parameters in the errors that it has as results. -/
def withoutArgs (x : Action (Except ProgramError α)) : Action (Except ProgramError α) :=
  Except.mapError ProgramError.withoutArgs <$> x

/-- The actions do the same, and fail in the same way but for the text of parameters. -/
def SameButArgs (x y : Action α) : Prop :=
  ExceptT.adapt Failure.withoutArgs x = ExceptT.adapt Failure.withoutArgs y

theorem SameButArgs.refl (x : Action α) : SameButArgs x x := rfl

theorem run_adapt (f : Failure → Failure) (x : Action α) (j : Journal) :
    (ExceptT.adapt f x : Action α).run j = ((x.run j).1.mapError f, (x.run j).2) := rfl

theorem adapt_bind (f : Failure → Failure) (x : Action α) (g : α → Action β) :
    (ExceptT.adapt f (x >>= g) : Action β) =
      (ExceptT.adapt f x : Action α) >>= fun a => ExceptT.adapt f (g a) := by
  refine Tracked.ext fun j => ?_
  rw [run_adapt]
  rcases hx : x.run j with ⟨e | a, j'⟩
  · have hadapt : (ExceptT.adapt f x : Action α).run j = (.error (f e), j') := by
      rw [run_adapt, hx]
      rfl
    rw [Tracked.run_bind_of_error hx, Tracked.run_bind_of_error hadapt]
    rfl
  · have hadapt : (ExceptT.adapt f x : Action α).run j = (.ok a, j') := by
      rw [run_adapt, hx]
      rfl
    rw [Tracked.run_bind_of_ok hx, Tracked.run_bind_of_ok hadapt, run_adapt]

theorem SameButArgs.bind (h : SameButArgs x y) (hg : ∀ a, SameButArgs (g a) (g' a)) :
    SameButArgs (x >>= g) (y >>= g') := by
  rw [SameButArgs, adapt_bind, adapt_bind, h, funext hg]

theorem run_withoutArgs (x : Action (Except ProgramError α)) (j : Journal) :
    (withoutArgs x).run j =
      ((x.run j).1.map (Except.mapError ProgramError.withoutArgs), (x.run j).2) := by
  rw [withoutArgs, ← bind_pure_comp, Tracked.run_bind]
  rcases x.run j with ⟨f | r, j'⟩ <;> rfl

theorem withoutArgs_catchError (x : Action α) :
    withoutArgs (catchError x) = catchError (ExceptT.adapt Failure.withoutArgs x) := by
  refine Tracked.ext fun j => ?_
  rw [run_withoutArgs, run_catchError, run_catchError, run_adapt]
  rcases x.run j with ⟨(e | f | s) | a, j'⟩ <;> rfl

end Action

/-! ## Places in a program -/

namespace Node

/-- A node around a place where code is compiled: a literal list with the place among its elements,
or a call with the place among its parameters. -/
inductive Frame where
  | element (before after : List Node)
  | parameter (style : FormStyle) (head : Node) (before after : List Node)
      (hproc : head.isNamed procName = false)
      (heval : head.isNamed evalName = true → before.length + after.length ≠ 0)

/-- The node with something in the place. -/
def Frame.fill (n : Node) : Frame → Node
  | .element before after => .list (before ++ n :: after)
  | .parameter style head before after _ _ => .form style (head :: (before ++ n :: after))

/-- A program with something in a place that is inside some nodes, the outermost one first. -/
def plug (frames : List Frame) (n : Node) : Node := frames.foldr (fun f n => f.fill n) n

/-- An `eval` form of a `proc` form of a node. -/
def evalProc (style style' : FormStyle) (line line' : Int) (n : Node) : Node :=
  .form style [.symbol line evalName, .form style' [.symbol line' procName, n]]

end Node

namespace CompileContext

open FormLang.Action

variable {ctx : CompileContext} {later : List Node → Action Value} {n m head : Node}
  {params params' : List Node}

/-- Nodes that are compiled to the same, as programs and as parameters, and can be shown if the
other can. -/
structure Alike (ctx : CompileContext) (later : List Node → Action Value) (n m : Node) : Prop where
  writable : n.writable = m.writable
  argument : SameButArgs (argument ctx later n) (argument ctx later m)
  node : SameButArgs (ctx.node later n) (ctx.node later m)

theorem sameButArgs_argumentsFrom (h : Alike ctx later n m) (before after : List Node)
    (done : List Value) :
    SameButArgs (argumentsFrom ctx later done (before ++ n :: after))
      (argumentsFrom ctx later done (before ++ m :: after)) := by
  induction before generalizing done with
  | nil =>
      rw [List.nil_append, List.nil_append, argumentsFrom, argumentsFrom]
      exact h.argument.bind fun v => .refl _
  | cons k before ih =>
      rw [List.cons_append, List.cons_append, argumentsFrom, argumentsFrom]
      exact (SameButArgs.refl _).bind fun v => ih (v :: done)

/-- Of the parameters as they were written, only errors show more than their number. -/
theorem sameButArgs_resolve (hlength : params.length = params'.length)
    (hwritable : Node.allWritable params = Node.allWritable params') (library : Library)
    (args : List Value) :
    SameButArgs (ctx.resolve library head params args) (ctx.resolve library head params' args) := by
  refine (SameButArgs.refl _).bind fun name => ?_
  refine (SameButArgs.refl _).bind fun _ => (SameButArgs.refl _).bind fun answer => ?_
  cases answer with
  | fragment c => exact .refl _
  | unusable => exact .refl _
  | unknown =>
      dsimp only
      rw [hlength, hwritable]
      cases Node.allWritable params' <;> rfl

/-- What is alike in a place is alike around it. -/
theorem Alike.fill (h : Alike ctx later n m) (f : Node.Frame) :
    Alike ctx later (f.fill n) (f.fill m) := by
  have hrow : ∀ before after, Node.allWritable (before ++ n :: after) =
      Node.allWritable (before ++ m :: after) := fun before after => by
    rw [Node.allWritable_append, Node.allWritable_append, Node.allWritable, Node.allWritable,
      h.writable]
  cases f with
  | element before after =>
      have hargument : SameButArgs
          (CompileContext.argument ctx later (.list (before ++ n :: after)))
          (CompileContext.argument ctx later (.list (before ++ m :: after))) := by
        rw [CompileContext.argument, CompileContext.argument]
        exact (sameButArgs_argumentsFrom h before after []).bind fun vs => .refl _
      refine ⟨?_, hargument, hargument.bind fun v => .refl _⟩
      rw [Node.Frame.fill, Node.Frame.fill, Node.writable, Node.writable, hrow]
  | parameter style head before after hproc heval =>
      have hcount : ∀ k : Node, head.isNamed Node.evalName = true →
          (before ++ k :: after).length ≠ 1 := fun k hhead => by
        have hne := heval hhead
        rw [List.length_append, List.length_cons]
        omega
      have hform : SameButArgs (form ctx later (head :: (before ++ n :: after)))
          (form ctx later (head :: (before ++ m :: after))) := by
        rw [form_call_of_length hproc (hcount n), form_call_of_length hproc (hcount m)]
        refine (SameButArgs.refl _).bind fun library =>
          (sameButArgs_argumentsFrom h before after []).bind fun args => ?_
        exact sameButArgs_resolve (by simp) (hrow before after) library args
      refine ⟨?_, ?_, hform⟩
      · rw [Node.Frame.fill, Node.Frame.fill, Node.writable, Node.writable, Node.allWritable,
          Node.allWritable, hrow]
      · rw [Node.Frame.fill, Node.Frame.fill, CompileContext.argument, CompileContext.argument]
        exact hform.bind fun unit => .refl _

theorem Alike.plug (h : Alike ctx later n m) (frames : List Node.Frame) :
    Alike ctx later (n.plug frames) (m.plug frames) := by
  induction frames with
  | nil => exact h
  | cons f frames ih => exact ih.fill f

/-- In its own place, the `eval` form is compiled as the form that it takes `proc` off. -/
theorem alike_evalProc (style style' style'' : FormStyle) (line line' : Int) (items : List Node) :
    Alike ctx later ((Node.form style'' items).evalProc style style' line line')
      (.form style'' items) := by
  have hform : form ctx later [.symbol line Node.evalName,
      .form style' [.symbol line' Node.procName, .form style'' items]] =
        form ctx later items := by
    have hcode : (Node.form style' [.symbol line' Node.procName, .form style'' items]).procCode? =
        some [.form style'' items] := rfl
    rw [form_unwrap hcode]
    rfl
  refine ⟨?_, ?_, ?_⟩
  · simp [Node.evalProc, Node.writable, Node.allWritable]
  · rw [Node.evalProc, CompileContext.argument, CompileContext.argument, hform]
    exact .refl _
  · rw [Node.evalProc, CompileContext.node, CompileContext.node, hform]
    exact .refl _

end CompileContext

/-! ## Whole programs -/

namespace Node

variable {n m : Node}

theorem size_fill_le (h : n.size ≤ m.size) (f : Frame) : (f.fill n).size ≤ (f.fill m).size := by
  cases f with
  | element before after =>
      simp only [Frame.fill, size, sizeOfAll_append, sizeOfAll]
      omega
  | parameter style head before after _ _ =>
      simp only [Frame.fill, size, sizeOfAll_append, sizeOfAll]
      omega

theorem size_plug_le (h : n.size ≤ m.size) (frames : List Frame) :
    (n.plug frames).size ≤ (m.plug frames).size := by
  induction frames with
  | nil => exact h
  | cons f frames ih => exact size_fill_le ih f

theorem size_le_evalProc (style style' : FormStyle) (line line' : Int) (n : Node) :
    n.size ≤ (n.evalProc style style' line line').size := by
  simp only [evalProc, size, sizeOfAll]
  omega

end Node

/-- An `eval` form of a `proc` form of a form may replace the form in any place where code is
compiled in its place. Whatever captured code is taken to come to, the two programs are compiled to
the same unit, or to the same error or fault but for the text of parameters, and the library is
asked for the same. So it is when captured code is compiled and run, unless runs are nested so
deeply that the smaller program is cut off; and it never is if functions make up no code. -/
theorem eval_proc_in_place (ctx : CompileContext) (frames : List Node.Frame)
    (style style' style'' : FormStyle) (line line' : Int) (items : List Node) :
    let plain : Node := .plug frames (.form style'' items)
    let wrapped : Node := .plug frames ((Node.form style'' items).evalProc style style' line line')
    (∀ later, (Action.catchError (ctx.node later wrapped)).withoutArgs =
      (Action.catchError (ctx.node later plain)).withoutArgs) ∧
    (∀ j, (compile ctx wrapped).withoutArgs.run j = (compile ctx plain).withoutArgs.run j ∨
      ∃ j', (compile ctx plain).run j = (.error (.fault .evaluationDepth), j')) ∧
    ∀ owner exports, (∀ Q, PartKind Q → ctx.Keeps owner exports Q Failure.Shallow) →
      (compile ctx wrapped).withoutArgs = (compile ctx plain).withoutArgs := by
  intro plain wrapped
  have hplaces : ∀ later, (Action.catchError (ctx.node later wrapped)).withoutArgs =
      (Action.catchError (ctx.node later plain)).withoutArgs := fun later => by
    have halike : CompileContext.Alike ctx later wrapped plain :=
      (CompileContext.alike_evalProc style style' style'' line line' items).plug frames
    rw [Action.withoutArgs_catchError, Action.withoutArgs_catchError]
    exact congrArg Action.catchError halike.node
  refine ⟨hplaces, fun j => ?_, fun owner exports hctx => ?_⟩
  · -- The wrapped program is larger, so that runs may be nested more deeply in it.
    have hsize : plain.size ≤ wrapped.size :=
      Node.size_plug_le (Node.size_le_evalProc style style' line line' _) frames
    have hdepth : ctx.depthFor plain ≤ ctx.depthFor wrapped := Nat.add_le_add_right hsize _
    have hrelated := Action.congruence_upToDepth.related ctx
    have hnode : Action.UpToDepth (ctx.node (ctx.runBody (ctx.depthFor plain)) plain)
        (ctx.node (ctx.runBody (ctx.depthFor wrapped)) plain) :=
      hrelated.node (CompileContext.upToDepth_runBody hrelated hdepth) plain
    rcases hnode j with hsame | ⟨j', hcut⟩
    · left
      rw [compile, compile, hplaces, Action.run_withoutArgs, Action.run_withoutArgs,
        Action.run_catchError, Action.run_catchError, hsame]
    · right
      exact ⟨j', by rw [compile, Action.run_catchError, hcut]⟩
  · rw [compile, compile, CompileContext.runBody_eq_iterate, CompileContext.runBody_eq_iterate,
      CompileContext.node_eq hctx (ctx.size_le_depthFor wrapped),
      CompileContext.node_eq hctx (ctx.size_le_depthFor plain)]
    exact hplaces ctx.runCode

/-- A call that cannot be resolved, with the place in a list: the errors differ in their texts. -/
theorem eval_proc_in_place_unresolved :
    let ctx : CompileContext := ⟨.ok (.ofExports "m" ["f"]), "m", fun _ v => .ok v, .none, 0⟩
    let inner : Node := .form .fixed [.symbol 1 "f", .symbol 1 "x"]
    let program (n : Node) : Node := .form .fixed [.symbol 1 "g", .list [n]]
    let wrapped := program (inner.evalProc .fixed .fixed 1 1)
    ((compile ctx wrapped).run (.blank 0)).1 =
        .ok (.error (.unresolvedCall "symbol" "g" 1 1 "([(eval (proc (f x)))])")) ∧
      ((compile ctx (program inner)).run (.blank 0)).1 =
        .ok (.error (.unresolvedCall "symbol" "g" 1 1 "([(f x)])")) ∧
      (compile ctx wrapped).withoutArgs = (compile ctx (program inner)).withoutArgs := by
  intro ctx inner program wrapped
  let frames : List Node.Frame :=
    [.parameter .fixed (.symbol 1 "g") [] [] rfl (by decide), .element [] []]
  -- A function that hands back its arguments makes up nothing.
  have hctx : ∀ Q, PartKind Q → ctx.Keeps "m" ["f"] Q Failure.Shallow := fun Q hQ =>
    { kind := hQ
      exports := fun library h => (Except.ok.inj h).symm
      apply := fun f args v hargs hv => Except.ok.inj hv ▸ hargs
      usual := fun f hf => hf.1
      library := fun f h => by cases h
      applyFails := fun g args f h => by cases h }
  obtain ⟨-, -, hsame⟩ := eval_proc_in_place ctx frames .fixed .fixed .fixed 1 1
    [.symbol 1 "f", .symbol 1 "x"]
  exact ⟨rfl, rfl, hsame "m" ["f"] hctx⟩

end FormLang
