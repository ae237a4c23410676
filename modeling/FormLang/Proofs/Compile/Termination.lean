import FormLang.Proofs.Compile.Agreement
import FormLang.Proofs.Interpreter
import FormLang.Proofs.Library.Builtin
import Mathlib.Logic.Function.Iterate

set_option autoImplicit false

/-! # Running captured code comes to an end

A compiler may run code that is captured while compiling, and that code may run more of it. All of
it is part of the program, and it gets smaller each time (`CompileContext.agree_iterate`). So what a
program is compiled to does not depend on how runs are cut off that are nested more deeply than the
program is large, and the recursion without any such bound has one solution, and no other
(`quoting_terminates`).
-/

namespace FormLang

/-- A part that holds no code but code of a smaller size. -/
def Value.Smaller (size : Nat) : Value → Prop :=
  Value.Holding fun code => Node.sizeOfAll code < size

/-- A failure other than that runs of captured code are nested too deeply. -/
def Failure.Shallow (f : Failure) : Prop := f ≠ .fault .evaluationDepth

theorem Value.Smaller.mono {size size' : Nat} (h : size ≤ size') {v : Value}
    (hv : v.Smaller size) : v.Smaller size' :=
  ⟨hv.1, fun code hcode => Nat.lt_of_lt_of_le (hv.2 code hcode) h⟩

namespace CompileContext

variable {ctx : CompileContext} {owner : String} {exports : List String}
  {R : Journal → Journal → Prop} {later later' : List Node → Action Value}

/-! ## Runs inside runs -/

/-- The bound that is counted down is the number of rounds, and running it down is a failure. -/
theorem runBody_eq_iterate (ctx : CompileContext) (depth : Nat) :
    ctx.runBody depth = ctx.runOnce^[depth] fun _ => throw (.fault .evaluationDepth) := by
  induction depth with
  | zero =>
      funext code
      rw [runBody]
      rfl
  | succ depth ih => rw [runBody_succ, ih, Function.iterate_succ_apply']

section

variable (hctx : ∀ Q, PartKind Q → ctx.Keeps owner exports Q Failure.Shallow) (hR : Likeness R)

include hctx hR

/-- Rounds that are more than the nodes of captured code are as good as any other such number, and
no matter what the innermost runs come to. -/
theorem agree_iterate {depth depth' : Nat} {code : List Node} (h : Node.sizeOfAll code < depth)
    (h' : Node.sizeOfAll code < depth') :
    Tracked.Agree R Failure.Shallow
      (Value.MadeOf (Value.Smaller (Node.sizeOfAll (Node.capturedBody code))))
      (ctx.runOnce^[depth] later code) (ctx.runOnce^[depth'] later' code) := by
  induction depth generalizing depth' code with
  | zero => omega
  | succ depth ih =>
      obtain ⟨depth', rfl⟩ : ∃ k, depth' = k + 1 := ⟨depth' - 1, by omega⟩
      rw [Function.iterate_succ_apply', Function.iterate_succ_apply']
      have hbody := Node.sizeOfAll_capturedBody_le code
      refine agree_runOnce (hctx _ (partKind_holding _)) hR (fun inner hinner => ?_)
        fun inner hinner => Value.holding_captured.2 hinner.size_lt
      -- The code inside is smaller, and so is all that it can capture in turn.
      have hsmall : Node.sizeOfAll inner < Node.sizeOfAll (Node.capturedBody code) :=
        Value.holding_captured.1 hinner
      have hinnerBody := Node.sizeOfAll_capturedBody_le inner
      exact (ih (by omega) (by omega)).imp (fun _ hf => hf) fun v hv =>
        hv.imp fun w hw => hw.mono (by omega)

theorem agree_runBody_of_lt {depth depth' : Nat} {code : List Node}
    (h : Node.sizeOfAll code < depth) (h' : Node.sizeOfAll code < depth') :
    Tracked.Agree R Failure.Shallow
      (Value.MadeOf (Value.Smaller (Node.sizeOfAll (Node.capturedBody code))))
      (ctx.runBody depth code) (ctx.runBody depth' code) := by
  rw [runBody_eq_iterate, runBody_eq_iterate]
  exact agree_iterate hctx hR h h'

end

/-! ## The recursion without a bound -/

/-- What captured code comes to, however deep the runs inside it go. -/
def runCode (ctx : CompileContext) (code : List Node) : Action Value :=
  ctx.runBody (Node.sizeOfAll code + 1) code

section

variable (hctx : ∀ Q, PartKind Q → ctx.Keeps owner exports Q Failure.Shallow) (hR : Likeness R)

include hctx hR

theorem agree_runCode (later : List Node → Action Value) {depth : Nat} {code : List Node}
    (h : Node.sizeOfAll code < depth) :
    Tracked.Agree R Failure.Shallow
      (Value.MadeOf (Value.Smaller (Node.sizeOfAll (Node.capturedBody code))))
      (ctx.runCode code) (ctx.runOnce^[depth] later code) := by
  rw [runCode, runBody_eq_iterate]
  exact agree_iterate hctx hR (Nat.lt_succ_self _) h

/-- Where only smaller code can be captured, enough rounds are as good as the whole recursion. -/
theorem agree_runCode_of_smaller (later : List Node → Action Value) {depth size : Nat}
    (hsize : size ≤ depth) {code : List Node} (hcode : (Value.captured code).Smaller size) :
    Tracked.Agree R Failure.Shallow (Value.MadeOf (Value.Smaller size)) (ctx.runCode code)
      (ctx.runOnce^[depth] later code) := by
  have hlt : Node.sizeOfAll code < size := Value.holding_captured.1 hcode
  have hbody := Node.sizeOfAll_capturedBody_le code
  exact (agree_runCode hctx hR later (by omega)).imp (fun _ hf => hf) fun v hv =>
    hv.imp fun w hw => hw.mono (by omega)

/-- Rounds as many as a tree has nodes are enough to compile it. -/
theorem agree_node_of_size_le (later : List Node → Action Value) {n : Node} {depth : Nat}
    (h : n.size ≤ depth) :
    Tracked.Agree R Failure.Shallow (Compiled.MadeOf (Value.Smaller n.size))
      (ctx.node ctx.runCode n) (ctx.node (ctx.runOnce^[depth] later) n) := by
  refine agree_node (hctx _ (partKind_holding _)) hR
    (fun code hcode => agree_runCode_of_smaller hctx hR later h hcode)
    fun code hcode => Value.holding_captured.2 ?_
  have hsize := hcode.size_le
  show Node.sizeOfAll code < n.size
  omega

end

section

variable (hctx : ∀ Q, PartKind Q → ctx.Keeps owner exports Q Failure.Shallow)

include hctx

theorem runCode_eq : ctx.runCode = ctx.runOnce ctx.runCode := by
  funext code
  have hrounds : ctx.runCode code = ctx.runOnce (ctx.runBody (Node.sizeOfAll code)) code := by
    rw [runCode, runBody_succ]
  rw [hrounds, runBody_eq_iterate]
  have hbody := Node.sizeOfAll_capturedBody_le code
  refine (agree_runOnce (hctx _ (partKind_holding _)) likeness_eq (fun inner hinner => ?_)
    fun inner hinner => Value.holding_captured.2 hinner.size_lt).eq.symm
  exact agree_runCode_of_smaller hctx likeness_eq _ hbody hinner

/-- There is one way only to run captured code such that runs inside it are run in the same way. -/
theorem eq_runCode {run : List Node → Action Value} (h : run = ctx.runOnce run) :
    run = ctx.runCode := by
  funext code
  have hrounds := agree_runCode hctx likeness_eq run
    (Nat.lt_succ_self (Node.sizeOfAll code))
  rw [Function.iterate_fixed h.symm] at hrounds
  exact hrounds.eq.symm

theorem node_eq {n : Node} {depth : Nat} (h : n.size ≤ depth) (later : List Node → Action Value) :
    ctx.node (ctx.runOnce^[depth] later) n = ctx.node ctx.runCode n :=
  (agree_node_of_size_le hctx likeness_eq later h).eq.symm

/-- The body of code that the parameter of an `eval` form comes to is smaller than the form. -/
theorem yields_runTarget_smaller (style : FormStyle) (line : Int) (target : Node) :
    Tracked.Yields (fun v => ∀ code, v = .captured code →
        (Node.form .fixed (Node.capturedBody code)).size <
          (Node.form style [.symbol line Node.evalName, target]).size)
      (ctx.runTarget ctx.runCode target) := by
  have hkeeps := hctx (Value.Smaller target.size) (partKind_holding _)
  have hquotes : ∀ code, target.Quotes code → (Value.captured code).Smaller target.size := by
    intro code hcode
    have hsize := hcode.size_le
    exact Value.holding_captured.2 (by omega)
  have hlater := fun code (hcode : (Value.captured code).Smaller target.size) =>
    agree_runCode_of_smaller hctx likeness_eq ctx.runCode (Nat.le_refl _) hcode
  have htarget := agree_runTarget hkeeps likeness_eq
    (agree_argument hkeeps likeness_eq hlater target hquotes)
  refine (htarget.yields fun _ => rfl).imp ?_
  rintro v hv code rfl
  have hcode : Node.sizeOfAll code < target.size :=
    Value.holding_captured.1 (hv _ (by simp [Value.leaves]))
  have hbody := Node.sizeOfAll_capturedBody_le code
  calc (Node.form .fixed (Node.capturedBody code)).size
    _ = Node.sizeOfAll (Node.capturedBody code) + 1 := by rw [Node.size]
    _ ≤ target.size := by omega
    _ < (Node.form style [.symbol line Node.evalName, target]).size := by
      simp only [Node.size, Node.sizeOfAll]
      omega

/-- No run of a program fails because captured code runs too deep. -/
theorem run_runProgram_ne (source : String) (j : Journal) :
    ((ctx.runProgram Observer.silent source).run j).1 ≠ .error (.fault .evaluationDepth) := by
  have hsource : Ensures Failure.Shallow (fun _ => True) ((ctx.runSource source).run j).1 := by
    refine ensures_runSource (fun f hf => hf.1) fun n _ => ?_
    have htree := (agree_node_of_size_le hctx likeness_eq
      (fun _ => throw (.fault .evaluationDepth)) (ctx.size_le_depthFor n)).bind fun unit hunit =>
        agree_run (hctx _ (partKind_holding _)) likeness_eq hunit
    rw [← runBody_eq_iterate] at htree
    rw [runTree, ← htree.eq]
    exact (htree.ensures rfl).imp (fun _ hf => hf) fun _ _ => trivial
  intro hfails
  rw [run_runProgram] at hfails
  rw [settled_eq_fault.1 hfails] at hsource
  exact hsource rfl

end

end CompileContext

/-! ## The builtin libraries -/

theorem keeps_shallow {c : LibraryClass} (hc : c ∈ builtinLibraries) (modules : List Module)
    (settings : Settings) (Q : Value → Prop) (hQ : PartKind Q) :
    (builtinContext modules c settings).Keeps c.name (LibraryClass.exportsOf c.members) Q
      Failure.Shallow :=
  keeps_builtin hc modules settings hQ fun _ hf => hf.1

/-- With a builtin library, code that is run while compiling is run in one way only that does not
cut it off, and it is how programs are compiled, without any failure for being nested too deeply.
The code that the parameter of an `eval` form comes to is smaller than the form, so that the nodes
of a program bound how deep runs are nested: whatever happens further inside makes no difference. -/
theorem quoting_terminates {c : LibraryClass} (hc : c ∈ builtinLibraries) (modules : List Module)
    (settings : Settings) :
    let ctx := builtinContext modules c settings
    ∃ run : List Node → Action Value,
      (run = ctx.runOnce run ∧ ∀ run', run' = ctx.runOnce run' → run' = run) ∧
      (∀ n, compile ctx n = Action.catchError (ctx.node run n)) ∧
      (∀ line target, target.procCode? = none →
        ctx.form run [.symbol line Node.evalName, target] = (do
          let v ← ctx.runTarget run target
          CompileContext.runCaptured run line v)) ∧
      (∀ style line target, Tracked.Yields (fun v => ∀ code, v = .captured code →
          (Node.form .fixed (Node.capturedBody code)).size <
            (Node.form style [.symbol line Node.evalName, target]).size)
        (ctx.runTarget run target)) ∧
      (∀ n depth, n.size ≤ depth → ∀ innermost,
        ctx.node (ctx.runOnce^[depth] innermost) n = ctx.node run n) ∧
      ∀ source j, ((ctx.runProgram Observer.silent source).run j).1 ≠
        .error (.fault .evaluationDepth) := by
  intro ctx
  have hctx := keeps_shallow hc modules settings
  refine ⟨ctx.runCode, ⟨CompileContext.runCode_eq hctx, fun run => CompileContext.eq_runCode hctx⟩,
    fun n => ?_, fun _ _ => CompileContext.form_eval,
    CompileContext.yields_runTarget_smaller hctx,
    fun n depth h innermost => CompileContext.node_eq hctx h innermost,
    CompileContext.run_runProgram_ne hctx⟩
  rw [compile, CompileContext.runBody_eq_iterate,
    CompileContext.node_eq hctx (ctx.size_le_depthFor n)]

/-- Code that runs code which is captured in it: thirteen rounds leave nothing open. -/
theorem quoting_terminates_nested :
    let ctx := builtinContext [] standardLibrary .none
    let inner : Node := .form .fixed [.symbol 1 "eval",
      .form .fixed [.symbol 1 "identity", .form .fixed [.symbol 1 "proc", .symbol 1 "add"]]]
    let n : Node := .form .fixed [.symbol 1 "eval",
      .form .fixed [.symbol 1 "identity", .form .fixed [.symbol 1 "proc", inner]]]
    standardLibrary ∈ builtinLibraries ∧
      n.size = 13 ∧ ∀ innermost innermost',
        ctx.node (ctx.runOnce^[13] innermost) n = ctx.node (ctx.runOnce^[13] innermost') n := by
  intro ctx inner n
  have hmem : standardLibrary ∈ builtinLibraries := by simp [builtinLibraries]
  obtain ⟨run, -, -, -, -, hbounded, -⟩ := quoting_terminates hmem [] .none
  have hsize : n.size = 13 := by decide
  refine ⟨hmem, hsize, fun innermost innermost' => ?_⟩
  rw [hbounded n 13 (by omega), hbounded n 13 (by omega)]

end FormLang
