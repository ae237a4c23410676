import FormLang.Proofs.Interpreter
import FormLang.Proofs.Library.Builtin

set_option autoImplicit false

/-! # Where captured code comes from

Captured code is passed around as a value: it is run while compiling, built into chunks as a
constant, pushed by the machine, and handed on by functions on lists. All this leaves it as it was
written. What comes out of a program is code that stands in the program, behind a `proc`
(`captured_of_runProgram`).
-/

namespace FormLang

/-- All that an outcome consists of, apart from lists: the parts of the value, or of the value that
an error is about. -/
def Outcome.parts : Outcome → List Value
  | .value v => v.leaves
  | .error (.notCaptured v _) => v.leaves
  | .error _ => []

/-- A failure that is no complaint, or a complaint of a value that holds no code but some. -/
def Failure.Holding (S : List Node → Prop) (f : Failure) : Prop :=
  ∀ v line, f = .error (.notCaptured v line) → v.MadeOf (Value.Holding S)

/-- Code that is captured in captured code is quoted by the tree as well. -/
theorem Value.Holding.inner {n : Node} {code inner : List Node}
    (h : (Value.captured code).Holding n.Quotes) (hinner : Node.RowQuotes code inner) :
    (Value.captured inner).Holding n.Quotes :=
  holding_captured.2 ((holding_captured.1 h).trans hinner)

/-- Code that a program quotes can be written, as the program was read. -/
theorem Value.Holding.allWritable {n : Node} {code : List Node} (hn : n.Readable)
    (h : (Value.captured code).Holding n.Quotes) : Node.allWritable code = true :=
  ((holding_captured.1 h).readable hn).writable

namespace CompileContext

variable {ctx : CompileContext} {owner : String} {exports : List String}
  {R : Journal → Journal → Prop} {n : Node}

/-- Compiling and running a tree comes to values that hold no code but what the tree quotes, and
complains of no others. -/
theorem agree_runTree
    (hctx : ctx.Keeps owner exports (Value.Holding n.Quotes) (Failure.Holding n.Quotes))
    (hR : Likeness R) :
    Tracked.Agree R (Failure.Holding n.Quotes) (Value.MadeOf (Value.Holding n.Quotes))
      (ctx.runTree n) (ctx.runTree n) := by
  have hdeep : Failure.Holding n.Quotes (.fault .evaluationDepth) := fun _ _ h => by cases h
  refine (agree_node hctx hR (fun code hcode =>
      agree_runBody hctx hR hdeep (fun _ h _ => h.inner) _ hcode)
    fun code hcode => Value.holding_captured.2 hcode).bind fun unit hunit => ?_
  exact agree_run hctx hR hunit

end CompileContext

theorem keeps_holding {c : LibraryClass} (hc : c ∈ builtinLibraries) (modules : List Module)
    (settings : Settings) (S : List Node → Prop) :
    (builtinContext modules c settings).Keeps c.name (LibraryClass.exportsOf c.members)
      (Value.Holding S) (Failure.Holding S) :=
  keeps_builtin hc modules settings (partKind_holding S) fun _ hf => hf.2

/-- What a readable tree comes to holds no code but readable code. -/
theorem ensures_runTree_readable {c : LibraryClass} (hc : c ∈ builtinLibraries)
    (modules : List Module) (settings : Settings) {n : Node} (hn : n.Readable) (j : Journal) :
    Ensures (fun _ => True) (Value.MadeOf (Value.Holding Node.AllReadable))
      (((builtinContext modules c settings).runTree n).run j).1 := by
  have hkeeps := keeps_holding hc modules settings n.Quotes
  have htree := (CompileContext.agree_runTree hkeeps likeness_eq).ensures (s := j) rfl
  refine htree.imp (fun _ _ => trivial) fun v hv => hv.imp fun w hw => ?_
  exact ⟨hw.1, fun code hcode => (hw.2 code hcode).readable hn⟩

/-- What a program in a builtin library comes to holds no code but what the program itself has, line
by line, from behind a `proc` to the end of the form that the `proc` stands in; and no chunk in
which there might be more. -/
theorem captured_of_runProgram {c : LibraryClass} (hc : c ∈ builtinLibraries)
    (modules : List Module) (settings : Settings) {source : String} {j j' : Journal} {r : Outcome}
    (hrun : ((builtinContext modules c settings).runProgram Observer.silent source).run j =
      (.ok r, j')) :
    ∀ v ∈ r.parts, v.kind ≠ .chunk ∧ ∀ code, v = .captured code →
      ∃ n, read source = .ok n ∧ ∃ style before line,
        n.Part (.form style (before ++ .symbol line Node.procName :: code)) := by
  -- Whether it is a value or an error about one, the program has been read, and quotes what it
  -- holds.
  have hsource : Ensures
      (fun f => ∀ v line, f = .error (.notCaptured v line) →
        ∃ n, read source = .ok n ∧ v.MadeOf (Value.Holding n.Quotes))
      (fun v => ∃ n, read source = .ok n ∧ v.MadeOf (Value.Holding n.Quotes))
      (((builtinContext modules c settings).runSource source).run j).1 := by
    refine CompileContext.ensures_runSource (fun f hf v line h => absurd h (hf.2 v line))
      fun n hread => ?_
    have hkeeps := keeps_holding hc modules settings n.Quotes
    have htree := (CompileContext.agree_runTree hkeeps likeness_eq).ensures (s := j) rfl
    exact htree.imp (fun f hf v line h => ⟨n, hread, hf v line h⟩) fun v hv => ⟨n, hread, hv⟩
  have hparts : ∀ v ∈ r.parts, ∃ n, read source = .ok n ∧ v.Holding n.Quotes := by
    rw [CompileContext.run_runProgram] at hrun
    have hsettled := congrArg Prod.fst hrun
    cases r with
    | value w =>
        rw [settled_eq_value.1 hsettled] at hsource
        obtain ⟨n, hread, hw⟩ := hsource
        exact fun v hv => ⟨n, hread, hw v hv⟩
    | error e =>
        rw [settled_eq_error.1 hsettled] at hsource
        cases e with
        | notCaptured w line =>
            obtain ⟨n, hread, hw⟩ := hsource w line rfl
            exact fun v hv => ⟨n, hread, hw v hv⟩
        | _ =>
            intro v hv
            cases hv
  intro v hv
  obtain ⟨n, hread, hatomic, hcode⟩ := hparts v hv
  exact ⟨hatomic.2, fun code h => ⟨n, hread, hcode code h⟩⟩

/-- Code behind the second `proc` of a form, after the first one was taken off. -/
theorem captured_of_runProgram_suffix :
    let code : List Node := [.symbol 1 "add", .number 1 (.int 1)]
    ((builtinContext [] listLibrary .none).runProgram Observer.silent
        "(eval (proc proc add 1))").run (.blank 0) = (.ok (.value (.captured code)), .blank 0) ∧
      ∃ n, read "(eval (proc proc add 1))" = .ok n ∧ ∃ style before line,
        n.Part (.form style (before ++ .symbol line Node.procName :: code)) := by
  intro code
  have hread : read "(eval (proc proc add 1))" = .ok (.form .fixed [.symbol 1 "eval",
      .form .fixed [.symbol 1 "proc", .symbol 1 "proc", .symbol 1 "add", .number 1 (.int 1)]]) := by
    cbv
  have hrun : ((builtinContext [] listLibrary .none).runProgram Observer.silent
      "(eval (proc proc add 1))").run (.blank 0) =
      (.ok (.value (.captured code)), .blank 0) := by
    rw [CompileContext.run_runProgram, CompileContext.runSource, hread]
    rfl
  have hmem : listLibrary ∈ builtinLibraries := by simp [builtinLibraries]
  have hpart : Value.captured code ∈ (Outcome.value (.captured code)).parts := by
    simp [Outcome.parts, Value.leaves]
  exact ⟨hrun, (captured_of_runProgram hmem [] .none hrun _ hpart).2 code rfl⟩

end FormLang
