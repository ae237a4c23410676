import FormLang.Proofs.Chunk.Faithful
import FormLang.Proofs.Compile.Provenance
import FormLang.Proofs.Compile.Termination

set_option autoImplicit false

/-! # Captured code in one stage and in two

Code behind a `proc` that an `eval` form takes off is compiled in the place of the form. Code that a
function hands to `eval` is compiled and run while the program is being compiled, and what it comes
to is compiled once more, as a constant. With the standard library and the function `identity` both
can be done to the same code, and come to the same (`unwrapped_eq_staged`): a value that was
computed is not changed by being a constant, as long as no two different numbers in it are equal.
-/

namespace FormLang

/-! ## Values as constants -/

/-- The numbers in a value, those in captured code included. -/
def Value.numbers (v : Value) : List Numeral :=
  v.leaves.flatMap fun
    | .number n => [n]
    | .captured code => Node.numbersOfAll code
    | _ => []

namespace Value

variable {v w u : Value}

/-- What becomes a constant is made over the numbers of the value, unless it is a truth value. -/
theorem over_numbers (hw : w ∈ v.leaves) (hkind : w.kind ≠ .truth)
    (hread : w.Holding Node.AllReadable) : w.Over fun u => ∃ k ∈ v.numbers, u = .number k := by
  cases w with
  | truth b => exact absurd rfl hkind
  | list items => exact absurd rfl hread.1.1
  | chunk code constants => exact absurd rfl hread.1.2
  | number n => exact ⟨n, List.mem_flatMap.2 ⟨_, hw, by simp⟩, rfl⟩
  | captured code =>
      refine Node.AllReadable.over (hread.2 code rfl) fun k hk => ⟨k, ?_, rfl⟩
      exact List.mem_flatMap.2 ⟨_, hw, hk⟩
  | _ => trivial

/-- A truth value may be equal to a number, but it cannot stand for one. -/
theorem eq_of_sameConstant_truth (hkind : w.kind = .truth) (hsame : w.sameConstant u = true) :
    w = u := by
  have hkind' : u.kind = .truth := (kind_of_sameConstant hsame).symm.trans hkind
  obtain ⟨a, rfl⟩ := exists_of_kind_truth hkind
  obtain ⟨b, rfl⟩ := exists_of_kind_truth hkind'
  simp only [sameConstant, equals, Bool.and_eq_true, beq_iff_eq] at hsame
  rw [hsame.2]

/-- Parts of a value that can stand for each other are identical when its equal numbers are. -/
theorem eq_of_sameConstant_of_numbers
    (hnumbers : ∀ a ∈ v.numbers, ∀ b ∈ v.numbers, a.equals b = true → a = b)
    (hread : v.MadeOf (Holding Node.AllReadable)) (hw : w ∈ v.leaves) (hu : u ∈ v.leaves)
    (hsame : w.sameConstant u = true) : w = u := by
  by_cases hkind : w.kind = .truth
  · exact eq_of_sameConstant_truth hkind hsame
  · have hkind' : u.kind ≠ .truth := by rwa [← kind_of_sameConstant hsame]
    exact eq_of_sameConstant (separated_numbers hnumbers) (over_numbers hw hkind (hread w hw))
      (over_numbers hu hkind' (hread u hu)) hsame

end Value

namespace CompileContext

variable {ctx : CompileContext} {v : Value} {b : Backend} {later : List Node → Action Value}

/-- A computed value that is compiled and run again comes to itself, unless it is too large. -/
theorem run_ofResult (ctx : CompileContext) (hb : ctx.settings.backend = .ok b)
    (hnumbers : ∀ m ∈ v.numbers, ∀ n ∈ v.numbers, m.equals n = true → m = n)
    (hread : v.MadeOf (Value.Holding Node.AllReadable))
    (hlisting : ctx.settings.listing = true → v.writable = true) (j : Journal) :
    ((ofResult v >>= ctx.run).run j).1 = .ok v ∨
      ∃ n, Chunk.ofValue v = .error (.operandRange n) ∧
        ((ofResult v >>= ctx.run).run j).1 = .error (.fault (.operandRange n)) := by
  have hatomic : v.MadeOf Value.Atomic := hread.imp fun w hw => hw.1
  rw [ofResult.eq_def]
  split
  · next code =>
    rw [pure_bind, run, Compiled.toValue, evaluate_captured]
    exact .inl rfl
  rw [constant]
  cases hc : Chunk.ofValue v with
  | error f =>
      obtain ⟨n, rfl⟩ := Chunk.ofValue_eq_error hc
      exact .inr ⟨n, rfl, rfl⟩
  | ok c =>
      have hwell := hatomic.builtOf.ofValue partKind_atomic hc
      have hunit : ctx.settings.listing = true → ∃ text, c.toValue.listing "" = .ok text :=
        fun h => Chunk.listable_ofValue (Value.listable_of_madeOf hatomic (hlisting h)) hc ""
      -- Each part of the value stands for itself.
      have hshared : v.shared [] = v := by
        refine (Value.shared_nil_eq_iff v).2 (List.pairwise_of_forall_mem_list ?_)
        exact fun w hw u hu => Value.eq_of_sameConstant_of_numbers hnumbers hread hw hu
      have houtcome : c.toValue.outcome ctx.apply = pure v := by
        rw [Chunk.outcome_ofValue hatomic.builtOf hc, hshared, Value.expand_of_madeOf hatomic]
      obtain ⟨j', hrun, -⟩ := run_evaluate hwell hunit (.inr ⟨rfl, hb⟩) j
      rw [houtcome] at hrun
      have hchunk : (Action.ofFault (.ok c)).run j = (.ok c, j) := rfl
      refine .inl ?_
      rw [bind_assoc, Tracked.run_bind_of_ok hchunk, pure_bind, run, Compiled.toValue, hrun,
        Tracked.run_pure]

/-! ## Calls that are run at once -/

/-- A call of an exported function with arguments that are values is compiled and run to what the
function makes of them. -/
theorem run_form_call {owner name : String} {exports : List String} {params : List Node}
    {args : List Value} {c : Chunk}
    (hlibrary : ctx.library = .ok (.ofExports owner exports)) (hb : ctx.settings.backend = .ok b)
    (hproc : name ≠ Node.procName) (heval : name ≠ Node.evalName)
    (hname : exports.contains name = true)
    (hparams : argumentsFrom ctx later [] params = pure args)
    (hargs : (Value.list args).MadeOf Value.Atomic) (hshared : Value.sharedAll [] args = args)
    (hwritable : (Value.list args).writable = true)
    (hc : Chunk.ofCall (.callable (.call owner name)) args = .ok c)
    (happly : ctx.apply (.call owner name) (.list args) = .ok v) (line : Int)
    (j : Journal) :
    ∃ j', (form ctx later (.symbol line name :: params) >>= ctx.run).run j =
        (.ok (v.marked j.nextMark).1, j') ∧ j'.nextMark = (v.marked j.nextMark).2 := by
  have hform : form ctx later (.symbol line name :: params) = (do
      Action.request ⟨name, args⟩
      return .chunk c) := by
    have hofExcept : Action.ofExcept ctx.library = pure (.ofExports owner exports) := by
      rw [hlibrary]
      rfl
    rw [form_call (by simpa [Node.isNamed] using hproc) (by simpa [Node.isNamed] using heval),
      hofExcept, pure_bind, hparams, pure_bind, resolve_ofExports hname hc]
  have hwell := hargs.builtOf.ofCall partKind_atomic hc
  have hlistable := Chunk.listable_ofCall (Value.listable_of_madeOf hargs hwritable) hc
  have houtcome : c.toValue.outcome ctx.apply =
      Calling.call ctx.apply (.call owner name) (.list args) := by
    have hexpand : Value.expandAll ctx.apply args = pure args :=
      Value.expandAll_of_expand fun v hv => Value.expand_of_madeOf (Value.madeOf_list.1 hargs v hv)
    rw [Chunk.outcome_ofCall hargs.builtOf hc, hshared, hexpand, pure_bind]
  -- The request is on record before the call is made.
  let requested : Journal := { j with requests := ⟨name, args⟩ :: j.requests }
  have hrequest : (Action.request ⟨name, args⟩).run j = (.ok (), requested) := rfl
  obtain ⟨j', hrun, hmark⟩ := run_evaluate hwell (fun _ => hlistable "")
    (.inr ⟨rfl, hb⟩) requested
  rw [houtcome, Calling.call, Tracked.run_of, Record.call, happly] at hrun hmark
  refine ⟨j', ?_, hmark⟩
  rw [hform, bind_assoc, Tracked.run_bind_of_ok hrequest, pure_bind, run, Compiled.toValue, hrun]

end CompileContext

/-! ## Code that is handed on -/

section

variable {modules : List Module} {settings : Settings} {b : Backend} {code : List Node}
  {later : List Node → Action Value}

/-- The compiler with the standard library. -/
abbrev standardContext (modules : List Module) (settings : Settings) : CompileContext :=
  builtinContext modules standardLibrary settings

theorem standardLibrary_mem : standardLibrary ∈ builtinLibraries := by
  simp [builtinLibraries]

theorem exports_identity :
    (LibraryClass.exportsOf standardLibrary.members).contains "identity" = true := by
  simp [LibraryClass.exportsOf, standardLibrary, LibraryClass.derived, LibraryClass.own,
    Standard.general]

/-- Code that is captured and handed to `identity`. -/
def Node.handedOn (line line' : Int) (code : List Node) : Node :=
  .form .fixed [.symbol line "identity", .form .fixed (.symbol line' procName :: code)]

/-- Captured code is not too large to be an argument, however much it is. -/
theorem ofCall_captured (f : Callable) (code : List Node) :
    ∃ c, Chunk.ofCall (.callable f) [.captured code] = .ok c := by
  refine ⟨_, Chunk.ofCall_eq_ok_iff.2 ⟨?_, rfl⟩⟩
  have hplace : (Value.captured code).sameConstant (.callable f) = false := by
    cases f <;> simp [Value.sameConstant, Value.kind]
  simp [Chunk.callPlan, Value.plan, Value.planOfAll, Value.leavesOfAll, Value.leaves, placeIn,
    poolOf, pooled, hplace, Instr.operand, Emit.maxOperand]

/-- A call of `identity` that is run while compiling hands on the code that it is given. -/
theorem run_runTarget_handedOn (modules : List Module) (hb : settings.backend = .ok b)
    (hcode : Node.AllReadable code) (line line' : Int) (j : Journal) :
    ∃ j', ((standardContext modules settings).runTarget later (.handedOn line line' code)).run j =
      (.ok (.captured code), j') ∧ j'.nextMark = j.nextMark := by
  obtain ⟨c, hc⟩ := ofCall_captured (.call standardLibrary.name "identity") code
  have hparams : CompileContext.argumentsFrom (standardContext modules settings) later []
      [.form .fixed (.symbol line' Node.procName :: code)] = pure [.captured code] := by
    rw [CompileContext.argumentsFrom, CompileContext.argument, CompileContext.form.eq_def]
    simp [Node.isNamed, CompileContext.argumentsFrom, Compiled.toValue]
  have hargs : (Value.list [.captured code]).MadeOf Value.Atomic := by
    refine Value.madeOf_list.2 fun v hv => ?_
    obtain rfl := List.mem_singleton.1 hv
    exact Value.madeOf_of partKind_atomic (Value.atomic_captured code)
  have hwritable : (Value.list [.captured code]).writable = true := by
    simp [Value.writable, Value.allWritable, hcode.writable]
  have hshared : Value.sharedAll [] [.captured code] = [.captured code] := rfl
  have happly : Callable.apply (.call standardLibrary.name "identity") (.list [.captured code]) =
      .ok (.captured code) := rfl
  rw [Node.handedOn, CompileContext.runTarget_form]
  exact CompileContext.run_form_call (library_builtin standardLibrary_mem modules settings) hb
    (by decide) (by decide) exports_identity hparams hargs hshared hwritable hc happly line j

/-- A program that runs captured code in its place. -/
def Node.unwrapped (line line' : Int) (code : List Node) : Node :=
  .form .fixed [.symbol line evalName, .form .fixed (.symbol line' procName :: code)]

/-- A program that runs captured code which a function hands on. -/
def Node.staged (line line' line'' : Int) (code : List Node) : Node :=
  .form .fixed [.symbol line evalName, .handedOn line' line'' code]

theorem runTree_unwrapped (ctx : CompileContext) (line line' : Int) (code : List Node) :
    ctx.runTree (.unwrapped line line' code) =
      ctx.runBody (ctx.depthFor (Node.unwrapped line line' code) + 1) code := by
  have hproc : (Node.form .fixed (.symbol line' Node.procName :: code)).procCode? = some code := by
    simp [Node.procCode?]
  rw [CompileContext.runBody, CompileContext.runTree, CompileContext.node.eq_def]
  dsimp only [Node.unwrapped]
  rw [CompileContext.form_unwrap hproc]

/-- Whatever the code comes to is compiled as a constant and run once more. -/
theorem runTree_staged (ctx : CompileContext) (line line' line'' : Int) (code : List Node) :
    ctx.runTree (.staged line line' line'' code) = (do
      let v ← ctx.runTarget (ctx.runBody (ctx.depthFor (.staged line line' line'' code)))
        (.handedOn line' line'' code)
      let unit ← CompileContext.runCaptured
        (ctx.runBody (ctx.depthFor (.staged line line' line'' code))) line v
      ctx.run unit) := by
  have hproc : (Node.handedOn line' line'' code).procCode? = none := rfl
  rw [CompileContext.runTree, CompileContext.node.eq_def]
  dsimp only [Node.staged]
  rw [CompileContext.form_eval hproc, bind_assoc]

/-- In its place captured code comes to what is compiled as a constant when it is handed on. -/
theorem run_runTree_staged (modules : List Module) (hb : settings.backend = .ok b)
    (hcode : Node.AllReadable code) (l l' m m' m'' : Int) (j : Journal) :
    ∃ j', (((standardContext modules settings).runTree (.staged m m' m'' code)).run j).1 =
      (((standardContext modules settings).runTree (.unwrapped l l' code)).run j).1 >>= fun v =>
        ((CompileContext.ofResult v >>= (standardContext modules settings).run).run j').1 := by
  obtain ⟨j₁, htarget, hmark⟩ := run_runTarget_handedOn modules hb hcode m' m'' j
  rw [runTree_staged, Tracked.run_bind_of_ok htarget, CompileContext.runCaptured, bind_assoc,
    Tracked.result_bind, runTree_unwrapped]
  -- The code is run from a journal with the same mark, and the programs are larger than the code.
  have hsize : Node.sizeOfAll code <
      (standardContext modules settings).depthFor (.unwrapped l l' code) + 1 := by
    simp only [CompileContext.depthFor, Node.unwrapped, Node.size, Node.sizeOfAll]
    omega
  have hsize' : Node.sizeOfAll code <
      (standardContext modules settings).depthFor (.staged m m' m'' code) := by
    simp only [CompileContext.depthFor, Node.staged, Node.handedOn, Node.size, Node.sizeOfAll]
    omega
  obtain ⟨hsame, -, -⟩ := CompileContext.agree_runBody_of_lt
    (keeps_shallow standardLibrary_mem modules settings) likeness_sameMark hsize hsize' j j₁
    hmark.symm
  exact ⟨_, by rw [hsame]⟩

/-- With the standard library, captured code comes to the same whether an `eval` form takes it off
its `proc`, or a function hands it to the `eval` form: to the same value, the same error of the
language, or the same fault. In the second case it is run while compiling, and its value has to fit
into a chunk once more; and it must not hold two different numbers that are equal, as one of them
would stand for the other there. If chunks are listed, integers in it must be short enough. -/
theorem unwrapped_eq_staged {source staged : String} {l l' m m' m'' : Int} {j : Journal}
    (hsource : read source = .ok (.unwrapped l l' code))
    (hstaged : read staged = .ok (.staged m m' m'' code)) (hb : settings.backend = .ok b)
    (hnumbers : ∀ v,
      (((standardContext modules settings).runProgram Observer.silent source).run j).1 =
        .ok (.value v) → ∀ x ∈ v.numbers, ∀ y ∈ v.numbers, x.equals y = true → x = y)
    (hlisting : settings.listing = true → ∀ v,
      (((standardContext modules settings).runProgram Observer.silent source).run j).1 =
        .ok (.value v) → v.writable = true)
    (hoverflow : ∀ n,
      (((standardContext modules settings).runProgram Observer.silent staged).run j).1 ≠
        .error (.fault (.operandRange n))) :
    (((standardContext modules settings).runProgram Observer.silent staged).run j).1 =
      (((standardContext modules settings).runProgram Observer.silent source).run j).1 := by
  have hcode : Node.AllReadable code := (read_readable hsource).2.2.1.2.2
  obtain ⟨j', htrees⟩ := run_runTree_staged modules hb hcode l l' m m' m'' j
  rw [CompileContext.runProgram_of_read hsource] at hnumbers hlisting ⊢
  rw [CompileContext.runProgram_of_read hstaged] at hoverflow ⊢
  rcases hresult :
    (((standardContext modules settings).runTree (.unwrapped l l' code)).run j).1 with f | v
  · -- A failure is the same in either case.
    rw [htrees, hresult]
    rfl
  · have hread := ensures_runTree_readable standardLibrary_mem modules settings
      (read_readable hsource) j
    rw [hresult] at hread
    have hvalue := settled_eq_value.2 hresult
    have hconstant := CompileContext.run_ofResult (standardContext modules settings) hb
      (hnumbers v hvalue) hread (fun h => hlisting h v hvalue) j'
    rw [hresult] at htrees
    change _ = ((CompileContext.ofResult v >>= (standardContext modules settings).run).run j').1
      at htrees
    rcases hconstant with hself | ⟨n, -, hlarge⟩
    · rw [htrees, hself]
    · exact absurd (settled_eq_fault.2 (htrees.trans hlarge)) (hoverflow n)

end

/-- A list that a function makes, which holds the same number twice. -/
theorem unwrapped_eq_staged_reverse :
    let ctx := standardContext [] .none
    let v : Value := .list [.list [.text "one", .number (.int 1)], .number (.int 1)]
    ((ctx.runProgram Observer.silent "(eval (proc reverse [1 [one 1]]))").run (.blank 0)).1 =
        .ok (.value v) ∧
      ((ctx.runProgram Observer.silent "(eval (identity (proc reverse [1 [one 1]])))").run
        (.blank 0)).1 = .ok (.value v) := by
  intro ctx v
  let code : List Node := [.symbol 1 "reverse",
    .list [.number 1 (.int 1), .list [.symbol 1 "one", .number 1 (.int 1)]]]
  let args : List Value := [.list [.number (.int 1), .list [.text "one", .number (.int 1)]]]
  have hsource : read "(eval (proc reverse [1 [one 1]]))" = .ok (.unwrapped 1 1 code) := by
    unfold code Node.unwrapped
    cbv
  have hstaged : read "(eval (identity (proc reverse [1 [one 1]])))" =
      .ok (.staged 1 1 1 code) := by
    unfold code Node.staged Node.handedOn
    cbv
  have hb : Settings.none.backend = .ok .table := rfl
  have hexported : (LibraryClass.exportsOf standardLibrary.members).contains "reverse" = true := by
    simp [LibraryClass.exportsOf, standardLibrary, LibraryClass.derived, LibraryClass.own,
      listLibrary, Lists.functions]
  have hargs : (Value.list args).MadeOf Value.Atomic := by
    simp [args, Value.MadeOf, Value.leaves, Value.leavesOfAll, Value.atomic_number,
      Value.atomic_text]
  have hshared : Value.sharedAll [] args = args := by
    simp [Value.sharedAll_eq_iff, args, Value.leaves, Value.leavesOfAll, Value.sameConstant,
      Value.kind]
  have hcall : ∀ i ∈ Chunk.callPlan (.callable (.call standardLibrary.name "reverse")) args,
      i.operand ≤ Emit.maxOperand := by
    decide +kernel
  have hplan : ∀ i ∈ v.plan [], i.operand ≤ Emit.maxOperand := by
    decide +kernel
  have hwritable : (Value.list args).writable = true := by
    decide +kernel
  have hparams : CompileContext.argumentsFrom ctx
      (ctx.runBody (ctx.depthFor (Node.unwrapped 1 1 code))) [] code.tail = pure args := rfl
  have happly : Callable.apply (.call standardLibrary.name "reverse") (.list args) = .ok v := rfl
  obtain ⟨j, hrun, -⟩ := CompileContext.run_form_call
    (library_builtin standardLibrary_mem [] .none) hb (by decide) (by decide) hexported hparams
    hargs hshared hwritable (Chunk.ofCall_eq_ok_iff.2 ⟨hcall, rfl⟩) happly 1 (.blank 0)
  have htree : ((ctx.runTree (.unwrapped 1 1 code)).run (.blank 0)).1 = .ok v := by
    rw [runTree_unwrapped, CompileContext.runBody]
    exact congrArg Prod.fst hrun
  have hvalue : ((ctx.runProgram Observer.silent "(eval (proc reverse [1 [one 1]]))").run
      (.blank 0)).1 = .ok (.value v) := by
    rw [CompileContext.runProgram_of_read hsource, htree]
    rfl
  have hnumbers : ∀ x ∈ v.numbers, ∀ y ∈ v.numbers, x.equals y = true → x = y := by
    simp [v, Value.numbers, Value.leaves, Value.leavesOfAll]
  have hread : v.MadeOf (Value.Holding Node.AllReadable) := by
    simp [v, Value.MadeOf, Value.leaves, Value.leavesOfAll, Value.Holding, Value.atomic_number,
      Value.atomic_text]
  -- The result fits into a chunk, so that the second program comes to a value.
  have hoverflow : ∀ n, ((ctx.runProgram Observer.silent
      "(eval (identity (proc reverse [1 [one 1]])))").run (.blank 0)).1 ≠
      .error (.fault (.operandRange n)) := by
    intro n
    obtain ⟨j', hstages⟩ := run_runTree_staged [] hb (read_readable hsource).2.2.1.2.2
      1 1 1 1 1 (.blank 0)
    rw [htree] at hstages
    have hfits : Chunk.ofValue v = .ok _ := Chunk.ofValue_eq_ok_iff.2 ⟨hplan, rfl⟩
    have hself : ((CompileContext.ofResult v >>= ctx.run).run j').1 = .ok v := by
      refine (CompileContext.run_ofResult ctx hb hnumbers hread (fun _ => by decide +kernel)
        j').resolve_right ?_
      simp [hfits]
    rw [CompileContext.runProgram_of_read hstaged, hstages.trans hself]
    simp [settled]
  have hsame := unwrapped_eq_staged hsource hstaged hb
    (fun w hw => by
      cases hvalue.symm.trans hw
      exact hnumbers)
    (fun _ w hw => by
      cases hvalue.symm.trans hw
      decide +kernel) hoverflow
  exact ⟨hvalue, hsame.trans hvalue⟩

end FormLang
