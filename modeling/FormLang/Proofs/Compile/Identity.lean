import FormLang.Proofs.Compile.Marks
import FormLang.Proofs.Compile.Stages

set_option autoImplicit false

/-! # A program as a parameter

A program can stand alone, or be a parameter of a call. By itself a value becomes a chunk, a chunk
is run, and captured code is the result as it is; in a call, all of these become constants of the
chunk of the call, to be pushed or run there. The function `identity` hands on its argument, so that
the two can be compared: they come to the same (`passedOn_eq`). Marks are the reason why that is not
obvious for undefined numbers, which a call may make new ones.
-/

namespace FormLang

/-! ## Building a single argument -/

namespace Chunk

variable {f : Callable} {v : Value} {c c' : Chunk}

/-- A value that can be the only argument of a call can be a constant. -/
theorem exists_ofValue_of_ofCall (hc : ofCall (.callable f) [v] = .ok c) :
    ∃ c', ofValue v = .ok c' := by
  obtain ⟨hsmall, -⟩ := ofCall_eq_ok_iff.1 hc
  refine ⟨_, ofValue_eq_ok_iff.2 ⟨fun i hi => hsmall i ?_, rfl⟩⟩
  have hplan : (Value.list [v]).plan [] = v.plan [] ++ [.gather 1] := by
    simp [Value.plan, Value.planOfAll]
  rw [callPlan, hplan]
  simp [hi]

/-- The called function is no reason for the listing of a call to fail. -/
theorem sameFailure_listing_ofCall (hc : ofCall (.callable f) [v] = .ok c) (indent : String) :
    SameFailure (c.toValue.listing indent) (listConstants indent 0 (poolOf [] v.leaves)) := by
  obtain ⟨hsmall, rfl⟩ := ofCall_eq_ok_iff.1 hc
  have hpool : poolOf [] (Value.leavesOfAll [v]) = poolOf [] v.leaves := by
    rw [Value.leavesOfAll, Value.leavesOfAll, List.append_nil]
  refine ((assembles_call hsmall).sameFailure_listing indent).trans ?_
  rw [callPool, hpool]
  obtain ⟨_, _, _, -, -, -, -, hpooled, -⟩ | ⟨-, -, hpooled, -⟩ :=
    pool_cases (poolOf [] v.leaves) (.callable f)
  · rw [hpooled]
    exact .refl _
  · rw [hpooled]
    exact sameFailure_listConstants_callable _ f indent 0

/-- A value in a call can be listed just when it can as a constant. -/
theorem sameFailure_ofCall_ofValue (hc : ofCall (.callable f) [v] = .ok c)
    (hc' : ofValue v = .ok c') : SameFailure (c'.toValue.listing "") (c.toValue.listing "") := by
  obtain ⟨hsmall, rfl⟩ := ofValue_eq_ok_iff.1 hc'
  exact ((Value.assembles hsmall).sameFailure_listing "").trans
    (sameFailure_listing_ofCall hc "").symm

/-- A chunk in a call can be listed just when it can be by itself. -/
theorem sameFailure_ofCall_toValue (hc : ofCall (.callable f) [c'.toValue] = .ok c) :
    SameFailure (c'.toValue.listing "") (c.toValue.listing "") := by
  have hpool : poolOf [] c'.toValue.leaves = [c'.toValue] := rfl
  have hlisting := sameFailure_listing_ofCall hc ""
  rw [hpool] at hlisting
  exact ((sameFailure_listConstants_singleton _ _ "" 0).symm).trans hlisting.symm

end Chunk

/-! ## Passing a value on -/

/-- The function `identity` of the standard library. -/
def identityCall : Callable := .call standardLibrary.name "identity"

theorem apply_identityCall (v : Value) : Callable.apply identityCall (.list [v]) = .ok v := rfl

theorem result_outcome_identity {v : Value} {c : Chunk} (hv : v.Emittable)
    (hmarked : v.ComesMarked Callable.apply)
    (hc : Chunk.ofCall (.callable identityCall) [v] = .ok c) (r : Record) :
    (((v.shared []).expand Callable.apply).run r).1 =
      ((c.toValue.outcome Callable.apply).run r).1 := by
  have hlist : (Value.list [v]).Emittable := .list (by simpa using hv)
  rw [Chunk.outcome_ofCall hlist hc]
  simp only [Value.sharedAll, Value.expandAll, bind_assoc, pure_bind]
  rcases hx : ((v.shared []).expand Callable.apply).run r with ⟨f | x, r'⟩
  · rw [Tracked.run_bind_of_error hx]
  · have hcall : ((Calling.call Callable.apply identityCall (.list [x])).run r').1 = .ok x := by
      rw [Calling.call, Tracked.run_of, Record.call, apply_identityCall]
      dsimp only
      rw [(hmarked r x r' hx).marked_eq]
    rw [Tracked.run_bind_of_ok hx, hcall]

namespace CompileContext

variable {modules : List Module} {settings : Settings} {b : Backend} {Q : Value → Prop} {n : Node}
  {v : Value} {c : Chunk} {j k : Journal}

/-- A call of `identity` with captured code is evaluated to the code, which is a constant there. -/
theorem result_evaluate_identity_captured (hb : settings.backend = .ok b) {code : List Node}
    (hcode : Node.allWritable code = true)
    (hc : Chunk.ofCall (.callable identityCall) [.captured code] = .ok c) :
    ((evaluate Callable.apply settings none c.toValue).run k).1 = .ok (.captured code) := by
  have hatomic : (Value.captured code).Atomic := Value.atomic_captured code
  have hargs : (Value.list [.captured code]).MadeOf Value.Atomic := by
    simpa [Value.madeOf_list] using Value.madeOf_of partKind_atomic hatomic
  have hwritable : (Value.list [.captured code]).writable = true := by
    simpa [Value.writable, Value.allWritable] using hcode
  have hwell := hargs.builtOf.ofCall partKind_atomic hc
  have hlistable := Chunk.listable_ofCall (Value.listable_of_madeOf hargs hwritable) hc
  obtain ⟨k', hrun, -⟩ : ∃ k', (evaluate Callable.apply settings none c.toValue).run k =
      (((c.toValue.outcome Callable.apply).run ⟨[], k.nextMark⟩).1, k') ∧ _ :=
    run_evaluate hwell (fun _ => hlistable "") (.inr ⟨rfl, hb⟩) k
  have houtcome := result_outcome_identity (Value.madeOf_of partKind_atomic hatomic).builtOf
    (Value.comesMarked_captured Callable.apply code) hc ⟨[], k.nextMark⟩
  rw [hrun, ← houtcome, Value.shared_nil_of_ne hatomic.1, Value.expand_of_atomic hatomic,
    Tracked.run_pure]

/-- What a parameter comes to by itself, a call of `identity` comes to with it. -/
theorem result_unitOf_identity (hb : settings.backend = .ok b) (hQ : PartKind Q)
    (hwritable : ∀ code, Q (.captured code) → Node.allWritable code = true) (hv : Argument Q n v)
    (hmarked : v.ComesMarked Callable.apply)
    (hc : Chunk.ofCall (.callable identityCall) [v] = .ok c) (hmark : j.nextMark = k.nextMark) :
    ((unitOf n v >>= evaluate Callable.apply settings none).run j).1 =
      ((evaluate Callable.apply settings none c.toValue).run k).1 := by
  have hemittable := hv.1.emittable hQ
  have hlist : (Value.list [v]).BuiltOf Q := .list (by simpa using hv.1)
  have hwell : c.toValue.WellFormed Q := hlist.ofCall hQ hc
  have houtcome := result_outcome_identity hemittable hmarked hc
  by_cases hform : n.isForm = true
  · -- A form is a unit already: captured code is not run by itself, and a chunk is.
    obtain ⟨u, hu, rfl⟩ := hv.2 hform
    rw [unitOf, if_pos hform, pure_bind]
    cases u with
    | captured code =>
        rw [Compiled.toValue, evaluate_captured,
          result_evaluate_identity_captured hb (hwritable code hu) hc, Tracked.run_pure]
    | chunk c' =>
        refine result_evaluate_congr hu hwell (Chunk.sameFailure_ofCall_toValue hc) (fun r => ?_)
          hmark
        rw [← houtcome, Compiled.toValue, Value.shared_nil_of_ne c'.kind_toValue,
          Value.expand_of_kind_chunk rfl]
  · -- Any other value becomes a chunk, with the same constants but for the function.
    obtain ⟨c', hc'⟩ := Chunk.exists_ofValue_of_ofCall hc
    have hchunk : (Action.ofFault (Chunk.ofValue v)).run j = (.ok c', j) := by
      rw [hc']
      rfl
    rw [unitOf, if_neg hform, constant, bind_assoc, bind_assoc, Tracked.run_bind_of_ok hchunk,
      pure_bind, pure_bind, Compiled.toValue]
    refine result_evaluate_congr (hv.1.ofValue hQ hc') hwell
      (Chunk.sameFailure_ofCall_ofValue hc hc') (fun r => ?_) hmark
    rw [← houtcome, Chunk.outcome_ofValue hemittable hc']

end CompileContext

/-! ## Passing a program on -/

/-- A program as the parameter of a call of `identity`. -/
def Node.passedOn (line : Int) (n : Node) : Node := .form .fixed [.symbol line "identity", n]

namespace CompileContext

variable {modules : List Module} {settings : Settings} {b : Backend} {n : Node} {source : String}

/-- The compiler with the standard library keeps to the code that a program has. -/
theorem keeps_quotes (modules : List Module) (settings : Settings) (n : Node) :
    (standardContext modules settings).Keeps standardLibrary.name
      (LibraryClass.exportsOf standardLibrary.members) (Value.Holding n.Quotes) fun _ => True :=
  keeps_builtin standardLibrary_mem modules settings (partKind_holding n.Quotes)
    fun _ _ => trivial

theorem depthFor_standard (modules : List Module) (settings : Settings) (n : Node) :
    (standardContext modules settings).depthFor n = n.size := rfl

/-- The call is compiled once the parameter is. -/
theorem node_passedOn (modules : List Module) (settings : Settings)
    (later : List Node → Action Value) (line : Int) (n : Node) :
    (standardContext modules settings).node later (.passedOn line n) = (do
      let v ← argument (standardContext modules settings) later n
      (standardContext modules settings).resolve
        (.ofExports standardLibrary.name (LibraryClass.exportsOf standardLibrary.members))
        (.symbol line "identity") [n] [v]) := by
  have hlibrary : Action.ofExcept (standardContext modules settings).library =
      pure (.ofExports standardLibrary.name (LibraryClass.exportsOf standardLibrary.members)) := by
    rw [library_builtin standardLibrary_mem modules settings]
    rfl
  rw [Node.passedOn, node.eq_def]
  dsimp only
  rw [form_call rfl rfl, hlibrary, pure_bind]
  simp only [argumentsFrom, bind_assoc, pure_bind]
  rfl

/-- How deep runs may go on the way makes no difference to a parameter, as long as they may go as
deep as the parameter is large. -/
theorem argument_runBody_eq (modules : List Module) (settings : Settings) {depth : Nat}
    (h : n.size ≤ depth) :
    argument (standardContext modules settings) ((standardContext modules settings).runBody depth)
        n =
      argument (standardContext modules settings)
        ((standardContext modules settings).runBody n.size) n := by
  have hctx := keeps_quotes modules settings n
  refine (agree_argument hctx likeness_eq (fun code hcode => ?_) n
    fun code hcode => Value.holding_captured.2 hcode).eq
  have hsize := (Value.holding_captured.1 hcode).size_le
  have hdepth : (standardContext modules settings).runBody depth code =
      (standardContext modules settings).runBody n.size code :=
    (agree_runBody_of_lt (keeps_shallow standardLibrary_mem modules settings) likeness_eq
      (by omega) (by omega)).eq
  rw [← hdepth]
  exact agree_runBody hctx likeness_eq trivial (fun _ h _ => h.inner) depth hcode

/-- A program that is read comes to a marked value as a parameter, which code can be emitted for. -/
theorem yields_argument_of_read (modules : List Module) (settings : Settings)
    (hread : read source = .ok n) :
    Tracked.Yields (fun v => Argument (Value.Holding n.Quotes) n v ∧ v.ComesMarked Callable.apply)
      (argument (standardContext modules settings)
        ((standardContext modules settings).runBody n.size) n) := by
  have hctx := keeps_quotes modules settings n
  have hmade : ∀ code, (Value.captured code).Holding n.Quotes →
      Tracked.Agree Eq (fun _ => True) (Value.MadeOf (Value.Holding n.Quotes))
        ((standardContext modules settings).runBody n.size code)
        ((standardContext modules settings).runBody n.size code) :=
    fun code hcode => agree_runBody hctx likeness_eq trivial (fun _ h _ => h.inner) _ hcode
  have hmarked : ∀ code, (Value.captured code).Holding n.Quotes →
      Tracked.Yields Value.Marked ((standardContext modules settings).runBody n.size code) :=
    fun code hcode => yields_runBody_marked hctx (fun _ h _ => h.inner) _ hcode
  have hquotes : ∀ code, n.Quotes code → (Value.captured code).Holding n.Quotes :=
    fun code => Value.holding_captured.2
  intro j v j' hv
  exact ⟨(agree_argument hctx likeness_eq hmade n hquotes).yields (fun _ => rfl) j v j' hv,
    yields_argument_marked hctx hmade hmarked hread hquotes j v j' hv⟩

theorem result_runTree_passedOn (hread : read source = .ok n) (hb : settings.backend = .ok b)
    {line : Int} {j : Journal}
    (hoverflow : ∀ k, ((compile (standardContext modules settings) (.passedOn line n)).run j).1 ≠
      .error (.fault (.operandRange k))) :
    (((standardContext modules settings).runTree (.passedOn line n)).run j).1 =
      (((standardContext modules settings).runTree n).run j).1 := by
  have hsize : n.size ≤ (Node.passedOn line n).size := by
    simp only [Node.passedOn, Node.size, Node.sizeOfAll]
    omega
  have hnode := node_passedOn modules settings
    ((standardContext modules settings).runBody (Node.passedOn line n).size) line n
  rw [argument_runBody_eq modules settings hsize] at hnode
  rw [compile, depthFor_standard, hnode] at hoverflow
  rw [runTree, runTree, depthFor_standard, depthFor_standard, hnode, ← runTarget_eq, runTarget,
    bind_assoc]
  rcases hrun : (argument (standardContext modules settings)
      ((standardContext modules settings).runBody n.size) n).run j with ⟨f | v, j₁⟩
  · rw [Tracked.run_bind_of_error hrun, Tracked.run_bind_of_error hrun]
  · obtain ⟨hargument, hmarked⟩ := yields_argument_of_read modules settings hread j v j₁ hrun
    rw [Tracked.run_bind_of_ok hrun, Tracked.run_bind_of_ok hrun]
    cases hc : Chunk.ofCall (.callable identityCall) [v] with
    | error f =>
        obtain ⟨k, rfl⟩ := Chunk.ofCall_eq_error hc
        refine absurd ?_ (hoverflow k)
        obtain ⟨j₂, hfails⟩ : ∃ j₂,
            ((standardContext modules settings).resolve _ _ [n] [v]).run j₁ =
              (.error (.fault (.operandRange k)), j₂) :=
          run_resolve_of_error exports_identity hc line j₁
        rw [Action.run_catchError, Tracked.run_bind_of_ok hrun, hfails]
    | ok c =>
        -- All that the call adds to the journal is the request.
        let requested : Journal := { j₁ with requests := ⟨"identity", [v]⟩ :: j₁.requests }
        have hrequest : (Action.request ⟨"identity", [v]⟩).run j₁ = (.ok (), requested) := rfl
        have hmark : j₁.nextMark = requested.nextMark := rfl
        rw [resolve_ofExports exports_identity hc, bind_assoc, Tracked.run_bind_of_ok hrequest,
          pure_bind, run, Compiled.toValue]
        exact (result_unitOf_identity hb (partKind_holding n.Quotes)
          (fun _ h => h.allWritable (read_readable hread)) hargument hmarked hc hmark).symm

end CompileContext

/-- With the standard library, a program comes to the same by itself and as the parameter of a call
of `identity`, if the call is not too large to be compiled: to the same value, the same error of the
language, or the same fault. This is so for the tree, and for any text that is read as the call. -/
theorem passedOn_eq {modules : List Module} {settings : Settings} {b : Backend} {n : Node}
    {source : String} (hread : read source = .ok n) (hb : settings.backend = .ok b) {line : Int}
    {j : Journal}
    (hoverflow : ∀ k, ((compile (standardContext modules settings) (.passedOn line n)).run j).1 ≠
      .error (.fault (.operandRange k))) :
    settled (((standardContext modules settings).runTree (.passedOn line n)).run j).1 =
        (((standardContext modules settings).runProgram Observer.silent source).run j).1 ∧
      ∀ passed, read passed = .ok (.passedOn line n) →
        (((standardContext modules settings).runProgram Observer.silent passed).run j).1 =
          (((standardContext modules settings).runProgram Observer.silent source).run j).1 := by
  have htree : settled (((standardContext modules settings).runTree (.passedOn line n)).run j).1 =
      (((standardContext modules settings).runProgram Observer.silent source).run j).1 := by
    rw [CompileContext.runProgram_of_read hread,
      CompileContext.result_runTree_passedOn hread hb hoverflow]
  refine ⟨htree, fun passed hpassed => ?_⟩
  rw [CompileContext.runProgram_of_read hpassed, htree]

/-- Captured code is the result by itself, and a constant in the call. -/
theorem passedOn_eq_captured :
    let run (source : String) : Except Failure Outcome :=
      (((standardContext [] .none).runProgram Observer.silent source).run (.blank 0)).1
    let code : List Node := [.symbol 1 "add", .number 1 (.int 1)]
    run "(proc add 1)" = .ok (.value (.captured code)) ∧
      run "(identity (proc add 1))" = .ok (.value (.captured code)) := by
  intro run code
  let n : Node := .form .fixed (.symbol 1 "proc" :: code)
  have hread : read "(proc add 1)" = .ok n := by
    unfold n code
    cbv
  have hpassed : read "(identity (proc add 1))" = .ok (.passedOn 1 n) := by
    unfold n code Node.passedOn
    cbv
  have hvalue : run "(proc add 1)" = .ok (.value (.captured code)) := by
    unfold run
    rw [CompileContext.runProgram_of_read hread]
    rfl
  have hoverflow : ∀ k, ((compile (standardContext [] .none) (.passedOn 1 n)).run (.blank 0)).1 ≠
      .error (.fault (.operandRange k)) := by
    intro k hfails
    obtain ⟨c, hc⟩ := ofCall_captured identityCall code
    have hargument : CompileContext.argument (standardContext [] .none)
        ((standardContext [] .none).runBody (Node.passedOn 1 n).size) n = pure (.captured code) :=
      rfl
    rw [compile, CompileContext.depthFor_standard, CompileContext.node_passedOn, hargument, pure_bind,
      CompileContext.resolve_ofExports exports_identity hc, Action.run_catchError] at hfails
    cases hfails
  exact ⟨hvalue, ((passedOn_eq hread rfl hoverflow).2 _ hpassed).trans hvalue⟩

end FormLang
