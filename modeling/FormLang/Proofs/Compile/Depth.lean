import FormLang.Proofs.Compile.Congruence

set_option autoImplicit false

/-! # Larger bounds

How deeply runs of captured code may be nested is bounded by a number. A larger one makes no
difference but to what is cut off by a smaller one (`CompileContext.upToDepth_runBody`), and so it is
with the reserve for a program (`upToDepth_compile`). This is so whatever libraries answer and
functions do, also if they make up code that was never written.
-/

namespace FormLang

namespace Action

/-- The first action does what the second one does, or it is cut off because runs are nested too
deeply. -/
def UpToDepth {α : Type} (x y : Action α) : Prop :=
  ∀ j, x.run j = y.run j ∨ ∃ j', x.run j = (.error (.fault .evaluationDepth), j')

variable {α β : Type} {x y : Action α} {g g' : α → Action β}

theorem UpToDepth.refl (x : Action α) : UpToDepth x x := fun _ => .inl rfl

theorem UpToDepth.bind (h : UpToDepth x y) (hg : ∀ a, UpToDepth (g a) (g' a)) :
    UpToDepth (x >>= g) (y >>= g') := by
  intro j
  rcases h j with hsame | ⟨j', hcut⟩
  · rcases hy : y.run j with ⟨f | a, j'⟩
    · rw [hy] at hsame
      exact .inl (by rw [Tracked.run_bind_of_error hsame, Tracked.run_bind_of_error hy])
    · rw [hy] at hsame
      rw [Tracked.run_bind_of_ok hsame, Tracked.run_bind_of_ok hy]
      exact hg a j'
  · exact .inr ⟨j', Tracked.run_bind_of_error hcut⟩

theorem UpToDepth.catchError (h : UpToDepth x y) :
    UpToDepth (catchError x) (catchError y) := by
  intro j
  rw [run_catchError, run_catchError]
  rcases h j with hsame | ⟨j', hcut⟩
  · exact .inl (by rw [hsame])
  · exact .inr ⟨j', by rw [hcut]⟩

theorem congruence_upToDepth : Congruence fun _ => UpToDepth where
  pure _ := .refl _
  throw _ := .refl _
  request _ := .refl _
  evaluate _ _ _ _ := .refl _
  bind := .bind

end Action

namespace CompileContext

open FormLang.Action

variable {ctx ctx' : CompileContext}

/-- A larger bound makes no difference but to runs that are cut off. -/
theorem upToDepth_runBody (h : Related (fun _ => UpToDepth) ctx ctx') {depth depth' : Nat}
    (hdepth : depth ≤ depth') (code : List Node) :
    UpToDepth (ctx.runBody depth code) (ctx'.runBody depth' code) := by
  induction depth generalizing depth' code with
  | zero => exact fun j => .inr ⟨j, rfl⟩
  | succ depth ih =>
      obtain ⟨depth', rfl⟩ : ∃ k, depth' = k + 1 := ⟨depth' - 1, by omega⟩
      rw [runBody_succ, runBody_succ]
      exact h.runOnce (fun inner => ih (by omega) inner) code

/-- Compilers that differ in their reserves take the same steps. -/
theorem related_reserve (ctx : CompileContext) (reserve reserve' : Nat) :
    Related (fun _ => UpToDepth) { ctx with reserve := reserve }
      { ctx with reserve := reserve' } :=
  let h := congruence_upToDepth.related ctx
  ⟨h.pure, h.bind, h.request, h.fault, h.complaint, h.evaluate, h.library, h.violation⟩

end CompileContext

/-- With a larger reserve a program is compiled to the same, unless the smaller one was used up. -/
theorem upToDepth_compile (ctx : CompileContext) {reserve reserve' : Nat}
    (h : reserve ≤ reserve') (n : Node) :
    Action.UpToDepth (compile { ctx with reserve := reserve } n)
      (compile { ctx with reserve := reserve' } n) := by
  have hrelated := ctx.related_reserve reserve reserve'
  have hdepth : n.size + reserve ≤ n.size + reserve' := by omega
  exact (hrelated.node (CompileContext.upToDepth_runBody hrelated hdepth) n).catchError

end FormLang
