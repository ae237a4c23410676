import FormLang.Interpreter
import FormLang.Proofs.Action
import FormLang.Proofs.Failure

set_option autoImplicit false

/-! # Whole runs

To an observer who looks away, running a program is reading it, compiling the tree and running the
unit, where errors of the language are results wherever they come up
(`CompileContext.run_runProgram`). Reading fails for reasons of its own, none of which has to do
with captured code (`ensures_read`).
-/

namespace FormLang

namespace CompileContext

/-- Compiles and runs a tree. -/
def runTree (ctx : CompileContext) (n : Node) : Action Value := do
  let unit ← ctx.node (ctx.runBody (ctx.depthFor n)) n
  ctx.run unit

/-- Reads a text, and compiles and runs the tree. -/
def runSource (ctx : CompileContext) (source : String) : Action Value := do
  let n ← Action.ofExcept (read source)
  ctx.runTree n

end CompileContext

/-- Values and errors of the language are outcomes. -/
def settled : Except Failure Value → Except Failure Outcome
  | .ok v => .ok (.value v)
  | .error (.error e) => .ok (.error e)
  | .error f => .error f

/-- An error of the language that comes up is an outcome. -/
def caught : Except Failure Outcome → Except Failure Outcome
  | .error (.error e) => .ok (.error e)
  | r => r

theorem settled_eq_value {r : Except Failure Value} {v : Value} :
    settled r = .ok (.value v) ↔ r = .ok v := by
  rcases r with (e | f | s) | w <;> simp [settled]

theorem settled_eq_error {r : Except Failure Value} {e : ProgramError} :
    settled r = .ok (.error e) ↔ r = .error (.error e) := by
  rcases r with (e' | f | s) | w <;> simp [settled]

theorem settled_eq_fault {r : Except Failure Value} {f : Fault} :
    settled r = .error (.fault f) ↔ r = .error (.fault f) := by
  rcases r with (e | f' | s) | w <;> simp [settled]

namespace CompileContext

variable {ctx ctx₁ ctx₂ : CompileContext} {observer : Observer} {source : String}
  {j j₁ j₂ j₃ : Journal}

/-- Errors of the language that come up while a program is run are its outcome, which the observer
is shown. -/
theorem run_runProgram_of_runStages {r : Except Failure Outcome}
    (h : (ctx.runStages observer source).run j = (r, j₁)) :
    (ctx.runProgram observer source).run j =
      match caught r with
      | .ok outcome => (do
        let (result, _) ← observer .result Stage.result.label (outcome, ctx)
        return result : Action Outcome).run j₁
      | .error f => (.error f, j₁) := by
  have hcatch := Action.run_catchError (ctx.runStages observer source) j
  rw [h] at hcatch
  rcases r with (e | f | s) | o <;> dsimp only at hcatch
  · rw [runProgram, Tracked.run_bind_of_ok hcatch]
    rfl
  · rw [runProgram, Tracked.run_bind_of_error hcatch]
    rfl
  · rw [runProgram, Tracked.run_bind_of_error hcatch]
    rfl
  · rw [runProgram, Tracked.run_bind_of_ok hcatch]
    rfl

theorem run_silent (s : Stage) (label : String) (found : s.Product × CompileContext)
    (j : Journal) : (Observer.silent s label found).run j = (.ok found, j) := rfl

theorem run_ofExcept_read {n : Node} (h : read source = .ok n) (j : Journal) :
    (Action.ofExcept (read source)).run j = (.ok n, j) := by
  rw [h]
  rfl

theorem run_ofExcept_unread {f : Failure} (h : read source = .error f) (j : Journal) :
    (Action.ofExcept (read source)).run j = (.error f, j) := by
  rw [h]
  rfl

/-- A text that cannot be read ends the run before the observer sees anything. -/
theorem run_runStages_of_unread {f : Failure} (h : read source = .error f) (j : Journal) :
    (ctx.runStages observer source).run j = (.error f, j) := by
  rw [runStages, Tracked.run_bind_of_error (run_ofExcept_unread h j)]

section

variable {n left : Node} (hread : read source = .ok n)
  (hcode : (observer .code Stage.code.label (n, ctx)).run j = (.ok (left, ctx₁), j₁))

include hread hcode

/-- A fault while compiling ends the run. -/
theorem run_runStages_of_fault {f : Failure} (h : (compile ctx₁ left).run j₁ = (.error f, j₂)) :
    (ctx.runStages observer source).run j = (.error f, j₂) := by
  rw [runStages, Tracked.run_bind_of_ok (run_ofExcept_read hread j),
    Tracked.run_bind_of_ok hcode]
  dsimp only
  rw [Tracked.run_bind_of_error h]

/-- An error while compiling is the outcome. -/
theorem run_runStages_of_error {e : ProgramError}
    (h : (compile ctx₁ left).run j₁ = (.ok (.error e), j₂)) :
    (ctx.runStages observer source).run j = (.ok (.error e), j₂) := by
  rw [runStages, Tracked.run_bind_of_ok (run_ofExcept_read hread j),
    Tracked.run_bind_of_ok hcode]
  dsimp only
  rw [Tracked.run_bind_of_ok h]
  rfl

/-- What is compiled is run, as the observer leaves it. -/
theorem run_runStages_of_unit {unit left' : Compiled}
    (h : (compile ctx₁ left).run j₁ = (.ok (.ok unit), j₂))
    (hunit : (observer .unit Stage.unit.label (unit, ctx₁)).run j₂ = (.ok (left', ctx₂), j₃)) :
    (ctx.runStages observer source).run j = (do
      let v ← ctx₂.run left'
      return .value v : Action Outcome).run j₃ := by
  rw [runStages, Tracked.run_bind_of_ok (run_ofExcept_read hread j),
    Tracked.run_bind_of_ok hcode]
  dsimp only
  rw [Tracked.run_bind_of_ok h]
  dsimp only
  rw [Tracked.run_bind_of_ok hunit]

end

/-- Running a program in silence is reading, compiling and running it. -/
theorem run_runProgram (ctx : CompileContext) (source : String) (j : Journal) :
    (ctx.runProgram Observer.silent source).run j =
      (settled ((ctx.runSource source).run j).1, ((ctx.runSource source).run j).2) := by
  cases hread : read source with
  | error f =>
      rw [run_runProgram_of_runStages (run_runStages_of_unread hread j), runSource,
        Tracked.run_bind_of_error (run_ofExcept_unread hread j)]
      cases f <;> rfl
  | ok n =>
      have hcode := run_silent .code Stage.code.label (n, ctx) j
      have hcompile : (compile ctx n).run j = _ := Action.run_catchError _ j
      rw [runSource, Tracked.run_bind_of_ok (run_ofExcept_read hread j), runTree]
      -- The compiler comes to an error of the language, another failure, or a unit.
      rcases hnode : (ctx.node (ctx.runBody (ctx.depthFor n)) n).run j with
          ⟨(e | f | s) | unit, j'⟩ <;>
        rw [hnode] at hcompile <;> dsimp only at hcompile
      · rw [run_runProgram_of_runStages (run_runStages_of_error hread hcode hcompile),
          Tracked.run_bind_of_error hnode]
        rfl
      · rw [run_runProgram_of_runStages (run_runStages_of_fault hread hcode hcompile),
          Tracked.run_bind_of_error hnode]
        rfl
      · rw [run_runProgram_of_runStages (run_runStages_of_fault hread hcode hcompile),
          Tracked.run_bind_of_error hnode]
        rfl
      · have hunit := run_silent .unit Stage.unit.label (unit, ctx) j'
        have hstages := run_runStages_of_unit hread hcode hcompile hunit
        rw [Tracked.run_bind_of_ok hnode]
        rcases hrun : (ctx.run unit).run j' with ⟨f | v, j''⟩
        · rw [Tracked.run_bind_of_error hrun] at hstages
          rw [run_runProgram_of_runStages hstages]
          cases f <;> rfl
        · rw [Tracked.run_bind_of_ok hrun] at hstages
          rw [run_runProgram_of_runStages hstages]
          rfl

/-- A text that is read comes to what its tree comes to. -/
theorem runProgram_of_read {n : Node} (h : read source = .ok n) (ctx : CompileContext)
    (j : Journal) :
    ((ctx.runProgram Observer.silent source).run j).1 = settled ((ctx.runTree n).run j).1 := by
  rw [run_runProgram, runSource, Tracked.run_bind_of_ok (run_ofExcept_read h j)]

end CompileContext

/-! ## Reading -/

namespace Stream

theorem regular_readError (reason : ReadFault) (line : Nat) : (readError reason line).Regular :=
  Failure.regular_error (by simp)

theorem ensures_leaf (t : Token) :
    Ensures (fun f => (Failure.fault f).Regular) (fun _ => True) (leaf t) := by
  rw [leaf]
  split
  · trivial
  · rw [Node.ofAtom.eq_def]
    split
    · next negative digits _ =>
      rw [readInteger]
      split
      · exact Ensures.throw (Failure.regular_fault (by simp))
      · trivial
    · split <;> trivial

theorem regular_of_failAtEnd {s s' : Stream} {f : Failure} (h : s.failAtEnd = some (f, s')) :
    f.Regular := by
  obtain ⟨⟨reason, line⟩, -, hf⟩ := Option.map_eq_some_iff.1 h
  cases hf
  exact regular_readError reason line

theorem ensures_parseFrom (failure : Option (ReadFault × Nat)) (line : Nat) (levels : List Level)
    (tokens : List Token) :
    Ensures Failure.Regular (fun _ => True) (parseFrom failure line levels tokens).1 := by
  induction tokens generalizing line levels with
  | nil =>
      rw [parseFrom.eq_def]
      dsimp only
      split
      · next hfails => exact regular_of_failAtEnd hfails
      · exact regular_readError _ _
      · exact regular_readError _ _
  | cons t rest ih =>
      rw [parseFrom.eq_def]
      dsimp only
      split
      · exact ih _ _
      · -- A closing bracket: it closes the innermost level, or is out of place.
        split
        · exact regular_readError _ _
        · split
          · split
            · trivial
            · exact ih _ _
          · exact regular_readError _ _
      · have hleaf := ensures_leaf t
        split
        · next f hf =>
          rw [hf] at hleaf
          exact hleaf
        · split
          · trivial
          · exact ih _ _

theorem ensures_peek (s : Stream) : Ensures Failure.Regular (fun _ => True) s.peek.1 := by
  rw [peek.eq_def]
  split
  · trivial
  · trivial
  · split
    · next hfails => exact regular_of_failAtEnd hfails
    · trivial

end Stream

/-- Reading fails in a regular way. -/
theorem ensures_read (source : String) :
    Ensures Failure.Regular (fun _ => True) (read source) := by
  have hpeek := (Stream.ofLexed (lex source)).ensures_peek
  rw [read]
  split
  · next f s hfails =>
    rw [hfails] at hpeek
    exact hpeek
  · exact Stream.regular_readError _ _
  · next t s hfirst =>
    have hparse := Stream.ensures_parseFrom s.failure s.line [] s.pending
    split
    · next f s' hfails =>
      rw [← Stream.parse, hfails] at hparse
      exact hparse
    · next n s' _ =>
      have hend := s'.ensures_peek
      split
      · next f s'' hfails =>
        rw [hfails] at hend
        exact hend
      · exact Stream.regular_readError _ _
      · trivial

/-- What a program comes to has what its tree comes to, and what all regular failures have. -/
theorem CompileContext.ensures_runSource {ctx : CompileContext} {source : String} {j : Journal}
    {E : Failure → Prop} {P : Value → Prop} (hE : ∀ f : Failure, f.Regular → E f)
    (h : ∀ n, read source = .ok n → Ensures E P ((ctx.runTree n).run j).1) :
    Ensures E P ((ctx.runSource source).run j).1 := by
  rw [runSource]
  cases hread : read source with
  | error f =>
      have hregular := ensures_read source
      rw [hread] at hregular
      exact hE f hregular
  | ok n => exact h n hread

end FormLang
