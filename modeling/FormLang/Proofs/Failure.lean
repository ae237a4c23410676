import FormLang.Failure
import FormLang.Proofs.Chunk.Plan

set_option autoImplicit false

/-! # Failures in the ordinary course

Only the compiler has to do with captured code: it may complain of a value that is none
(`ProgramError.notCaptured`), and it counts how deep runs of captured code are nested
(`Fault.evaluationDepth`). All other failures are *regular*. A failure is *usual* if it is regular,
or a complaint of a value that is made of known parts.
-/

namespace FormLang

/-- A failure that has nothing to do with captured code. -/
def Failure.Regular (f : Failure) : Prop :=
  f ≠ .fault .evaluationDepth ∧ ∀ v line, f ≠ .error (.notCaptured v line)

/-- Not that code which is run while compiling is nested too deeply; and if it is a complaint of a
value, then of one that is made of parts of a kind. -/
def Failure.Usual (Q : Value → Prop) (f : Failure) : Prop :=
  f ≠ .fault .evaluationDepth ∧ ∀ v line, f = .error (.notCaptured v line) → v.MadeOf Q

namespace Failure

variable {Q : Value → Prop}

theorem regular_fault {f : Fault} (h : f ≠ .evaluationDepth) : (fault f).Regular :=
  ⟨by simpa using h, by simp⟩

theorem regular_error {e : ProgramError} (h : ∀ v line, e ≠ .notCaptured v line) :
    (error e).Regular :=
  ⟨by simp, fun v line he => h v line (Failure.error.inj he)⟩

theorem Regular.usual {f : Failure} (h : f.Regular) : f.Usual Q :=
  ⟨h.1, fun v line hf => absurd hf (h.2 v line)⟩

theorem usual_notCaptured {v : Value} (h : v.MadeOf Q) (line : Int) :
    (error (.notCaptured v line)).Usual Q := by
  refine ⟨by simp, ?_⟩
  rintro w line' ⟨⟩
  exact h

end Failure

end FormLang
