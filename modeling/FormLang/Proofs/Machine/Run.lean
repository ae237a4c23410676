import FormLang.Machine.Dispatch
import Mathlib.Logic.Relation

set_option autoImplicit false

/-! # Runs of a machine, step by step

`Machine.resume` goes from step to step until one of them ends the run. Here the way there is a
relation of its own: a machine *leads* to another when some number of steps goes from one to
the other. Machines along the way have the same result, and every run comes to a last step.
-/

namespace FormLang

namespace Machine

/-- The machine goes from one state to another in some number of steps. -/
def Leads (apply : Apply) : Machine → Machine → Prop :=
  Relation.ReflTransGen fun m next => m.step apply = .next next

variable {apply : Apply} {m m' : Machine}

/-! ## The last step -/

theorem resume_of_next (h : m.step apply = .next m') : m.resume apply = m'.resume apply := by
  rw [resume.eq_def]
  split <;> simp_all

theorem resume_of_returned {v : Value} (h : m.step apply = .returned v m') :
    m.resume apply = (.ok v, m') := by
  rw [resume.eq_def]
  split <;> simp_all

theorem resume_of_failed {f : Failure} (h : m.step apply = .failed f m') :
    m.resume apply = (.error f, m') := by
  rw [resume.eq_def]
  split <;> simp_all

theorem resume_of_leads (h : m.Leads apply m') : m.resume apply = m'.resume apply := by
  induction h with
  | refl => rfl
  | tail _ hstep ih => rw [ih, resume_of_next hstep]

end Machine
end FormLang
