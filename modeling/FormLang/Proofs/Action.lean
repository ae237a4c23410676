import FormLang.Action
import FormLang.Proofs.Tracked

set_option autoImplicit false

/-! # Results of actions

What the results of an action have in common, for the actions that are not `do` blocks: results
that were there before, and actions whose errors are caught.
-/

namespace FormLang

namespace Action

variable {α : Type} {P : α → Prop} {act : Action α} {a : α} {j j' : Journal}

theorem yields_ofExcept {r : Except Failure α} (h : ∀ a, r = .ok a → P a) :
    Tracked.Yields P (ofExcept r) := by
  intro j a j' hrun
  cases hrun
  exact h a rfl

theorem yields_ofFault {r : Except Fault α} (h : ∀ a, r = .ok a → P a) :
    Tracked.Yields P (ofFault r) := by
  refine yields_ofExcept fun a hr => h a ?_
  cases r with
  | ok b =>
      cases hr
      rfl
  | error f => cases hr

theorem run_catchError (act : Action α) (j : Journal) :
    (catchError act).run j =
      match act.run j with
      | (.ok a, j) => (.ok (.ok a), j)
      | (.error (.error e), j) => (.ok (.error e), j)
      | (.error f, j) => (.error f, j) := by
  -- Only the run from this journal matters, so the action may be taken for its result.
  have hrun : (catchError act).run j = (catchError (Tracked.of fun _ => act.run j)).run j := rfl
  rw [hrun]
  rcases act.run j with ⟨(_ | _ | _) | _, _⟩ <;> rfl

/-- An action whose errors are caught has a regular result only if the action has it. -/
theorem of_run_catchError (h : (catchError act).run j = (.ok (.ok a), j')) :
    act.run j = (.ok a, j') := by
  rw [run_catchError] at h
  rcases hact : act.run j with ⟨(_ | _ | _) | b, j₁⟩ <;> rw [hact] at h <;> cases h
  rfl

end Action
end FormLang
