import FormLang.Proofs.Chunk.Safety
import FormLang.Proofs.Evaluation
import FormLang.Proofs.Machine.Ending

set_option autoImplicit false

/-! # Errors come from calls

A machine has faults of its own, but no errors of the language. If a run ends with one, whatever it
ran, then a function has answered with it (`raises_of_evaluate`).
-/

namespace FormLang

/-- Some function answers with the error. -/
def Apply.Raises (apply : Apply) (e : ProgramError) : Prop :=
  ∃ f args, apply f args = .error (.error e)

section

variable {apply : Apply} {e : ProgramError} {m left : Machine} {s : Site} {stack : ValueStack}
  {record : Record} {code : Array UInt8} {constants : List Value} {ip base : Nat}
  {below frames : List Frame}

theorem Record.raises_of_call {r r' : Record} {f : Callable} {args : Value}
    (h : r.call apply f args = (.error (.error e), r')) : apply.Raises e := by
  obtain ⟨target, args, -, -, happly⟩ := Calling.blames_call f args r (.error e) r' h
  exact ⟨target, args, happly⟩

/-! ## The table -/

theorem not_fails_goOn : s.goOn stack record ≠ .failed (.error e) left := by simp [Site.goOn]

theorem not_fails_fault {distance : Nat} {f : Fault} :
    s.fault distance stack record f ≠ .failed (.error e) left := by simp [Site.fault]

theorem withOperand_failed {act : Nat → Handler}
    (h : withOperand code act s stack record = .failed (.error e) left) :
    ∃ n, act n s stack record = .failed (.error e) left := by
  rw [withOperand] at h
  split at h
  · exact ⟨_, h⟩
  · exact absurd h not_fails_fault

theorem withConstant_failed {act : Value → Handler}
    (h : withConstant code constants act s stack record = .failed (.error e) left) :
    ∃ v, act v s stack record = .failed (.error e) left := by
  obtain ⟨n, h⟩ := withOperand_failed h
  split at h
  · exact ⟨_, h⟩
  · exact absurd h not_fails_fault

theorem withCapturedOperand_failed {code : List Node} {act : Int → Handler}
    (h : withCapturedOperand code act s stack record = .failed (.error e) left) :
    ∃ n, act n s stack record = .failed (.error e) left := by
  rw [withCapturedOperand] at h
  split at h
  · exact ⟨_, h⟩
  · exact absurd h not_fails_fault

theorem raises_of_callConst {v : Value}
    (h : callConst apply v s stack record = .failed (.error e) left) : apply.Raises e := by
  rw [callConst.eq_def] at h
  split at h
  · exact absurd h not_fails_fault
  · split at h
    · exact absurd h not_fails_goOn
    · next hcall =>
      obtain ⟨rfl, -⟩ := Step.failed.inj h
      exact Record.raises_of_call hcall
  · exact absurd h not_fails_fault

theorem not_fails_returnTop : returnTop s stack record ≠ .failed (.error e) left := by
  intro h
  rw [returnTop] at h
  split at h
  · exact not_fails_fault h
  · split at h <;> cases h

theorem raises_of_handler {op : Opcode}
    (h : handler apply code constants op s stack record = .failed (.error e) left) :
    apply.Raises e := by
  cases op with
  | pushConst =>
      obtain ⟨v, h⟩ := withConstant_failed h
      exact absurd h not_fails_goOn
  | list =>
      obtain ⟨n, h⟩ := withOperand_failed h
      exact absurd h not_fails_goOn
  | call =>
      obtain ⟨v, h⟩ := withConstant_failed h
      exact raises_of_callConst h
  | runChunk =>
      obtain ⟨v, h⟩ := withConstant_failed h
      cases h
  | ret => exact absurd h not_fails_returnTop

theorem not_fails_capturedHandler {code : List Node} {op : Opcode} :
    capturedHandler code op s stack record ≠ .failed (.error e) left := by
  intro h
  rw [capturedHandler.eq_def] at h
  cases op with
  | pushConst =>
      obtain ⟨n, h⟩ := withCapturedOperand_failed h
      exact not_fails_fault h
  | list =>
      obtain ⟨n, h⟩ := withCapturedOperand_failed h
      exact not_fails_goOn h
  | call => exact not_fails_fault h
  | runChunk => exact not_fails_fault h
  | ret => exact not_fails_returnTop h

theorem Machine.raises_of_step (h : m.step apply = .failed (.error e) left) : apply.Raises e := by
  rw [Machine.step.eq_def] at h
  split at h
  · cases h
  · split at h
    · cases h
    · dsimp only at h
      split at h
      · exact raises_of_handler h
      · exact absurd h not_fails_fault
  · split at h
    · cases h
    · dsimp only at h
      split at h
      · exact absurd h not_fails_capturedHandler
      · exact absurd h not_fails_fault
  · cases h

/-! ## The flat loop -/

theorem Machine.not_fails_passReturn : m.passReturn base below ≠ .failed (.error e) left := by
  intro h
  rw [passReturn] at h
  split at h
  · cases h
  · split at h <;> cases h

theorem Machine.raises_of_passConstant {b : UInt8} {v : Value}
    (h : m.passConstant apply frames b v = .failed (.error e) left) : apply.Raises e := by
  rw [passConstant.eq_def] at h
  split at h
  · cases h
  split at h
  · split at h
    · cases h
    · split at h
      · split at h
        · next hcall =>
          obtain ⟨rfl, -⟩ := Step.failed.inj h
          exact Record.raises_of_call hcall
        · cases h
      · cases h
  · cases h

theorem Machine.raises_of_passChunk
    (h : m.passChunk apply code constants ip base below = .failed (.error e) left) :
    apply.Raises e := by
  rw [passChunk.eq_def] at h
  split at h
  · cases h
  split at h
  · exact absurd h not_fails_passReturn
  split at h
  · cases h
  split at h
  · cases h
  dsimp only at h
  split at h
  · cases h
  split at h
  · cases h
  · exact raises_of_passConstant h

theorem Machine.not_fails_passCaptured {code : List Node} :
    m.passCaptured code ip base below ≠ .failed (.error e) left := by
  intro h
  rw [passCaptured.eq_def] at h
  split at h
  · cases h
  split at h
  · exact not_fails_passReturn h
  · split at h
    · cases h
    · split at h <;> cases h
  · cases h

theorem Machine.raises_of_pass (h : m.pass apply = .failed (.error e) left) : apply.Raises e := by
  rw [pass.eq_def] at h
  split at h
  · cases h
  · exact raises_of_passChunk h
  · exact absurd h not_fails_passCaptured
  · cases h

/-! ## Whole runs -/

namespace Backend

theorem raises_of_backendPass {b : Backend} (h : b.pass apply m = .failed (.error e) left) :
    apply.Raises e := by
  cases b with
  | table => exact Machine.raises_of_step h
  | flat => exact Machine.raises_of_pass h

theorem EndsIn.raises {b : Backend} {n : Nat} {r : Except Failure Value × Record}
    (h : b.EndsIn (fun _ => apply) m n r) (hr : r.1 = .error (.error e)) : apply.Raises e := by
  induction n generalizing m with
  | zero =>
      cases h with
      | returned h => cases hr
      | failed h =>
          obtain rfl := Except.error.inj hr
          exact raises_of_backendPass h
  | succ n ih =>
      cases h with
      | next _ hrest => exact ih hrest

end Backend

theorem raises_of_runOn {b : Backend} {nextMark : Nat} {unit : Value}
    (h : (runOn b apply nextMark unit).1 = .error (.error e)) : apply.Raises e := by
  obtain ⟨n, -, r, hends⟩ :=
    b.exists_endsIn (fun _ => apply) ((Machine.fresh nextMark).enter unit)
  have hrun : runOn b apply nextMark unit = r := by
    rw [← hends.loop_eq fun _ => rfl]
    cases b <;> rfl
  rw [hrun] at h
  exact hends.raises h

end

/-! ## Evaluation -/

theorem not_error_of_prepare (settings : Settings) (backend? : Option Backend) (unit : Value)
    (e : ProgramError) (j : Journal) :
    ((prepare settings backend? unit).run j).1 ≠ .error (.error e) := by
  intro h
  by_cases hlisting : settings.listing = true → ∃ text, unit.listing "" = .ok text
  · obtain ⟨printed, hprepare⟩ := run_prepare_of_listing settings backend? hlisting j
    rw [hprepare] at h
    cases backend? with
    | some b => cases h
    | none =>
        rw [chooseBackend] at h
        cases hbackend : settings.backend with
        | ok b =>
            rw [hbackend] at h
            cases h
        | error f =>
            rw [hbackend] at h
            cases h
  · obtain ⟨hlisting, hunit⟩ := Classical.not_imp.1 hlisting
    cases htext : unit.listing "" with
    | ok text => exact hunit ⟨text, htext⟩
    | error f =>
        obtain ⟨printed, hprepare⟩ := run_prepare_of_error backend? hlisting htext j
        rw [hprepare] at h
        cases h

/-- When evaluating a unit comes to an error of the language, a function has answered with it. -/
theorem raises_of_evaluate {apply : Apply} {settings : Settings} {backend? : Option Backend}
    {unit : Value} {e : ProgramError} {j : Journal}
    (h : ((evaluate apply settings backend? unit).run j).1 = .error (.error e)) :
    apply.Raises e := by
  by_cases hcaptured : ∃ code, unit = .captured code
  · obtain ⟨code, rfl⟩ := hcaptured
    rw [evaluate_captured] at h
    cases h
  · rw [evaluate_of_ne_captured fun code hunit => hcaptured ⟨code, hunit⟩, Tracked.result_bind] at h
    cases hprepare : ((prepare settings backend? unit).run j).1 with
    | error f =>
        rw [hprepare] at h
        obtain rfl : f = .error e := Except.error.inj h
        exact absurd hprepare (not_error_of_prepare _ _ _ _ _)
    | ok b =>
        rw [hprepare] at h
        exact raises_of_runOn h

end FormLang
