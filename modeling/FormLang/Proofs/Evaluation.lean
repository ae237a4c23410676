import FormLang.Proofs.Chunk.Listing
import FormLang.Proofs.Machine.Execution

set_option autoImplicit false

/-! # Evaluating well-formed units

Evaluating a well-formed chunk lists it, if that is asked for, looks for the machine to run it on,
and makes the calls that its outcome makes. Which machine it is makes no difference.
-/

namespace FormLang

/-- Makes calls and forgets them; the marks that were given away are kept. -/
def Calling.perform {α : Type} (x : Calling α) : Action α :=
  Tracked.of fun j =>
    let (result, r) := x.run ⟨[], j.nextMark⟩
    (result, { j with nextMark := r.nextMark })

theorem Calling.run_perform {α : Type} (x : Calling α) (j : Journal) :
    x.perform.run j =
      ((x.run ⟨[], j.nextMark⟩).1, { j with nextMark := (x.run ⟨[], j.nextMark⟩).2.nextMark }) :=
  rfl

/-- The machine that the caller names, or else the settings. -/
def chooseBackend (settings : Settings) : Option Backend → Action Backend
  | some b => pure b
  | none => Action.ofFault settings.backend

/-- What happens before a chunk is run: it is listed, and there has to be a machine. -/
def prepare (settings : Settings) (backend? : Option Backend) (unit : Value) : Action Backend := do
  if settings.listing then printListing unit
  chooseBackend settings backend?

/-- Runs a unit on a machine. All that the journal keeps of the run is the next mark. -/
def runChosen (apply : Apply) (unit : Value) (backend : Backend) : Action Value := do
  let (r, record) := runOn backend apply (← get).nextMark unit
  Action.setNextMark record.nextMark
  Action.ofExcept r

variable {apply : Apply} {settings : Settings} {backend? : Option Backend} {unit : Value}
  {pushable : Value → Prop}

theorem evaluate_captured (code : List Node) :
    evaluate apply settings backend? (.captured code) = pure (.captured code) := by
  rw [evaluate.eq_def]

/-- Any other unit is listed, if that is asked for, and run on the machine that is chosen. -/
theorem evaluate_of_ne_captured (h : ∀ code, unit ≠ .captured code) :
    evaluate apply settings backend? unit = (do
      let backend ← prepare settings backend? unit
      runChosen apply unit backend) := by
  rw [evaluate.eq_def]
  split
  · next code => exact absurd rfl (h code)
  · -- What is left to compare is how the machine is chosen, with and without a listing.
    simp only [prepare]
    split <;> cases backend? <;> simp [chooseBackend, runChosen]

theorem run_runChosen (apply : Apply) (unit : Value) (backend : Backend) (j : Journal) :
    (runChosen apply unit backend).run j =
      ((runOn backend apply j.nextMark unit).1,
        { j with nextMark := (runOn backend apply j.nextMark unit).2.nextMark }) := rfl

/-- Running a well-formed unit on either machine performs its outcome. -/
theorem runChosen_eq_perform (apply : Apply) (h : unit.WellFormed pushable) (backend : Backend) :
    runChosen apply unit backend = (unit.outcome apply).perform := by
  refine Tracked.ext fun j => ?_
  rw [run_runChosen, h.runOn_eq]
  rfl

theorem evaluate_of_wellFormed (h : unit.WellFormed pushable) :
    evaluate apply settings backend? unit = (do
      let _ ← prepare settings backend? unit
      (unit.outcome apply).perform) := by
  have hrun := runChosen_eq_perform apply h
  cases h with
  | chunk is h hnested =>
      rw [evaluate_of_ne_captured (by simp)]
      simp only [hrun]

/-! ## Nothing goes wrong beforehand -/

/-- Do the caller or the settings name a machine? -/
def Settings.Choose (settings : Settings) (backend? : Option Backend) (b : Backend) : Prop :=
  backend? = some b ∨ backend? = Option.none ∧ settings.backend = .ok b

/-- Which machine it is, or that there is none, is known from the start. -/
theorem run_chooseBackend_eq (settings : Settings) (backend? : Option Backend) :
    ∃ r, ∀ j, (chooseBackend settings backend?).run j = (r, j) := by
  cases backend? with
  | none => exact ⟨_, fun _ => rfl⟩
  | some b => exact ⟨_, fun _ => rfl⟩

theorem run_chooseBackend {b : Backend} (hb : settings.Choose backend? b) (j : Journal) :
    (chooseBackend settings backend?).run j = (.ok b, j) := by
  rcases hb with rfl | ⟨rfl, hb⟩
  · rfl
  · rw [chooseBackend, hb]
    rfl

theorem run_printListing_of_ok {text : String} (h : unit.listing "" = .ok text) (j : Journal) :
    ∃ printed, (printListing unit).run j = (.ok (), { j with printed := printed }) := by
  rw [printListing, h]
  exact ⟨_, rfl⟩

theorem run_printListing_of_error {f : Fault} (h : unit.listing "" = .error f) (j : Journal) :
    ∃ printed, (printListing unit).run j = (.error (.fault f), { j with printed := printed }) := by
  rw [printListing, h]
  exact ⟨_, rfl⟩

/-- When the unit can be listed, or need not, all that comes before the run is a matter of the
machine, apart from what is printed. -/
theorem run_prepare_of_listing (settings : Settings) (backend? : Option Backend)
    (hunit : settings.listing = true → ∃ text, unit.listing "" = .ok text) (j : Journal) :
    ∃ printed, (prepare settings backend? unit).run j =
      (chooseBackend settings backend?).run { j with printed := printed } := by
  by_cases hlisting : settings.listing = true
  · obtain ⟨text, htext⟩ := hunit hlisting
    obtain ⟨printed, hprint⟩ := run_printListing_of_ok htext j
    refine ⟨printed, ?_⟩
    rw [prepare, if_pos hlisting, Tracked.run_bind_of_ok hprint]
  · refine ⟨j.printed, ?_⟩
    rw [prepare, if_neg hlisting]

/-- A unit that should be listed and cannot be is not run. -/
theorem run_prepare_of_error (backend? : Option Backend) (hlisting : settings.listing = true)
    {f : Fault} (hunit : unit.listing "" = .error f) (j : Journal) :
    ∃ printed, (prepare settings backend? unit).run j =
      (.error (.fault f), { j with printed := printed }) := by
  obtain ⟨printed, hprint⟩ := run_printListing_of_error hunit j
  refine ⟨printed, ?_⟩
  rw [prepare, if_pos hlisting, Tracked.run_bind_of_error hprint]

/-- When the machine is known and the unit can be listed, or need not, nothing goes wrong before it
is run, and no mark is given away. -/
theorem run_prepare {b : Backend} (hb : settings.Choose backend? b)
    (hunit : settings.listing = true → ∃ text, unit.listing "" = .ok text) (j : Journal) :
    ∃ j', (prepare settings backend? unit).run j = (.ok b, j') ∧ j'.nextMark = j.nextMark := by
  obtain ⟨printed, hprepare⟩ := run_prepare_of_listing settings backend? hunit j
  exact ⟨_, hprepare.trans (run_chooseBackend hb _), rfl⟩

/-- A well-formed unit that can be listed, or need not, is evaluated to its outcome, on whatever
machine. -/
theorem run_evaluate {b : Backend} (h : unit.WellFormed pushable)
    (hunit : settings.listing = true → ∃ text, unit.listing "" = .ok text)
    (hb : settings.Choose backend? b) (j : Journal) :
    ∃ j', (evaluate apply settings backend? unit).run j =
        (((unit.outcome apply).run ⟨[], j.nextMark⟩).1, j') ∧
      j'.nextMark = ((unit.outcome apply).run ⟨[], j.nextMark⟩).2.nextMark := by
  obtain ⟨j₁, hprepare, hmark⟩ := run_prepare hb hunit j
  rw [evaluate_of_wellFormed h, Tracked.run_bind_of_ok hprepare, Calling.run_perform, hmark]
  exact ⟨_, rfl, rfl⟩

/-- Units that come to the same, and whose listings fail alike if they fail, are evaluated to the
same. -/
theorem result_evaluate_congr {unit' : Value} {pushable' : Value → Prop} {j k : Journal}
    (h : unit.WellFormed pushable) (h' : unit'.WellFormed pushable')
    (hlisting : SameFailure (unit.listing "") (unit'.listing ""))
    (houtcome : ∀ r, ((unit.outcome apply).run r).1 = ((unit'.outcome apply).run r).1)
    (hmark : j.nextMark = k.nextMark) :
    ((evaluate apply settings backend? unit).run j).1 =
      ((evaluate apply settings backend? unit').run k).1 := by
  rw [evaluate_of_wellFormed h, evaluate_of_wellFormed h']
  by_cases hfails : settings.listing = true ∧ ∃ f, unit.listing "" = .error f
  · obtain ⟨hon, f, hf⟩ := hfails
    obtain ⟨_, hj⟩ := run_prepare_of_error backend? hon hf j
    obtain ⟨_, hk⟩ := run_prepare_of_error backend? hon (hlisting.error_iff.1 hf) k
    rw [Tracked.run_bind_of_error hj, Tracked.run_bind_of_error hk]
  · have hunit : settings.listing = true → ∃ text, unit.listing "" = .ok text := by
      intro hon
      cases hr : unit.listing "" with
      | error f => exact absurd ⟨hon, f, hr⟩ hfails
      | ok text => exact ⟨text, rfl⟩
    have hunit' : settings.listing = true → ∃ text, unit'.listing "" = .ok text := fun hon =>
      hlisting.exists_ok (hunit hon)
    obtain ⟨_, hj⟩ := run_prepare_of_listing settings backend? hunit j
    obtain ⟨_, hk⟩ := run_prepare_of_listing settings backend? hunit' k
    obtain ⟨r, hr⟩ := run_chooseBackend_eq settings backend?
    rw [Tracked.result_bind, Tracked.result_bind, hj, hk, hr, hr]
    -- The machine is the same, and does not matter any more.
    cases r with
    | error f => rfl
    | ok b =>
        show ((unit.outcome apply).run ⟨[], j.nextMark⟩).1 =
          ((unit'.outcome apply).run ⟨[], k.nextMark⟩).1
        rw [hmark, houtcome]

end FormLang
