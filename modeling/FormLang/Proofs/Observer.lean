import FormLang.Proofs.Compile.Congruence
import FormLang.Proofs.Interpreter
import FormLang.Proofs.Reader.Stopping

set_option autoImplicit false

/-! # What an observer is shown

An observer is called when a stage of a run has come to something, and the run goes on with what it
leaves of that. What it is called with and what the run comes to is said from what reading,
compiling, running the unit and the observer itself come to (`CompileContext.Shows`). This is how
every run goes whose observer does not stop it, and an observer that leaves everything alone makes
no difference to a run (`shows_of_attends`): compiling and running see no more of the journal than
the next mark (`Action.Matches`).
-/

namespace FormLang

/-! ## Actions that see no more than the next mark -/

namespace Action

variable {α : Type}

/-- From journals that are alike, in whatever way, two actions do the same. -/
def Matches (x y : Action α) : Prop :=
  ∀ R, Likeness R → Tracked.Agree R (fun _ => True) (fun _ => True) x y

theorem agree_catchError {R : Journal → Journal → Prop} {x y : Action α}
    (h : Tracked.Agree R (fun _ => True) (fun _ => True) x y) :
    Tracked.Agree R (fun _ => True) (fun _ => True) (catchError x) (catchError y) := by
  intro j k hjk
  obtain ⟨hresult, hR, -⟩ := h j k hjk
  rw [run_catchError, run_catchError]
  rcases hx : x.run j with ⟨(e | f | s) | a, j'⟩ <;> rcases hy : y.run k with ⟨r, k'⟩ <;>
    rw [hx] at hresult hR <;> rw [hy] at hresult hR <;> cases hresult <;>
    exact ⟨rfl, hR, trivial⟩

theorem matches_printListing (unit : Value) : Matches (printListing unit) (printListing unit) := by
  intro R hR
  refine (agree_printLine hR _).bind fun _ _ => ?_
  refine (agree_ofExcept (ensures_true _)).bind fun _ _ => ?_
  exact (agree_printLine hR _).bind fun _ _ => agree_printLine hR _

theorem matches_prepare (settings : Settings) (backend? : Option Backend) (unit : Value) :
    Matches (prepare settings backend? unit) (prepare settings backend? unit) := by
  intro R hR
  have hbackend : Tracked.Agree R (fun _ => True) (fun _ => True)
      (chooseBackend settings backend?) (chooseBackend settings backend?) := by
    cases backend? with
    | some b => exact Tracked.agree_pure trivial
    | none => exact agree_ofExcept (ensures_true _)
  rw [prepare]
  split
  · exact (matches_printListing unit R hR).bind fun _ _ => hbackend
  · exact hbackend

/-- A run looks up the next mark, and leaves another one behind. -/
theorem matches_runChosen (apply : Apply) (unit : Value) (backend : Backend) :
    Matches (runChosen apply unit backend) (runChosen apply unit backend) := by
  intro R hR j k hjk
  rw [run_runChosen, run_runChosen, hR.nextMark hjk]
  exact ⟨rfl, hR.marked _ hjk, ensures_true _⟩

theorem matches_evaluate (apply : Apply) (settings : Settings) (backend? : Option Backend)
    (unit : Value) :
    Matches (evaluate apply settings backend? unit) (evaluate apply settings backend? unit) := by
  intro R hR
  by_cases hcaptured : ∃ code, unit = .captured code
  · obtain ⟨code, rfl⟩ := hcaptured
    rw [evaluate_captured]
    exact Tracked.agree_pure trivial
  · rw [evaluate_of_ne_captured (by simpa using hcaptured)]
    exact (matches_prepare settings backend? unit R hR).bind fun b _ =>
      matches_runChosen apply unit b R hR

theorem congruence_matches : Congruence fun _ => Matches where
  pure _ := fun _ _ => Tracked.agree_pure trivial
  throw _ := fun _ _ => Tracked.agree_throw trivial
  request r := fun _ hR => agree_request hR r
  evaluate := matches_evaluate
  bind h hg := fun R hR => (h R hR).bind fun a _ => hg a R hR

/-- Behind another journal with the same next mark, an action does the same, and notes nothing. -/
theorem Matches.run_beside {x : Action α} {r : Except Failure α} {j j' k : Journal}
    (h : Matches x x) (hmark : j.SameMark k) (hrun : x.run j = (r, j')) :
    ∃ k', x.run k = (r, k') ∧ j'.SameMark k' ∧ k'.noted = k.noted := by
  let R : Journal → Journal → Prop := fun j₁ k₁ => j₁.SameMark k₁ ∧ k₁.noted = k.noted
  have hR : Likeness R :=
    { nextMark := fun h => h.1
      requested := fun _ h => h
      printed := fun _ h => h
      marked := fun _ h => ⟨rfl, h.2⟩ }
  obtain ⟨hresult, hbeside, -⟩ := h R hR j k ⟨hmark, rfl⟩
  rw [hrun] at hresult hbeside
  exact ⟨(x.run k).2, Prod.ext hresult rfl, hbeside⟩

end Action

namespace CompileContext

open FormLang.Action

theorem matches_runBody (ctx : CompileContext) (depth : Nat) (code : List Node) :
    Matches (ctx.runBody depth code) (ctx.runBody depth code) := by
  induction depth generalizing code with
  | zero => exact congruence_matches.throw _
  | succ depth ih =>
      rw [runBody_succ]
      exact congr_runOnce congruence_matches ih code

theorem matches_run (ctx : CompileContext) (unit : Compiled) :
    Matches (ctx.run unit) (ctx.run unit) := matches_evaluate _ _ _ _

end CompileContext

theorem matches_compile (ctx : CompileContext) (n : Node) :
    Action.Matches (compile ctx n) (compile ctx n) := fun R hR =>
  Action.agree_catchError (CompileContext.congr_node Action.congruence_matches
    (ctx.matches_runBody (ctx.depthFor n)) n R hR)

/-! ## Observers -/

namespace Observer

/-- An observer does not stop a run. What it leaves of all that it is shown is its own business. -/
def Attends (o : Observer) : Prop :=
  ∀ s label found j, ∃ left j', (o s label found).run j = (.ok left, j')

/-- An observer does not stop a run and leaves all that it is shown as it is. It takes no marks from
the run either: the undefined numbers that it may compute for itself never meet those of the
program. What else it does is its own business. -/
def LeavesAlone (o : Observer) : Prop :=
  ∀ s label found j, ∃ j', (o s label found).run j = (.ok found, j') ∧ j.SameMark j'

/-- An observer while a record is kept of all that is shown to it, in the place of its own notes. -/
def onRecord (o : Observer) : Observer := fun s label found => Tracked.of fun j =>
  (((o s label found).run j).1,
    { ((o s label found).run j).2 with noted := (label, .of s found.1) :: j.noted })

variable {o : Observer}

theorem LeavesAlone.attends (ho : o.LeavesAlone) : o.Attends := fun s label found j =>
  let ⟨j', hrun, _⟩ := ho s label found j
  ⟨found, j', hrun⟩

theorem Attends.onRecord (ho : o.Attends) : o.onRecord.Attends := fun s label found j => by
  obtain ⟨left, j', hrun⟩ := ho s label found j
  exact ⟨left, _, by rw [Observer.onRecord, Tracked.run_of, hrun]⟩

theorem LeavesAlone.onRecord (ho : o.LeavesAlone) : o.onRecord.LeavesAlone := by
  intro s label found j
  obtain ⟨j', hrun, hmark⟩ := ho s label found j
  refine ⟨{ j' with noted := (label, .of s found.1) :: j.noted }, ?_, hmark⟩
  rw [Observer.onRecord, Tracked.run_of, hrun]

theorem LeavesAlone.eq_of_run (ho : o.LeavesAlone) {s : Stage} {label : String}
    {found left : s.Product × CompileContext} {j k : Journal}
    (h : (o s label found).run j = (.ok left, k)) : left = found ∧ j.SameMark k := by
  obtain ⟨j', hrun, hmark⟩ := ho s label found j
  rw [hrun] at h
  cases h
  exact ⟨rfl, hmark⟩

/-- What is on record is what the observer was called with. -/
theorem noted_of_run_onRecord {s : Stage} {label : String}
    {found left : s.Product × CompileContext} {j k : Journal}
    (h : (o.onRecord s label found).run j = (.ok left, k)) :
    k.noted = (label, .of s found.1) :: j.noted := by
  rw [Observer.onRecord, Tracked.run_of] at h
  obtain rfl := congrArg Prod.snd h
  rfl

end Observer

/-! ## What is shown -/

namespace CompileContext

/-- What an observer is called with one after the other, each time with a label, what the run comes
to in the end, and the journal that it leaves. An error of the language is the result, wherever it
comes up. Any other failure ends the run at once, and no result is shown. What the observer leaves of
the result is what the run comes to. -/
inductive Shows (ctx : CompileContext) (o : Observer) (source : String) (j : Journal) :
    List (String × Artifact) → Except Failure Outcome → Journal → Prop where
  | unread {e : ProgramError} {left : Outcome} {rest : CompileContext} {k : Journal}
      (hread : read source = .error (.error e))
      (hresult : (o .result "result" (Outcome.error e, ctx)).run j = (.ok (left, rest), k)) :
      Shows ctx o source j [("result", .result (.error e))] (.ok left) k
  | readFails {f : Failure} (hread : read source = .error f) (hf : ∀ e, f ≠ .error e) :
      Shows ctx o source j [] (.error f) j
  | rejected {n n' : Node} {ctx' rest : CompileContext} {e : ProgramError} {left : Outcome}
      {j₁ j₂ k : Journal} (hread : read source = .ok n)
      (hcode : (o .code "code" (n, ctx)).run j = (.ok (n', ctx'), j₁))
      (hcompile : (compile ctx' n').run j₁ = (.ok (.error e), j₂))
      (hresult : (o .result "result" (Outcome.error e, ctx)).run j₂ = (.ok (left, rest), k)) :
      Shows ctx o source j [("code", .code n), ("result", .result (.error e))] (.ok left) k
  | compileFails {n n' : Node} {ctx' : CompileContext} {f : Failure} {j₁ k : Journal}
      (hread : read source = .ok n)
      (hcode : (o .code "code" (n, ctx)).run j = (.ok (n', ctx'), j₁))
      (hcompile : (compile ctx' n').run j₁ = (.error f, k)) (hf : ∀ e, f ≠ .error e) :
      Shows ctx o source j [("code", .code n)] (.error f) k
  | evaluated {n n' : Node} {ctx' ctx'' rest : CompileContext} {unit unit' : Compiled}
      {r : Except Failure Value} {outcome left : Outcome} {j₁ j₂ j₃ j₄ k : Journal}
      (hread : read source = .ok n)
      (hcode : (o .code "code" (n, ctx)).run j = (.ok (n', ctx'), j₁))
      (hcompile : (compile ctx' n').run j₁ = (.ok (.ok unit), j₂))
      (hunit : (o .unit "unit" (unit, ctx')).run j₂ = (.ok (unit', ctx''), j₃))
      (hrun : (ctx''.run unit').run j₃ = (r, j₄)) (hsettled : settled r = .ok outcome)
      (hresult : (o .result "result" (outcome, ctx)).run j₄ = (.ok (left, rest), k)) :
      Shows ctx o source j [("code", .code n), ("unit", .unit unit), ("result", .result outcome)]
        (.ok left) k
  | runFails {n n' : Node} {ctx' ctx'' : CompileContext} {unit unit' : Compiled} {f : Failure}
      {j₁ j₂ j₃ k : Journal} (hread : read source = .ok n)
      (hcode : (o .code "code" (n, ctx)).run j = (.ok (n', ctx'), j₁))
      (hcompile : (compile ctx' n').run j₁ = (.ok (.ok unit), j₂))
      (hunit : (o .unit "unit" (unit, ctx')).run j₂ = (.ok (unit', ctx''), j₃))
      (hrun : (ctx''.run unit').run j₃ = (.error f, k)) (hf : ∀ e, f ≠ .error e) :
      Shows ctx o source j [("code", .code n), ("unit", .unit unit)] (.error f) k

variable {ctx : CompileContext} {o : Observer} {source : String} {j k k' : Journal}
  {seen seen' : List (String × Artifact)} {r r' : Except Failure Outcome}

/-- The compiler has errors of the language as its results. -/
theorem ne_error_of_compile {n : Node} {f : Failure}
    (h : (compile ctx n).run j = (.error f, k)) : ∀ e, f ≠ .error e := by
  rintro e rfl
  rw [compile, Action.run_catchError] at h
  split at h
  · cases h
  · cases h
  · next hne _ =>
    cases h
    exact hne e rfl

namespace Shows

/-- Once the code was shown, what comes next is up to the compiler. -/
theorem exists_of_code (ho : o.Attends) {n n' : Node} {ctx' : CompileContext} {j₁ : Journal}
    (hread : read source = .ok n)
    (hcode : (o .code "code" (n, ctx)).run j = (.ok (n', ctx'), j₁)) :
    ∃ seen r k, ctx.Shows o source j seen r k := by
  rcases hcompile : (compile ctx' n').run j₁ with ⟨f | e | unit, j₂⟩
  · exact ⟨_, _, _, .compileFails hread hcode hcompile (ne_error_of_compile hcompile)⟩
  · obtain ⟨⟨left, rest⟩, k, hresult⟩ := ho .result "result" (Outcome.error e, ctx) j₂
    exact ⟨_, _, _, .rejected hread hcode hcompile hresult⟩
  · obtain ⟨⟨unit', ctx''⟩, j₃, hunit⟩ := ho .unit "unit" (unit, ctx') j₂
    rcases hrun : (ctx''.run unit').run j₃ with ⟨r, j₄⟩
    cases hsettled : settled r with
    | ok outcome =>
        obtain ⟨⟨left, rest⟩, k, hresult⟩ := ho .result "result" (outcome, ctx) j₄
        exact ⟨_, _, _, .evaluated hread hcode hcompile hunit hrun hsettled hresult⟩
    | error f =>
        rcases r with (e | f | s) | v <;> cases hsettled
        · exact ⟨_, _, _, .runFails hread hcode hcompile hunit hrun (by simp)⟩
        · exact ⟨_, _, _, .runFails hread hcode hcompile hunit hrun (by simp)⟩

/-- Something is shown to every observer that does not stop the run. -/
theorem exists_of_attends (ctx : CompileContext) (source : String) (ho : o.Attends)
    (j : Journal) : ∃ seen r k, ctx.Shows o source j seen r k := by
  cases hread : read source with
  | error f =>
      by_cases hf : ∀ e, f ≠ .error e
      · exact ⟨_, _, _, .readFails hread hf⟩
      · obtain ⟨e, rfl⟩ : ∃ e, f = .error e := by simpa using hf
        obtain ⟨⟨left, rest⟩, k, hresult⟩ := ho .result "result" (Outcome.error e, ctx) j
        exact ⟨_, _, _, .unread hread hresult⟩
  | ok n =>
      obtain ⟨⟨n', ctx'⟩, j₁, hcode⟩ := ho .code "code" (n, ctx) j
      exact exists_of_code ho hread hcode

/-- When the stages have come to an outcome, it is shown last. -/
theorem run_eq_of_result {outcome left : Outcome} {rest : CompileContext}
    {s : Except Failure Outcome} (hstages : (ctx.runStages o source).run j = (s, k'))
    (hs : caught s = .ok outcome)
    (hresult : (o .result "result" (outcome, ctx)).run k' = (.ok (left, rest), k)) :
    (ctx.runProgram o source).run j = (.ok left, k) := by
  rw [run_runProgram_of_runStages hstages, hs]
  exact Tracked.run_bind_of_ok hresult

/-- A failure that is no error of the language goes through. -/
theorem run_eq_of_cut {f : Failure} (hf : ∀ e, f ≠ .error e)
    (hstages : (ctx.runStages o source).run j = (.error f, k)) :
    (ctx.runProgram o source).run j = (.error f, k) := by
  rw [run_runProgram_of_runStages hstages]
  cases f with
  | error e => exact absurd rfl (hf e)
  | _ => rfl

/-- The run goes on as is shown. -/
theorem run_eq (h : ctx.Shows o source j seen r k) :
    (ctx.runProgram o source).run j = (r, k) := by
  cases h with
  | unread hread hresult => exact run_eq_of_result (run_runStages_of_unread hread j) rfl hresult
  | readFails hread hf => exact run_eq_of_cut hf (run_runStages_of_unread hread j)
  | rejected hread hcode hcompile hresult =>
      exact run_eq_of_result (run_runStages_of_error hread hcode hcompile) rfl hresult
  | compileFails hread hcode hcompile hf =>
      exact run_eq_of_cut hf (run_runStages_of_fault hread hcode hcompile)
  | @evaluated _ _ _ _ _ _ _ s outcome _ _ _ _ _ _ hread hcode hcompile hunit hrun hsettled
      hresult =>
      have hstages := run_runStages_of_unit hread hcode hcompile hunit
      rcases s with f | v
      · rw [Tracked.run_bind_of_error hrun] at hstages
        refine run_eq_of_result hstages ?_ hresult
        cases f <;> exact hsettled
      · rw [Tracked.run_bind_of_ok hrun] at hstages
        exact run_eq_of_result hstages hsettled hresult
  | runFails hread hcode hcompile hunit hrun hf =>
      have hstages := run_runStages_of_unit hread hcode hcompile hunit
      rw [Tracked.run_bind_of_error hrun] at hstages
      exact run_eq_of_cut hf hstages

/-- No error of the language escapes. -/
theorem ne_error (h : ctx.Shows o source j seen r k) : ∀ e, r ≠ .error (.error e) := by
  intro e
  cases h with
  | readFails _ hf => simpa using hf e
  | compileFails _ _ _ hf => simpa using hf e
  | runFails _ _ _ _ _ hf => simpa using hf e
  | _ => simp

/-- Compiling and running note nothing. -/
theorem noted_eq {α : Type} {x : Action α} {s : Except Failure α} (hx : x.Matches x)
    (hrun : x.run j = (s, k)) : k.noted = j.noted := by
  obtain ⟨k', hsame, -, hnoted⟩ := hx.run_beside rfl hrun
  rw [hrun] at hsame
  obtain rfl : k = k' := congrArg Prod.snd hsame
  exact hnoted

/-- An observer on record has on record what is shown. -/
theorem noted_onRecord (h : ctx.Shows o.onRecord source j seen r k) :
    k.noted = seen.reverse ++ j.noted := by
  cases h with
  | unread _ hresult => exact Observer.noted_of_run_onRecord hresult
  | readFails => rfl
  | rejected _ hcode hcompile hresult =>
      rw [Observer.noted_of_run_onRecord hresult, noted_eq (matches_compile _ _) hcompile,
        Observer.noted_of_run_onRecord hcode]
      rfl
  | compileFails _ hcode hcompile =>
      rw [noted_eq (matches_compile _ _) hcompile, Observer.noted_of_run_onRecord hcode]
      rfl
  | evaluated _ hcode hcompile hunit hrun _ hresult =>
      rw [Observer.noted_of_run_onRecord hresult, noted_eq (matches_run _ _) hrun,
        Observer.noted_of_run_onRecord hunit, noted_eq (matches_compile _ _) hcompile,
        Observer.noted_of_run_onRecord hcode]
      rfl
  | runFails _ hcode hcompile hunit hrun =>
      rw [noted_eq (matches_run _ _) hrun, Observer.noted_of_run_onRecord hunit,
        noted_eq (matches_compile _ _) hcompile, Observer.noted_of_run_onRecord hcode]
      rfl

/-- An observer that leaves everything alone is shown what one who looks away would be shown, and the
run comes to the same. -/
theorem silent (h : ctx.Shows o source j seen r k) (ho : o.LeavesAlone) :
    ∃ k', ctx.Shows .silent source j seen r k' := by
  cases h with
  | unread hread hresult =>
      obtain ⟨⟨⟩, -⟩ := ho.eq_of_run hresult
      exact ⟨_, .unread hread rfl⟩
  | readFails hread hf => exact ⟨_, .readFails hread hf⟩
  | rejected hread hcode hcompile hresult =>
      obtain ⟨⟨⟩, hmark⟩ := ho.eq_of_run hcode
      obtain ⟨⟨⟩, -⟩ := ho.eq_of_run hresult
      obtain ⟨_, hcompiled, -⟩ := (matches_compile _ _).run_beside hmark.symm hcompile
      exact ⟨_, .rejected hread rfl hcompiled rfl⟩
  | compileFails hread hcode hcompile hf =>
      obtain ⟨⟨⟩, hmark⟩ := ho.eq_of_run hcode
      obtain ⟨_, hcompiled, -⟩ := (matches_compile _ _).run_beside hmark.symm hcompile
      exact ⟨_, .compileFails hread rfl hcompiled hf⟩
  | evaluated hread hcode hcompile hunit hrun hsettled hresult =>
      obtain ⟨⟨⟩, hmark⟩ := ho.eq_of_run hcode
      obtain ⟨⟨⟩, hmark'⟩ := ho.eq_of_run hunit
      obtain ⟨⟨⟩, -⟩ := ho.eq_of_run hresult
      obtain ⟨_, hcompiled, hbeside, -⟩ := (matches_compile _ _).run_beside hmark.symm hcompile
      obtain ⟨_, hevaluated, -⟩ :=
        (matches_run _ _).run_beside (hmark'.symm.trans hbeside) hrun
      exact ⟨_, .evaluated hread rfl hcompiled rfl hevaluated hsettled rfl⟩
  | runFails hread hcode hcompile hunit hrun hf =>
      obtain ⟨⟨⟩, hmark⟩ := ho.eq_of_run hcode
      obtain ⟨⟨⟩, hmark'⟩ := ho.eq_of_run hunit
      obtain ⟨_, hcompiled, hbeside, -⟩ := (matches_compile _ _).run_beside hmark.symm hcompile
      obtain ⟨_, hevaluated, -⟩ :=
        (matches_run _ _).run_beside (hmark'.symm.trans hbeside) hrun
      exact ⟨_, .runFails hread rfl hcompiled rfl hevaluated hf⟩

end Shows

/-- Whatever observers leave alone, a run in front of them comes to one and the same. -/
theorem result_of_leavesAlone (ho : o.LeavesAlone) (h : ctx.Shows .silent source j seen r k) :
    ((ctx.runProgram o source).run j).1 = r := by
  obtain ⟨seen', r', k', hshows⟩ := Shows.exists_of_attends ctx source ho.attends j
  obtain ⟨k'', hsilent⟩ := hshows.silent ho
  rw [hshows.run_eq]
  exact congrArg Prod.fst (hsilent.run_eq.symm.trans h.run_eq)

end CompileContext

/-- An observer that does not stop a run is called with the program, the unit and the result, as far
as the run gets, each with its label, and the run goes on with what it leaves of them; no error of the
language escapes. So it is while a record is kept, and what is on record is what is shown. An observer
that leaves everything alone is shown what reading, compiling and running come to when nobody looks,
and the result is what the run comes to then. -/
theorem shows_of_attends (ctx : CompileContext) (source : String) {o : Observer} (ho : o.Attends)
    (j : Journal) :
    (∃ seen r k, ctx.Shows o source j seen r k ∧ (∀ e, r ≠ .error (.error e)) ∧
      (ctx.runTraced (some ⟨o, true⟩) source).run j = (r, k)) ∧
    (∃ seen r k, ctx.Shows o.onRecord source j seen r k ∧
      (ctx.runTraced (some ⟨o.onRecord, true⟩) source).run j = (r, k) ∧
      k.shown = j.shown ++ seen) ∧
    (o.LeavesAlone → ∃ seen r k k', ctx.Shows .silent source j seen r k ∧
      (∀ e, r ≠ .error (.error e)) ∧
      (ctx.runTraced none source).run j = (r, k) ∧
      ((ctx.runTraced (some ⟨o, true⟩) source).run j).1 = r ∧
      (ctx.runTraced (some ⟨o.onRecord, true⟩) source).run j = (r, k') ∧
      k'.shown = j.shown ++ seen) := by
  obtain ⟨seen, r, k, hshows⟩ := CompileContext.Shows.exists_of_attends ctx source ho j
  obtain ⟨seen', r', k', hrecord⟩ :=
    CompileContext.Shows.exists_of_attends ctx source ho.onRecord j
  have hshown : k'.shown = j.shown ++ seen' := by
    rw [Journal.shown, hrecord.noted_onRecord, Journal.shown]
    simp
  refine ⟨⟨seen, r, k, hshows, hshows.ne_error, hshows.run_eq⟩,
    ⟨seen', r', k', hrecord, hrecord.run_eq, hshown⟩, fun halone => ?_⟩
  obtain ⟨k'', hsilent⟩ := hrecord.silent halone.onRecord
  exact ⟨seen', r', k'', k', hsilent, hsilent.ne_error, hsilent.run_eq,
    CompileContext.result_of_leavesAlone halone hsilent, hrecord.run_eq, hshown⟩

/-- A call that cannot be resolved is shown as a program and then as an error, while the observer
prints the labels. -/
theorem shows_of_attends_unresolved :
    let ctx : CompileContext := ⟨.ok (.ofExports "m" ["f"]), "m", fun _ v => .ok v, .none, 0⟩
    let o : Observer := fun _ label found => do
      Action.printLine label
      return found
    let e : ProgramError := .unresolvedCall "symbol" "g" 1 0 "()"
    o.Attends ∧ o.LeavesAlone ∧ ∃ n k,
      (ctx.runTraced (some ⟨o.onRecord, true⟩) "(g)").run (.blank 0) = (.ok (.error e), k) ∧
      k.shown = [("code", .code n), ("result", .result (.error e))] := by
  intro ctx o e
  have halone : o.LeavesAlone := fun s label found j => ⟨_, rfl, rfl⟩
  have hread : read "(g)" = .ok (.form .fixed [.symbol 1 "g"]) := by cbv
  obtain ⟨-, -, hleft⟩ := shows_of_attends ctx "(g)" halone.attends (.blank 0)
  obtain ⟨seen, r, k, k', hshows, -, hsilent, -, hrun, hshown⟩ := hleft halone
  refine ⟨halone.attends, halone, .form .fixed [.symbol 1 "g"], k', ?_⟩
  -- Of all that can be shown, the text and the compiler leave one case.
  cases hshows with
  | rejected hread' hcode hcompile hresult =>
      rw [hread] at hread'
      cases hread'
      cases hcode
      cases hcompile
      cases hresult
      exact ⟨hrun, hshown⟩
  | compileFails hread' hcode hcompile | evaluated hread' hcode hcompile
  | runFails hread' hcode hcompile =>
      rw [hread] at hread'
      cases hread'
      cases hcode
      cases hcompile
  | unread hread' | readFails hread' =>
      rw [hread] at hread'
      cases hread'

/-- The observer who writes a value over all constants of the unit that is shown to him. -/
def Observer.overwriting (v : Value) : Observer
  | .unit, _, (.chunk c, ctx) =>
    pure (Compiled.chunk { c with constants := c.constants.map fun _ => v }, ctx)
  | _, _, found => pure found

/-- An observer that does not stop a run can change what it comes to. One that does not count as true
is called with nothing. And when a text has too many digits, reading it fails, but not with an error
of the language, and no result is shown. -/
theorem changed_by_overwriting :
    let ctx : CompileContext := ⟨.ok (.ofExports "m" []), "m", fun _ v => .ok v, .none, 0⟩
    let o : Observer := .overwriting (.number (.int 99))
    let digits : String := .ofList (List.replicate (digitLimit + 1) '1')
    o.Attends ∧
      ((ctx.runTraced none "7").run (.blank 0)).1 = .ok (.value (.number (.int 7))) ∧
      ((ctx.runTraced (some ⟨o, true⟩) "7").run (.blank 0)).1 =
        .ok (.value (.number (.int 99))) ∧
      ((ctx.runTraced (some ⟨.recording, false⟩) "7").run (.blank 0)).2.shown = [] ∧
      (ctx.runTraced (some ⟨.recording, true⟩) digits).run (.blank 0) =
        (.error (.fault (.literalDigits 4301)), .blank 0) := by
  intro ctx o digits
  have hattends : o.Attends := by
    intro s label found j
    show ∃ left j', (Observer.overwriting _ s label found).run j = (.ok left, j')
    rw [Observer.overwriting.eq_def]
    split <;> exact ⟨_, _, rfl⟩
  have hread : read "7" = .ok (.number 1 (.int 7)) := by cbv
  have hdigits : read digits = .error (.fault (.literalDigits 4301)) := by
    have hall : ∀ c ∈ List.replicate (digitLimit + 1) '1', c.isDigit = true := by
      intro c hc
      rw [List.eq_of_mem_replicate hc]
      rfl
    have hlength : (List.replicate (digitLimit + 1) '1').length = 4301 := List.length_replicate
    rw [read_digits hall (by rw [hlength]; decide), hlength]
  -- The code of a literal is the same for all of them.
  let unit (k : Int) : Compiled :=
    .chunk ⟨#[Opcode.pushConst.byte, 0, 0, Opcode.ret.byte], [.number (.int k)]⟩
  have hcompile : (compile ctx (.number 1 (.int 7))).run (.blank 0) =
      (.ok (.ok (unit 7)), .blank 0) := rfl
  have hrun7 : (ctx.run (unit 7)).run (.blank 0) = (.ok (.number (.int 7)), .blank 0) := by
    unfold unit ctx
    cbv
  have hrun99 : (ctx.run (unit 99)).run (.blank 0) =
      (.ok (.number (.int 99)), .blank 0) := by
    unfold unit ctx
    cbv
  have hsilent : (ctx.runTraced none "7").run (.blank 0) =
      (.ok (.value (.number (.int 7))), .blank 0) :=
    CompileContext.Shows.run_eq (.evaluated hread rfl hcompile rfl hrun7 rfl rfl)
  have hwritten : (ctx.runTraced (some ⟨o, true⟩) "7").run (.blank 0) =
      (.ok (.value (.number (.int 99))), .blank 0) :=
    CompileContext.Shows.run_eq (.evaluated hread rfl hcompile rfl hrun99 rfl rfl)
  refine ⟨hattends, congrArg Prod.fst hsilent, congrArg Prod.fst hwritten,
    congrArg (fun p => p.2.shown) hsilent, ?_⟩
  exact (CompileContext.Shows.readFails hdigits (by simp)).run_eq

end FormLang
