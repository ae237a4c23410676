import FormLang.Proofs.Compile.Agreement
import FormLang.Proofs.Chunk.Sharing
import FormLang.Proofs.Reader.Parsing

set_option autoImplicit false

/-! # Undefined numbers are told apart

A call that comes to an undefined number makes it a new one, by a mark. So whatever a program comes
to, it is no undefined number without a mark: it has been marked by the call that it comes from, or
it stands in the program, where there are no such numbers
(`CompileContext.yields_form_marked`, `marked_of_read`).
-/

namespace FormLang

/-! ## Numbers that are read -/

namespace Binary64

theorem ofUnits_ne_undefined (negative : Bool) (num den : Nat) :
    ofUnits negative num den ≠ undefined := by
  rw [ofUnits, ofUnits?]
  cases Magnitude.nearest? num den <;> simp [undefined]

theorem ofDecimal_ne_undefined (d : Decimal) : ofDecimal d ≠ undefined := by
  rw [ofDecimal]
  split_ifs
  · simp [zero, undefined]
  · simp [undefined]
  · simp [zero, undefined]
  · exact ofUnits_ne_undefined _ _ _
  · exact ofUnits_ne_undefined _ _ _

end Binary64

/-- An undefined number, if the value is one, has a mark. -/
def Value.Marked (v : Value) : Prop := v ≠ .number (.float .undefined)

theorem marked_of_ofAtom {text : String} {line line' : Int} {k : Numeral}
    (h : Node.ofAtom text line = .ok (.number line' k)) : (Value.number k).Marked := by
  rw [Node.ofAtom.eq_def] at h
  split at h
  · next negative digits _ =>
    cases hread : readInteger negative digits with
    | error f => rw [hread] at h; cases h
    | ok i =>
        rw [hread] at h
        cases h
        simp [Value.Marked]
  · split at h
    · next d _ =>
      cases h
      simpa [Value.Marked] using Binary64.ofDecimal_ne_undefined d
    · cases h

theorem marked_of_read {source : String} {line : Int} {k : Numeral}
    (h : read source = .ok (.number line k)) : (Value.number k).Marked := by
  obtain ⟨t, ht⟩ := exists_spells_of_read h rfl
  rcases ht with ⟨-, hatom⟩ | ⟨-, htext⟩
  · exact marked_of_ofAtom hatom
  · cases htext

/-! ## Results of calls -/

namespace Value

variable {v : Value} {apply : Apply} {args : List Value} {f : Callable} {c : Chunk}

theorem Marked.marked_eq (h : v.Marked) (next : Nat) : v.marked next = (v, next) := by
  cases v with
  | number n =>
    cases n with
    | int k => rfl
    | float x =>
      cases x with
      | nan mark =>
        cases mark with
        | none => exact absurd rfl h
        | some m => rfl
      | _ => rfl
  | _ => rfl

theorem marked_marked (v : Value) (next : Nat) : (v.marked next).1.Marked := by
  cases v with
  | number n =>
    cases n with
    | int k => simp [marked, Numeral.marked, Marked]
    | float x =>
      cases x with
      | nan mark => cases mark <;> simp [marked, Numeral.marked, Marked, Binary64.undefined]
      | _ => simp [marked, Numeral.marked, Marked, Binary64.undefined]
  | _ => simp [marked, Marked]

end Value

theorem Calling.yields_call_marked (apply : Apply) (f : Callable) (args : Value) :
    (Calling.call apply f args).Yields Value.Marked := by
  intro r v r' hrun
  have hcall : r.call apply f args = (.ok v, r') := hrun
  rw [Record.call] at hcall
  cases hresult : apply f args with
  | ok x =>
      rw [hresult] at hcall
      cases hcall
      exact x.marked_marked r.nextMark
  | error e =>
      rw [hresult] at hcall
      cases hcall

theorem Calling.yields_perform {P : Value → Prop} {x : Calling Value} (h : x.Yields P) :
    Tracked.Yields P x.perform := by
  intro j v j' hrun
  have hresult : (x.run ⟨[], j.nextMark⟩).1 = .ok v := congrArg Prod.fst hrun
  exact h _ v _ (Prod.ext hresult rfl)

/-! ## Compiled code -/

namespace Value

variable {v : Value} {apply : Apply} {args : List Value} {f : Callable} {c : Chunk}

/-- What stands for a single part by itself is the part. -/
theorem shared_nil_of_ne (h : v.kind ≠ .list) : v.shared [] = v := by
  refine (shared_nil_eq_iff v).2 ?_
  rw [leaves_of_ne h]
  exact List.pairwise_singleton _ _

/-- What a compiled argument comes to when it is built into a chunk is marked. -/
def ComesMarked (apply : Apply) (v : Value) : Prop := ((v.shared []).expand apply).Yields Marked

theorem comesMarked_list (apply : Apply) (items : List Value) :
    (Value.list items).ComesMarked apply := by
  rw [ComesMarked, shared, expand]
  exact (Tracked.yields_true _).bind fun vs _ => Tracked.yields_pure (by simp [Marked])

theorem comesMarked_of_atomic (h : v.Atomic) (hmarked : v.Marked) : v.ComesMarked apply := by
  rw [ComesMarked, shared_nil_of_ne h.1, expand_of_atomic h]
  exact Tracked.yields_pure hmarked

theorem comesMarked_captured (apply : Apply) (code : List Node) :
    (Value.captured code).ComesMarked apply :=
  comesMarked_of_atomic (atomic_captured code) (by simp [Marked])

theorem comesMarked_of_madeOf (h : v.MadeOf Atomic) (hmarked : v.Marked) :
    v.ComesMarked apply := by
  induction v using leafInduction with
  | leaf v hv => exact comesMarked_of_atomic ((forall_leaves_of_ne hv).1 h) hmarked
  | list items _ => exact comesMarked_list apply items

theorem comesMarked_toValue (h : (c.toValue.outcome apply).Yields Marked) :
    c.toValue.ComesMarked apply := by
  rw [ComesMarked, shared_nil_of_ne c.kind_toValue, expand_of_kind_chunk rfl]
  exact h

theorem ComesMarked.ofValue (h : v.ComesMarked apply) (hv : v.Emittable)
    (hc : Chunk.ofValue v = .ok c) : c.toValue.ComesMarked apply := by
  refine comesMarked_toValue ?_
  rw [Chunk.outcome_ofValue hv hc]
  exact h

theorem comesMarked_ofCall (hargs : (Value.list args).Emittable)
    (hc : Chunk.ofCall (.callable f) args = .ok c) : c.toValue.ComesMarked apply := by
  refine comesMarked_toValue ?_
  rw [Chunk.outcome_ofCall hargs hc]
  exact (Tracked.yields_true _).bind fun vs _ => Calling.yields_call_marked apply f _

end Value

namespace CompileContext

variable {ctx : CompileContext} {owner : String} {exports : List String} {Q : Value → Prop}
  {E : Failure → Prop} {later : List Node → Action Value} {v : Value}

theorem yields_constant (hv : v.Emittable) (h : v.ComesMarked ctx.apply) :
    Tracked.Yields (fun u => u.toValue.ComesMarked ctx.apply) (constant v) := by
  rw [constant]
  cases hc : Chunk.ofValue v with
  | error f => exact Tracked.yields_throw (Failure.fault f)
  | ok c => exact Tracked.yields_pure (h.ofValue hv hc)

theorem yields_run_marked {u : Compiled} (hmade : u.MadeOf Q)
    (h : u.toValue.ComesMarked ctx.apply) : Tracked.Yields Value.Marked (ctx.run u) := by
  rw [run]
  cases u with
  | captured code =>
      rw [Compiled.toValue, evaluate_captured]
      exact Tracked.yields_pure (by simp [Value.Marked])
  | chunk c =>
      have hwell : c.toValue.WellFormed Q := hmade
      rw [Compiled.toValue, evaluate_of_wellFormed hwell]
      refine (Tracked.yields_true _).bind fun _ _ => Calling.yields_perform ?_
      rw [Value.ComesMarked, Compiled.toValue, Value.shared_nil_of_ne c.kind_toValue,
        Value.expand_of_kind_chunk rfl] at h
      exact h

theorem yields_ofResult (hctx : ctx.Keeps owner exports Q E) (hv : v.MadeOf Q)
    (hmarked : v.Marked) :
    Tracked.Yields (fun u => u.toValue.ComesMarked ctx.apply) (ofResult v) := by
  have hatomic : v.MadeOf Value.Atomic := hv.imp fun _ hw => hctx.kind.atomic hw
  rw [ofResult.eq_def]
  split
  · next code =>
    exact Tracked.yields_pure (Value.comesMarked_captured ctx.apply code)
  · exact yields_constant hatomic.builtOf (Value.comesMarked_of_madeOf hatomic hmarked)

theorem yields_resolve_marked (hctx : ctx.Keeps owner exports Q E) {head : Node}
    {params : List Node} {args : List Value} (hargs : ∀ v ∈ args, v.BuiltOf Q) :
    Tracked.Yields (fun u => u.toValue.ComesMarked ctx.apply)
      (ctx.resolve (.ofExports owner exports) head params args) := by
  intro j u j' hu
  obtain ⟨c, rfl, -, hfragment⟩ := of_run_resolve hu
  exact Value.comesMarked_ofCall ((Value.BuiltOf.list hargs).emittable hctx.kind)
    (of_resolve_ofExports hfragment)

/-- An `eval` form of a parameter that is run at once comes to what the captured code comes to. -/
theorem yields_runCaptured_marked (hctx : ctx.Keeps owner exports Q E)
    (hmade : ∀ code, Q (.captured code) →
      Tracked.Agree Eq E (Value.MadeOf Q) (later code) (later code))
    (hlater : ∀ code, Q (.captured code) → Tracked.Yields Value.Marked (later code))
    (line : Int) (hv : v.MadeOf Q) :
    Tracked.Yields (fun u => u.toValue.ComesMarked ctx.apply) (runCaptured later line v) := by
  rw [runCaptured.eq_def]
  split
  · next code =>
    have hquoted : Q (.captured code) := hv _ (by simp [Value.leaves])
    intro j u j' hu
    obtain ⟨w, j₁, hw, hu⟩ := Tracked.of_run_bind hu
    have hresult : w.MadeOf Q := (hmade code hquoted).yields (fun _ => rfl) j w j₁ hw
    exact yields_ofResult hctx hresult (hlater code hquoted j w j₁ hw) j₁ u j' hu
  · exact Tracked.yields_throw _

/-- A form is compiled to something that comes to a marked value, if captured code does. -/
theorem yields_form_marked (hctx : ctx.Keeps owner exports Q E)
    (hmade : ∀ code, Q (.captured code) →
      Tracked.Agree Eq E (Value.MadeOf Q) (later code) (later code))
    (hlater : ∀ code, Q (.captured code) → Tracked.Yields Value.Marked (later code))
    (items : List Node) (hquotes : ∀ code, Node.RowQuotes items code → Q (.captured code)) :
    Tracked.Yields (fun u => u.toValue.ComesMarked ctx.apply) (form ctx later items) := by
  -- Code that is taken off its `proc` is smaller than the form.
  induction hsize : sizeOf items using Nat.strong_induction_on generalizing items with
  | _ size ih =>
    subst hsize
    cases items with
    | nil =>
      rw [form]
      exact yields_constant (.list (by simp)) (Value.comesMarked_list ctx.apply [])
    | cons head params =>
      have hparams : ∀ n ∈ params, ∀ code, n.Quotes code → Q (.captured code) :=
        fun n hn code hcode => hquotes code (Node.RowQuotes.cons (.inr ⟨n, hn, hcode⟩))
      cases formView head params with
      | proc line =>
          rw [form_proc rfl]
          exact Tracked.yields_pure (Value.comesMarked_captured ctx.apply params)
      | @unwrap line target code hcode =>
          rw [form_unwrap hcode]
          have hbody := Node.sizeOf_capturedBody_lt hcode
          have hlt : sizeOf (Node.capturedBody code) <
              sizeOf [.symbol line Node.evalName, target] := by
            simp only [List.cons.sizeOf_spec]
            omega
          refine ih _ hlt (Node.capturedBody code) (fun inner hinner => ?_) rfl
          exact hparams target (by simp) inner (hinner.of_capturedBody.of_procCode? hcode)
      | @stage line target hcode =>
          have htarget := (agree_runTarget hctx likeness_eq (agree_argument hctx likeness_eq hmade
            target (hparams target (by simp)))).yields fun _ => rfl
          rw [form_eval hcode]
          exact htarget.bind fun v hv => yields_runCaptured_marked hctx hmade hlater line hv
      | call hproc heval =>
          have hargs := (agree_argumentsFrom hctx likeness_eq hmade [] (by simp) params
            hparams).yields fun _ => rfl
          rw [form_call_of_length hproc heval]
          cases hlibrary : ctx.library with
          | error f => exact Tracked.yields_throw f
          | ok library =>
              obtain rfl := hctx.exports library hlibrary
              exact hargs.bind fun args hargs => yields_resolve_marked hctx hargs

/-- However deep the runs go, captured code comes to a marked value. -/
theorem yields_runBody_marked (hctx : ctx.Keeps owner exports Q fun _ => True)
    (hquotes : ∀ code, Q (.captured code) → ∀ inner, Node.RowQuotes code inner →
      Q (.captured inner)) (depth : Nat) {code : List Node} (hcode : Q (.captured code)) :
    Tracked.Yields Value.Marked (ctx.runBody depth code) := by
  induction depth generalizing code with
  | zero => exact Tracked.yields_throw _
  | succ depth ih =>
      have hmade : ∀ code, Q (.captured code) → Tracked.Agree Eq (fun _ => True) (Value.MadeOf Q)
          (ctx.runBody depth code) (ctx.runBody depth code) :=
        fun _ h => agree_runBody hctx likeness_eq trivial hquotes depth h
      have hinner : ∀ inner, Node.RowQuotes (Node.capturedBody code) inner →
          Q (.captured inner) := fun inner h => hquotes code hcode inner h.of_capturedBody
      have hform := (agree_form hctx likeness_eq hmade _ hinner).yields fun _ => rfl
      have hmarked := yields_form_marked hctx hmade (fun _ h => ih h) _ hinner
      rw [runBody_succ]
      intro j v j' hv
      obtain ⟨u, j₁, hu, hv⟩ := Tracked.of_run_bind hv
      exact yields_run_marked (hform j u j₁ hu) (hmarked j u j₁ hu) j₁ v j' hv

/-- A program comes to a marked value as a parameter. -/
theorem yields_argument_marked (hctx : ctx.Keeps owner exports Q E)
    (hmade : ∀ code, Q (.captured code) →
      Tracked.Agree Eq E (Value.MadeOf Q) (later code) (later code))
    (hlater : ∀ code, Q (.captured code) → Tracked.Yields Value.Marked (later code))
    {source : String} {n : Node} (hread : read source = .ok n)
    (hquotes : ∀ code, n.Quotes code → Q (.captured code)) :
    Tracked.Yields (Value.ComesMarked ctx.apply) (argument ctx later n) := by
  cases n with
  | symbol line name =>
      rw [argument]
      exact Tracked.yields_pure (Value.comesMarked_of_atomic (Value.atomic_text name)
        (by simp [Value.Marked]))
  | number line k =>
      rw [argument]
      exact Tracked.yields_pure (Value.comesMarked_of_atomic (Value.atomic_number k)
        (marked_of_read hread))
  | truth line b =>
      rw [argument]
      exact Tracked.yields_pure (Value.comesMarked_of_atomic (Value.atomic_truth b)
        (by simp [Value.Marked]))
  | text line s =>
      rw [argument]
      exact Tracked.yields_pure (Value.comesMarked_of_atomic (Value.atomic_text s)
        (by simp [Value.Marked]))
  | list elements =>
      rw [argument]
      exact (Tracked.yields_true _).bind fun vs _ =>
        Tracked.yields_pure (Value.comesMarked_list ctx.apply vs)
  | form style items =>
      have hform := yields_form_marked hctx hmade hlater items fun code h =>
        hquotes code (Node.quotes_form.2 h)
      rw [argument]
      exact hform.bind fun u hu => Tracked.yields_pure hu
  | foreign v =>
      rw [argument]
      exact (Tracked.yields_true _).bind fun text _ => Tracked.yields_throw _

end CompileContext

end FormLang
