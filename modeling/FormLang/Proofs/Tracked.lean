import FormLang.Machine

set_option autoImplicit false

/-! # Computations that fail and keep a state

Emitting code, compiling and calling have one shape: a computation may fail, and its state is
there in any case. What `do` blocks of this shape come to is said here once: the second part of
one starts where the first part has left off, and does not start when the first part fails.
-/

namespace FormLang

/-! ## Results -/

/-- A result has a property, or the failure in its place has another one. -/
def Ensures {ε α : Type} (E : ε → Prop) (P : α → Prop) : Except ε α → Prop
  | .ok a => P a
  | .error e => E e

theorem ensures_true {ε α : Type} (r : Except ε α) :
    Ensures (fun _ => True) (fun _ => True) r := by
  cases r <;> trivial

namespace Ensures

variable {ε α β : Type} {E : ε → Prop} {P : α → Prop} {Q : β → Prop} {r : Except ε α}

theorem pure {a : α} (h : P a) : Ensures E P (pure a : Except ε α) := h

theorem throw {e : ε} (h : E e) : Ensures E P (throw e : Except ε α) := h

theorem bind {g : α → Except ε β} (h : Ensures E P r) (hg : ∀ a, P a → Ensures E Q (g a)) :
    Ensures E Q (r >>= g) := by
  cases r with
  | ok a => exact hg a h
  | error e => exact h

theorem imp {E' : ε → Prop} {P' : α → Prop} (h : Ensures E P r) (hE : ∀ e, E e → E' e)
    (hP : ∀ a, P a → P' a) : Ensures E' P' r := by
  cases r with
  | ok a => exact hP a h
  | error e => exact hE e h

theorem liftFault {E : Failure → Prop} {r : Except Fault α}
    (h : Ensures (fun f => E (.fault f)) P r) : Ensures E P (liftFault r) := by
  cases r with
  | ok a => exact h
  | error f => exact h

/-- A loop ensures what each of its steps preserves. -/
theorem foldlM {step : β → α → Except ε β} {as : List α} {b : β} (hb : Q b)
    (hstep : ∀ b a, Q b → Ensures E Q (step b a)) : Ensures E Q (as.foldlM step b) := by
  induction as generalizing b with
  | nil => exact hb
  | cons a as ih =>
      rw [List.foldlM_cons]
      exact (hstep b a hb).bind fun b hb => ih hb

theorem mapM {g : α → Except ε β} {as : List α} (hg : ∀ a, Ensures E Q (g a)) :
    Ensures E (fun bs => ∀ b ∈ bs, Q b) (as.mapM g) := by
  induction as with
  | nil => exact Ensures.pure (by simp)
  | cons a as ih =>
      rw [List.mapM_cons]
      refine (hg a).bind fun b hb => ih.bind fun bs hbs => Ensures.pure ?_
      exact List.forall_mem_cons.2 ⟨hb, hbs⟩

end Ensures

/-! ## Computations -/

/-- A computation that may fail with an `ε` and keeps a state `σ`. -/
abbrev Tracked (σ ε α : Type) : Type := ExceptT ε (StateM σ) α

namespace Tracked

variable {σ ε α β : Type} {x : Tracked σ ε α} {g : α → Tracked σ ε β} {s s' s'' : σ}

/-- A computation that does what a function of the state says. -/
def of (run : σ → Except ε α × σ) : Tracked σ ε α := ExceptT.mk run

theorem ext {x y : Tracked σ ε α} (h : ∀ s, x.run s = y.run s) : x = y := funext h

@[simp] theorem run_of (run : σ → Except ε α × σ) (s : σ) : (of run).run s = run s := rfl

@[simp] theorem run_pure (a : α) (s : σ) : (pure a : Tracked σ ε α).run s = (.ok a, s) := rfl

@[simp] theorem run_throw (e : ε) (s : σ) :
    (throw e : Tracked σ ε α).run s = (.error e, s) := rfl

theorem run_bind (x : Tracked σ ε α) (g : α → Tracked σ ε β) (s : σ) :
    (x >>= g).run s =
      match x.run s with
      | (.ok a, s) => (g a).run s
      | (.error e, s) => (.error e, s) := by
  -- The second part is run by `bindCont`, which passes errors on.
  show (match x.run s with | (r, s) => ExceptT.bindCont g r s) = _
  generalize x.run s = p
  obtain ⟨r, s⟩ := p
  cases r <;> rfl

theorem run_bind_of_ok {a : α} (h : x.run s = (.ok a, s')) : (x >>= g).run s = (g a).run s' := by
  rw [run_bind, h]

theorem run_bind_of_error {e : ε} (h : x.run s = (.error e, s')) :
    (x >>= g).run s = (.error e, s') := by
  rw [run_bind, h]

/-- The result of a computation in two parts, without the state behind it. -/
theorem result_bind (x : Tracked σ ε α) (g : α → Tracked σ ε β) (s : σ) :
    ((x >>= g).run s).1 = (x.run s).1 >>= fun a => ((g a).run (x.run s).2).1 := by
  rcases hx : x.run s with ⟨e | a, s'⟩
  · rw [run_bind_of_error hx]
    rfl
  · rw [run_bind_of_ok hx]
    rfl

/-- A computation in two parts has a result only if both have. -/
theorem of_run_bind {b : β} (h : (x >>= g).run s = (.ok b, s'')) :
    ∃ a s', x.run s = (.ok a, s') ∧ (g a).run s' = (.ok b, s'') := by
  rw [run_bind] at h
  generalize x.run s = p at h ⊢
  obtain ⟨r, s'⟩ := p
  cases r with
  | ok a => exact ⟨a, s', rfl, h⟩
  | error e => cases h

/-- What follows a computation matters only for the results that it has. -/
theorem bind_congr {g' : α → Tracked σ ε β}
    (h : ∀ s a s', x.run s = (.ok a, s') → g a = g' a) : x >>= g = x >>= g' := by
  refine ext fun s => ?_
  rcases hx : x.run s with ⟨e | a, s'⟩
  · rw [run_bind_of_error hx, run_bind_of_error hx]
  · rw [run_bind_of_ok hx, run_bind_of_ok hx, h s a s' hx]

/-! ## Properties of results -/

/-- All results that a computation can have, from whatever state, have a property. -/
def Yields (P : α → Prop) (x : Tracked σ ε α) : Prop := ∀ s a s', x.run s = (.ok a, s') → P a

variable {P : α → Prop} {Q : β → Prop}

theorem yields_pure {a : α} (h : P a) : Yields P (pure a : Tracked σ ε α) := by
  intro s b s' hrun
  cases hrun
  exact h

theorem yields_throw (e : ε) : Yields P (throw e : Tracked σ ε α) := by
  intro s a s' hrun
  cases hrun

theorem yields_true (x : Tracked σ ε α) : Yields (fun _ => True) x := fun _ _ _ _ => trivial

theorem Yields.bind (hx : Yields P x) (hg : ∀ a, P a → Yields Q (g a)) : Yields Q (x >>= g) := by
  intro s b s'' hrun
  obtain ⟨a, s', ha, hb⟩ := of_run_bind hrun
  exact hg a (hx s a s' ha) s' b s'' hb

theorem Yields.imp {P' : α → Prop} (hx : Yields P x) (h : ∀ a, P a → P' a) : Yields P' x :=
  fun s a s' hrun => h a (hx s a s' hrun)

/-! ## Two computations

What one computation does from a state, another may do from a state that is not the same, but
related to it. -/

/-- From related states two computations have the same result or failure, of which something is
known, and the states behind them are related again. -/
def Agree (R : σ → σ → Prop) (E : ε → Prop) (P : α → Prop) (x y : Tracked σ ε α) : Prop :=
  ∀ s t, R s t →
    (y.run t).1 = (x.run s).1 ∧ R (x.run s).2 (y.run t).2 ∧ Ensures E P (x.run s).1

section

variable {R : σ → σ → Prop} {E : ε → Prop} {y : Tracked σ ε α} {g' : α → Tracked σ ε β}

theorem agree_pure {a : α} (h : P a) :
    Agree R E P (pure a : Tracked σ ε α) (pure a : Tracked σ ε α) :=
  fun _ _ hR => ⟨rfl, hR, h⟩

theorem agree_throw {e : ε} (h : E e) :
    Agree R E P (throw e : Tracked σ ε α) (throw e : Tracked σ ε α) :=
  fun _ _ hR => ⟨rfl, hR, h⟩

theorem Agree.bind (hx : Agree R E P x y) (hg : ∀ a, P a → Agree R E Q (g a) (g' a)) :
    Agree R E Q (x >>= g) (y >>= g') := by
  intro s t hst
  obtain ⟨hresult, hR, hP⟩ := hx s t hst
  rcases hxs : x.run s with ⟨e | a, s'⟩ <;> rcases hyt : y.run t with ⟨e' | a', t'⟩ <;>
    rw [hxs] at hresult hR hP <;> rw [hyt] at hresult hR <;> cases hresult
  · rw [run_bind_of_error hxs, run_bind_of_error hyt]
    exact ⟨rfl, hR, hP⟩
  · rw [run_bind_of_ok hxs, run_bind_of_ok hyt]
    exact hg a hP s' t' hR

theorem Agree.imp {E' : ε → Prop} {P' : α → Prop} (h : Agree R E P x y) (hE : ∀ e, E e → E' e)
    (hP : ∀ a, P a → P' a) : Agree R E' P' x y := by
  intro s t hst
  obtain ⟨hresult, hR, hensures⟩ := h s t hst
  exact ⟨hresult, hR, hensures.imp hE hP⟩

/-- From one state, the computation by itself. -/
theorem Agree.ensures (h : Agree R E P x y) (hR : R s s) : Ensures E P (x.run s).1 :=
  (h s s hR).2.2

theorem Agree.yields (h : Agree R E P x y) (hR : ∀ s, R s s) : Yields P x := by
  intro s a s' hrun
  have hensures := h.ensures (hR s)
  rwa [hrun] at hensures

/-- Computations that agree from the same states are the same. -/
theorem Agree.eq (h : Agree Eq E P x y) : x = y := by
  refine ext fun s => ?_
  obtain ⟨hresult, hstate, -⟩ := h s s rfl
  exact Prod.ext hresult.symm hstate

end

/-- From some state the computation has this result. -/
def Reaches (x : Tracked σ ε α) (a : α) : Prop := ∃ s s', x.run s = (.ok a, s')

theorem Reaches.of_pure {a b : α} (h : Reaches (pure a : Tracked σ ε α) b) : b = a := by
  obtain ⟨s, s', hrun⟩ := h
  cases hrun
  rfl

theorem not_reaches_throw (e : ε) (a : α) : ¬Reaches (throw e : Tracked σ ε α) a := by
  rintro ⟨s, s', hrun⟩
  cases hrun

theorem Reaches.of_bind {b : β} (h : Reaches (x >>= g) b) : ∃ a, Reaches x a ∧ Reaches (g a) b := by
  obtain ⟨s, s'', hrun⟩ := h
  obtain ⟨a, s', ha, hb⟩ := of_run_bind hrun
  exact ⟨a, ⟨s, s', ha⟩, s', s'', hb⟩

end Tracked

/-- A computation that makes calls. -/
abbrev Calling (α : Type) : Type := Tracked Record Failure α

/-- Makes a call. -/
def Calling.call (apply : Apply) (target : Callable) (args : Value) : Calling Value :=
  Tracked.of fun r => r.call apply target args

end FormLang
