import FormLang.Proofs.Compile.Building
import FormLang.Proofs.Compile.Stages

set_option autoImplicit false

/-! # Listings change the output only

When chunks are listed, each program is walked before it is run, also those that are run while
another one is being compiled, and a listing can fail where a run would not. It does so for integers
that are too long to be written, and for nothing else that a compiler builds. So where integers are
short, compiling goes the same way with and without listings, step by step, from journals that
differ in what was printed (`CompileContext.agreeAt_form`), and so do whole runs.
-/

namespace FormLang

/-- The same was asked for and noted, and the next mark is the same. -/
structure Journal.SameButPrinted (j k : Journal) : Prop where
  requests : j.requests = k.requests
  noted : j.noted = k.noted
  nextMark : j.nextMark = k.nextMark

theorem likeness_sameButPrinted : Likeness Journal.SameButPrinted where
  nextMark h := h.nextMark
  requested r h := ⟨congrArg (r :: ·) h.requests, h.noted, h.nextMark⟩
  printed _ h := ⟨h.requests, h.noted, h.nextMark⟩
  marked _ h := ⟨h.requests, h.noted, rfl⟩

/-! ## From two states -/

namespace Tracked

variable {σ ε α β : Type} {R : σ → σ → Prop} {P : α → Prop} {Q : β → Prop} {x y : Tracked σ ε α}
  {g g' : α → Tracked σ ε β} {s t : σ}

/-- From two states, two computations have the same result, of which something is known, and the
states behind them are related. -/
def AgreeAt (R : σ → σ → Prop) (P : α → Prop) (x y : Tracked σ ε α) (s t : σ) : Prop :=
  (y.run t).1 = (x.run s).1 ∧ R (x.run s).2 (y.run t).2 ∧ ∀ a, (x.run s).1 = .ok a → P a

theorem Agree.agreeAt {E : ε → Prop} (h : Agree R E P x y) (hR : R s t) : AgreeAt R P x y s t := by
  obtain ⟨hresult, hstate, hensures⟩ := h s t hR
  refine ⟨hresult, hstate, fun a ha => ?_⟩
  rw [ha] at hensures
  exact hensures

theorem agreeAt_pure {a : α} (h : P a) (hR : R s t) :
    AgreeAt R P (pure a : Tracked σ ε α) (pure a : Tracked σ ε α) s t :=
  ⟨rfl, hR, fun _ ha => Except.ok.inj ha ▸ h⟩

theorem agreeAt_throw (e : ε) (hR : R s t) :
    AgreeAt R P (throw e : Tracked σ ε α) (throw e : Tracked σ ε α) s t :=
  ⟨rfl, hR, fun _ ha => by cases ha⟩

/-- What follows need agree only from the states that the first parts lead to. -/
theorem AgreeAt.bind (h : AgreeAt R P x y s t)
    (hg : ∀ a s' t', x.run s = (.ok a, s') → R s' t' → P a → AgreeAt R Q (g a) (g' a) s' t') :
    AgreeAt R Q (x >>= g) (y >>= g') s t := by
  obtain ⟨hresult, hstate, hP⟩ := h
  rcases hx : x.run s with ⟨e | a, s'⟩ <;> rcases hy : y.run t with ⟨e' | a', t'⟩ <;>
    rw [hx] at hresult hstate hP <;> rw [hy] at hresult hstate <;> cases hresult
  · rw [AgreeAt, run_bind_of_error hx, run_bind_of_error hy]
    exact ⟨rfl, hstate, fun _ ha => by cases ha⟩
  · rw [AgreeAt, run_bind_of_ok hx, run_bind_of_ok hy]
    exact hg a s' t' hx hstate (hP a rfl)

theorem AgreeAt.imp {P' : α → Prop} (h : AgreeAt R P x y s t)
    (hP : ∀ a s', x.run s = (.ok a, s') → P a → P' a) : AgreeAt R P' x y s t :=
  ⟨h.1, h.2.1, fun a ha => hP a (x.run s).2 (Prod.ext ha rfl) (h.2.2 a ha)⟩

end Tracked

open Tracked

/-! ## Running a unit -/

/-- The compiler with other settings. -/
def CompileContext.under (ctx : CompileContext) (settings : Settings) : CompileContext :=
  { ctx with settings := settings }

/-- Can the unit be listed, if it is a chunk? -/
def Compiled.Listable (u : Compiled) : Prop := ∀ c, u = .chunk c → c.toValue.Listable

theorem Compiled.listable_captured (code : List Node) : (Compiled.captured code).Listable := by
  rintro c ⟨⟩

theorem Value.kind_ne_captured {v : Value} (h : ∀ code, v ≠ .captured code) :
    v.kind ≠ .captured := by
  intro hkind
  cases v with
  | captured code => exact h code rfl
  | number n => cases n <;> cases hkind
  | callable f => cases f <;> cases hkind
  | _ => cases hkind

namespace CompileContext

open FormLang.Journal

variable {ctx : CompileContext} {settings : Settings} {owner : String} {exports : List String}
  {Q : Value → Prop} {later later' : List Node → Action Value}
  {inside : List Node → Journal → Chunk → Prop} {v : Value} {args : List Value} {j k : Journal}

/-- A unit that can be listed is run in the same way under settings that name the same machine. -/
theorem agreeAt_run (hbackend : settings.backend = ctx.settings.backend) {u : Compiled}
    (hmade : u.MadeOf Q) (hlistable : u.Listable) (hR : SameButPrinted j k) :
    AgreeAt SameButPrinted (fun _ => True) (ctx.run u) ((ctx.under settings).run u) j k := by
  rw [run, run]
  cases u with
  | captured code =>
      rw [Compiled.toValue, evaluate_captured, evaluate_captured]
      exact agreeAt_pure trivial hR
  | chunk c =>
      have hwell : c.toValue.WellFormed Q := hmade
      have hlisting : ∃ text, c.toValue.listing "" = .ok text := hlistable c rfl ""
      rw [Compiled.toValue, evaluate_of_wellFormed hwell, evaluate_of_wellFormed hwell]
      have hprepare : AgreeAt SameButPrinted (fun _ => True)
          (prepare ctx.settings none c.toValue)
          (prepare (ctx.under settings).settings none c.toValue) j k := by
        obtain ⟨printed, hj⟩ := run_prepare_of_listing ctx.settings none (fun _ => hlisting) j
        obtain ⟨printed', hk⟩ := run_prepare_of_listing settings none (fun _ => hlisting) k
        rw [AgreeAt, hj, under, hk, chooseBackend, chooseBackend, hbackend]
        exact ⟨rfl, ⟨hR.requests, hR.noted, hR.nextMark⟩, fun _ _ => trivial⟩
      refine hprepare.bind fun b j' k' _ hR' _ => ?_
      exact (Calling.agree_perform likeness_sameButPrinted fun _ => ensures_true _).agreeAt hR'

/-! ## Steps of the compiler -/

/-- A value becomes a program that can be listed. -/
theorem agreeAt_constant (hQ : PartKind Q)
    (hcode : ∀ code, Q (.captured code) → Node.allWritable code = true) (hv : v.BuiltOf Q)
    (hinside : v.ListableInside) (hshort : ∀ c, Chunk.ofValue v = .ok c → c.Short)
    (hR : SameButPrinted j k) :
    AgreeAt SameButPrinted Compiled.Listable (constant v) (constant v) j k := by
  rw [constant]
  cases hc : Chunk.ofValue v with
  | error f => exact agreeAt_throw _ hR
  | ok c =>
      refine agreeAt_pure (fun c' h => ?_) hR
      cases h
      exact (hshort c hc).listable_ofValue hQ hcode hv hinside hc

/-- No chunk is a part of a value that was computed. -/
theorem listableInside_of_madeOf (hQ : PartKind Q) (h : v.MadeOf Q) : v.ListableInside :=
  fun w hw hchunk => absurd hchunk (hQ.atomic (h w hw)).2

/-- What captured code comes to in the one compiler, and in the other from a journal that differs in
what was printed, if the chunks are short that are built on the way. -/
structure Parallel (Q : Value → Prop) (later later' : List Node → Action Value)
    (inside : List Node → Journal → Chunk → Prop) : Prop where
  writable : ∀ code, Q (.captured code) → Node.allWritable code = true
  made : ∀ code, Q (.captured code) →
    Tracked.Agree Eq (fun _ => True) (Value.MadeOf Q) (later code) (later code)
  same : ∀ code, Q (.captured code) → ∀ j k, SameButPrinted j k →
    (∀ c, inside code j c → c.Short) →
      AgreeAt SameButPrinted (fun _ => True) (later code) (later' code) j k

theorem agreeAt_runTarget (hctx : ctx.Keeps owner exports Q fun _ => True)
    (hbackend : settings.backend = ctx.settings.backend)
    (hlater : Parallel Q later later' inside) {target : Node} {line : Int}
    (hcode : target.procCode? = none)
    (hmade : Tracked.Agree Eq (fun _ => True) (Argument Q target) (argument ctx later target)
      (argument ctx later target))
    (htarget : AgreeAt SameButPrinted Value.ListableInside (argument ctx later target)
      (argument (ctx.under settings) later' target) j k)
    (hshort : ∀ c, FormBuilds ctx later inside [.symbol line Node.evalName, target] j c →
      c.Short) :
    AgreeAt SameButPrinted (fun _ => True) (ctx.runTarget later target)
      ((ctx.under settings).runTarget later' target) j k := by
  refine htarget.bind fun v j' k' hv hR hinside => ?_
  obtain ⟨hbuilt, hform⟩ := hmade.yields (fun _ => rfl) j v j' hv
  -- A form is a unit already; any other parameter becomes the chunk of its value.
  have hunit : AgreeAt SameButPrinted
      (fun unit => ∃ u : Compiled, u.MadeOf Q ∧ u.Listable ∧ u.toValue = unit)
      (unitOf target v) (unitOf target v) j' k' := by
    rw [unitOf]
    split
    · next htrue =>
      obtain ⟨u, hu, rfl⟩ := hform htrue
      refine agreeAt_pure ⟨u, hu, ?_, rfl⟩ hR
      rintro c rfl
      exact (Value.forall_leaves_of_ne c.kind_toValue).1 hinside rfl
    · next hfalse =>
      have hconstant := agreeAt_constant hctx.kind hlater.writable hbuilt hinside
        (fun c hc => hshort c (.literal hcode (by simpa using hfalse) hv hc)) hR
      refine hconstant.bind fun u j'' k'' hu hR' hlistable =>
        agreeAt_pure ⟨u, ?_, hlistable, rfl⟩ hR'
      exact (agree_constant hctx hbuilt (R := Eq)).yields (fun _ => rfl) j' u j'' hu
  refine hunit.bind fun unit j'' k'' _ hR' hunit => ?_
  obtain ⟨u, hu, hlistable, rfl⟩ := hunit
  exact agreeAt_run hbackend hu hlistable hR'

theorem agreeAt_runCaptured (hctx : ctx.Keeps owner exports Q fun _ => True)
    (hlater : Parallel Q later later' inside) {target : Node} {line : Int}
    (hcode : target.procCode? = none) (hv : v.MadeOf Q) {j₀ : Journal}
    (htarget : (ctx.runTarget later target).run j₀ = (.ok v, j))
    (hshort : ∀ c, FormBuilds ctx later inside [.symbol line Node.evalName, target] j₀ c →
      c.Short) (hR : SameButPrinted j k) :
    AgreeAt SameButPrinted Compiled.Listable (runCaptured later line v)
      (runCaptured later' line v) j k := by
  rw [runCaptured.eq_def, runCaptured.eq_def]
  split
  · next code =>
    have hquoted : Q (.captured code) := hv _ (by simp [Value.leaves])
    have hsame := hlater.same code hquoted j k hR fun c hc => hshort c (.later hcode htarget hc)
    refine hsame.bind fun w j' k' hw hR' _ => ?_
    have hmade : w.MadeOf Q := (hlater.made code hquoted).yields (fun _ => rfl) j w j' hw
    rw [ofResult.eq_def]
    split
    · exact agreeAt_pure (Compiled.listable_captured _) hR'
    · next hne =>
      have hkind : w.kind ≠ .captured := Value.kind_ne_captured hne
      exact agreeAt_constant hctx.kind hlater.writable hmade.builtOf
        (listableInside_of_madeOf hctx.kind hmade)
        (fun c hc => hshort c (.result hcode htarget hw hkind hc)) hR'
  · exact agreeAt_throw _ hR

theorem agreeAt_call (hctx : ctx.Keeps owner exports Q fun _ => True)
    (hlater : Parallel Q later later' inside) {head : Node} {params : List Node}
    (hproc : head.isNamed Node.procName = false)
    (heval : head.isNamed Node.evalName = true → params.length ≠ 1)
    (hmade : Tracked.Agree Eq (fun _ => True) (fun vs => ∀ v ∈ vs, v.BuiltOf Q)
      (argumentsFrom ctx later [] params) (argumentsFrom ctx later [] params))
    (hargs : (∀ c, ArgumentsBuild ctx later inside [] params j c → c.Short) →
      AgreeAt SameButPrinted (fun vs => ∀ v ∈ vs, v.ListableInside)
        (argumentsFrom ctx later [] params)
        (argumentsFrom (ctx.under settings) later' [] params) j k)
    (hshort : ∀ c, FormBuilds ctx later inside (head :: params) j c → c.Short)
    (hR : SameButPrinted j k) :
    AgreeAt SameButPrinted Compiled.Listable
      (do
        let library ← Action.ofExcept ctx.library
        let args ← argumentsFrom ctx later [] params
        ctx.resolve library head params args)
      (do
        let library ← Action.ofExcept ctx.library
        let args ← argumentsFrom (ctx.under settings) later' [] params
        ctx.resolve library head params args) j k := by
  cases hlibrary : ctx.library with
  | error f => exact agreeAt_throw f hR
  | ok library =>
      obtain rfl := hctx.exports library hlibrary
      refine (hargs fun c hc => hshort c (.parameters hproc heval hlibrary hc)).bind
        fun args j' k' hrun hR' hinside => ?_
      have hbuilt := Value.BuiltOf.list (hmade.yields (fun _ => rfl) j args j' hrun)
      have hresolve : AgreeAt SameButPrinted (Compiled.MadeOf Q)
          (ctx.resolve (.ofExports owner exports) head params args)
          (ctx.resolve (.ofExports owner exports) head params args) j' k' :=
        (agree_resolve hctx likeness_sameButPrinted hbuilt).agreeAt hR'
      refine hresolve.imp fun u j'' hu _ c hc => ?_
      obtain ⟨c', rfl, hwritable, hfragment⟩ := of_run_resolve hu
      cases hc
      have hchunk := hshort c (.call hproc heval hlibrary hrun hwritable hfragment)
      exact hchunk.listable_ofCall hctx.kind hlater.writable hbuilt
        (Value.forall_leaves_list.2 hinside) (of_resolve_ofExports hfragment)

end CompileContext

/-! ## Along the tree -/

theorem Compiled.Listable.inside {u : Compiled} (h : u.Listable) : u.toValue.ListableInside := by
  cases u with
  | chunk c => exact (Value.forall_leaves_of_ne c.kind_toValue).2 fun _ => h c rfl
  | captured code =>
      intro w hw hchunk
      obtain rfl : w = .captured code := by simpa [Compiled.toValue, Value.leaves] using hw
      cases hchunk

theorem Value.listableInside_of_ne {v : Value} (h : v.leaves = [v]) (hv : v.kind ≠ .chunk) :
    v.ListableInside := by
  intro w hw hchunk
  rw [h, List.mem_singleton] at hw
  exact absurd (hw ▸ hchunk) hv

namespace CompileContext

open FormLang.Journal

variable {ctx : CompileContext} {settings : Settings} {owner : String} {exports : List String}
  {Q : Value → Prop} {later later' : List Node → Action Value}
  {inside : List Node → Journal → Chunk → Prop}

mutual
/-- A form is compiled in the same way under both settings, if the chunks are short that are built
on the way, and to something that can be listed. -/
theorem agreeAt_form (hctx : ctx.Keeps owner exports Q fun _ => True)
    (hbackend : settings.backend = ctx.settings.backend)
    (hlater : Parallel Q later later' inside) :
    ∀ items, (∀ code, Node.RowQuotes items code → Q (.captured code)) →
      ∀ j k, SameButPrinted j k → (∀ c, FormBuilds ctx later inside items j c → c.Short) →
        AgreeAt SameButPrinted Compiled.Listable (form ctx later items)
          (form (ctx.under settings) later' items) j k
  | [] => fun _ j k hR hshort => by
      rw [form, form]
      exact agreeAt_constant hctx.kind hlater.writable (Value.BuiltOf.list (by simp))
        (Value.forall_leaves_list.2 (by simp)) (fun c hc => hshort c (.empty hc)) hR
  | head :: params => by
      have hparams : (∀ code, Node.RowQuotes (head :: params) code → Q (.captured code)) →
          ∀ n ∈ params, ∀ code, n.Quotes code → Q (.captured code) :=
        fun h n hn code hcode => h code (Node.RowQuotes.cons (.inr ⟨n, hn, hcode⟩))
      have hargs := agreeAt_argumentsFrom hctx hbackend hlater [] (by simp) params
      intro hquotes j k hR hshort
      cases formView head params with
      | proc line =>
          rw [form_proc rfl, form_proc rfl]
          exact agreeAt_pure (Compiled.listable_captured params) hR
      | @unwrap line target code hcode =>
          rw [form_unwrap hcode, form_unwrap hcode]
          refine agreeAt_form hctx hbackend hlater (Node.capturedBody code) (fun inner hinner => ?_)
            j k hR fun c hc => hshort c (.unwrapped hcode hc)
          have hinner := hinner.of_capturedBody.of_procCode? hcode
          exact hparams hquotes target (by simp) inner hinner
      | @stage line target hcode =>
          have hquoted := hparams hquotes target (by simp)
          have htarget := agreeAt_argument hctx hbackend hlater target hquoted j k hR fun c hc =>
            hshort c (.target hcode hc)
          have hmade := agree_argument hctx likeness_eq hlater.made target hquoted
          rw [form_eval hcode, form_eval hcode]
          refine (agreeAt_runTarget hctx hbackend hlater hcode hmade htarget hshort).bind
            fun v j' k' hv hR' _ => ?_
          have hvalue : v.MadeOf Q :=
            (agree_runTarget hctx likeness_eq hmade).yields (fun _ => rfl) j v j' hv
          exact agreeAt_runCaptured hctx hlater hcode hvalue hv hshort hR'
      | call hproc heval =>
          have hquoted := hparams hquotes
          rw [form_call_of_length hproc heval, form_call_of_length hproc heval]
          exact agreeAt_call hctx hlater hproc heval
            (agree_argumentsFrom hctx likeness_eq hlater.made [] (by simp) params hquoted)
            (hargs hquoted j k hR) hshort hR
  termination_by items => sizeOf items
  decreasing_by
  · simp only [List.cons.sizeOf_spec]
    omega
  · have hbody := Node.sizeOf_capturedBody_lt hcode
    simp only [List.cons.sizeOf_spec]
    omega
  · simp only [List.cons.sizeOf_spec]
    omega

theorem agreeAt_argument (hctx : ctx.Keeps owner exports Q fun _ => True)
    (hbackend : settings.backend = ctx.settings.backend)
    (hlater : Parallel Q later later' inside) :
    ∀ n : Node, (∀ code, n.Quotes code → Q (.captured code)) →
      ∀ j k, SameButPrinted j k → (∀ c, ArgumentBuilds ctx later inside n j c → c.Short) →
        AgreeAt SameButPrinted Value.ListableInside (argument ctx later n)
          (argument (ctx.under settings) later' n) j k
  | .symbol _ name, _, j, k, hR, _ => by
      rw [argument, argument]
      exact agreeAt_pure (Value.listableInside_of_ne rfl (by simp [Value.kind])) hR
  | .number _ n, _, j, k, hR, _ => by
      rw [argument, argument]
      exact agreeAt_pure (Value.listableInside_of_ne rfl (by cases n <;> simp [Value.kind])) hR
  | .truth _ b, _, j, k, hR, _ => by
      rw [argument, argument]
      exact agreeAt_pure (Value.listableInside_of_ne rfl (by simp [Value.kind])) hR
  | .text _ s, _, j, k, hR, _ => by
      rw [argument, argument]
      exact agreeAt_pure (Value.listableInside_of_ne rfl (by simp [Value.kind])) hR
  | .list elements, hquotes, j, k, hR, hshort => by
      have helements := agreeAt_argumentsFrom hctx hbackend hlater [] (by simp) elements
        (fun n hn code h => hquotes code (h.list hn)) j k hR fun c hc => hshort c (.list hc)
      rw [argument, argument]
      exact helements.bind fun vs j' k' _ hR' hvs =>
        agreeAt_pure (Value.forall_leaves_list.2 hvs) hR'
  | .form _ items, hquotes, j, k, hR, hshort => by
      have hitems := agreeAt_form hctx hbackend hlater items
        (fun code h => hquotes code (Node.quotes_form.2 h)) j k hR fun c hc => hshort c (.form hc)
      rw [argument, argument]
      exact hitems.bind fun u j' k' _ hR' hu => agreeAt_pure hu.inside hR'
  | .foreign v, _, j, k, hR, _ => by
      rw [argument, argument]
      cases v.written with
      | error f => exact agreeAt_throw (Failure.fault f) hR
      | ok text => exact agreeAt_throw (Failure.fault (.notANode text)) hR
  termination_by n => sizeOf n

theorem agreeAt_argumentsFrom (hctx : ctx.Keeps owner exports Q fun _ => True)
    (hbackend : settings.backend = ctx.settings.backend)
    (hlater : Parallel Q later later' inside)
    (done : List Value) (hdone : ∀ v ∈ done, v.ListableInside) :
    ∀ ns : List Node, (∀ n ∈ ns, ∀ code, n.Quotes code → Q (.captured code)) →
      ∀ j k, SameButPrinted j k → (∀ c, ArgumentsBuild ctx later inside done ns j c → c.Short) →
        AgreeAt SameButPrinted (fun vs => ∀ v ∈ vs, v.ListableInside)
          (argumentsFrom ctx later done ns) (argumentsFrom (ctx.under settings) later' done ns) j k
  | [], _, j, k, hR, _ => by
      rw [argumentsFrom, argumentsFrom]
      exact agreeAt_pure (fun v hv => hdone v (List.mem_reverse.1 hv)) hR
  | n :: rest, hquotes, j, k, hR, hshort => by
      have hn := agreeAt_argument hctx hbackend hlater n (hquotes n (by simp)) j k hR
        fun c hc => hshort c (.first hc)
      rw [argumentsFrom, argumentsFrom]
      exact hn.bind fun v j' k' hv hR' hinside =>
        agreeAt_argumentsFrom hctx hbackend hlater (v :: done)
          (List.forall_mem_cons.2 ⟨hinside, hdone⟩) rest (fun m hm => hquotes m (by simp [hm]))
          j' k' hR' fun c hc => hshort c (.next hv hc)
  termination_by ns => sizeOf ns
end

/-- A tree is compiled in the same way under both settings, and to something that can be listed. -/
theorem agreeAt_node (hctx : ctx.Keeps owner exports Q fun _ => True)
    (hbackend : settings.backend = ctx.settings.backend)
    (hlater : Parallel Q later later' inside) {n : Node}
    (hquotes : ∀ code, n.Quotes code → Q (.captured code)) {j k : Journal}
    (hR : SameButPrinted j k) (hshort : ∀ c, NodeBuilds ctx later inside n j c → c.Short) :
    AgreeAt SameButPrinted Compiled.Listable (ctx.node later n)
      ((ctx.under settings).node later' n) j k := by
  by_cases hform : n.isForm = true
  · cases n with
    | form style items =>
        rw [node, node]
        exact agreeAt_form hctx hbackend hlater items
          (fun code h => hquotes code (Node.quotes_form.2 h)) j k hR fun c hc => hshort c (.form hc)
    | _ => cases hform
  · have hform : n.isForm = false := by simpa using hform
    have hn := agreeAt_argument hctx hbackend hlater n hquotes j k hR fun c hc =>
      hshort c (.argument hform hc)
    rw [node_eq_argument hform, node_eq_argument hform]
    refine hn.bind fun v j' k' hv hR' hinside => ?_
    have hmade := (agree_argument hctx likeness_eq hlater.made n hquotes).yields (fun _ => rfl)
      j v j' hv
    exact agreeAt_constant hctx.kind hlater.writable hmade.1 hinside
      (fun c hc => hshort c (.literal hform hv hc)) hR'

/-! ## Captured code -/

/-- However deep the runs go, captured code comes to the same under both settings. -/
theorem parallel_runBody (hctx : ctx.Keeps owner exports Q fun _ => True)
    (hbackend : settings.backend = ctx.settings.backend)
    (hwritable : ∀ code, Q (.captured code) → Node.allWritable code = true)
    (hquotes : ∀ code, Q (.captured code) → ∀ inner, Node.RowQuotes code inner →
      Q (.captured inner)) (depth : Nat) :
    Parallel Q (ctx.runBody depth) ((ctx.under settings).runBody depth) (ctx.BodyBuilds depth) := by
  induction depth with
  | zero =>
      refine ⟨hwritable, fun code hcode => ?_, fun code _ j k hR _ => ?_⟩
      · exact agree_runBody hctx likeness_eq trivial hquotes 0 hcode
      · exact agreeAt_throw _ hR
  | succ depth ih =>
      refine ⟨hwritable, fun code hcode => ?_, fun code hcode j k hR hshort => ?_⟩
      · exact agree_runBody hctx likeness_eq trivial hquotes (depth + 1) hcode
      · have hinner : ∀ inner, Node.RowQuotes (Node.capturedBody code) inner →
            Q (.captured inner) := fun inner h => hquotes code hcode inner h.of_capturedBody
        have hform := agreeAt_form hctx hbackend ih (Node.capturedBody code) hinner j k hR hshort
        rw [runBody_succ, runBody_succ]
        refine hform.bind fun u j' k' hu hR' hlistable => ?_
        have hmade := (agree_form hctx likeness_eq ih.made (Node.capturedBody code) hinner).yields
          (fun _ => rfl) j u j' hu
        exact agreeAt_run hbackend hmade hlistable hR'

/-! ## Whole runs -/

/-- A tree is compiled and run in the same way under both settings. -/
theorem agreeAt_runTree (hctx : ctx.Keeps owner exports Q fun _ => True)
    (hbackend : settings.backend = ctx.settings.backend)
    (hwritable : ∀ code, Q (.captured code) → Node.allWritable code = true)
    (hquotes : ∀ code, Q (.captured code) → ∀ inner, Node.RowQuotes code inner →
      Q (.captured inner)) {n : Node} (hn : ∀ code, n.Quotes code → Q (.captured code))
    {j k : Journal} (hR : SameButPrinted j k)
    (hshort : ∀ c, NodeBuilds ctx (ctx.runBody (ctx.depthFor n)) (ctx.BodyBuilds (ctx.depthFor n)) n
      j c → c.Short) :
    AgreeAt SameButPrinted (fun _ => True) (ctx.runTree n) ((ctx.under settings).runTree n) j
      k := by
  have hlater := parallel_runBody hctx hbackend hwritable hquotes (ctx.depthFor n)
  have hnode := agreeAt_node hctx hbackend hlater hn hR hshort
  rw [runTree, runTree]
  refine hnode.bind fun u j' k' hu hR' hlistable => ?_
  have hmade := (agree_node hctx likeness_eq hlater.made hn).yields (fun _ => rfl) j u j' hu
  exact agreeAt_run hbackend hmade hlistable hR'

end CompileContext

/-- Listings change the output only. In each builtin library, under any two settings with which the
same machine is found, or none, a program has the same outcome: the same value, the same error of
the language, or the same fault. The same calls were asked for on the way, and but for what was
printed the journals are the same. Among the constants of the chunks that are built, integers must
be short enough to be written. -/
theorem printing_changes_output_only {c : LibraryClass} (hc : c ∈ builtinLibraries)
    (modules : List Module) {on off : Settings} (hbackend : on.backend = off.backend)
    {source : String} {j : Journal}
    (hshort : ∀ chunk, (builtinContext modules c off).ProgramBuilds source j chunk →
      chunk.Short) :
    (((builtinContext modules c on).runProgram Observer.silent source).run j).1 =
        (((builtinContext modules c off).runProgram Observer.silent source).run j).1 ∧
      (((builtinContext modules c off).runProgram Observer.silent source).run j).2.SameButPrinted
        (((builtinContext modules c on).runProgram Observer.silent source).run j).2 := by
  have hsource : Tracked.AgreeAt Journal.SameButPrinted (fun _ => True)
      ((builtinContext modules c off).runSource source)
      ((builtinContext modules c on).runSource source) j j := by
    cases hread : read source with
    | error f =>
        rw [CompileContext.runSource, CompileContext.runSource, hread]
        exact agreeAt_throw f ⟨rfl, rfl, rfl⟩
    | ok n =>
        have hctx := keeps_builtin hc modules off (partKind_holding n.Quotes) fun _ _ => trivial
        have hquotes : ∀ code, n.Quotes code → (Value.captured code).Holding n.Quotes :=
          fun code => Value.holding_captured.2
        have hR : j.SameButPrinted j := ⟨rfl, rfl, rfl⟩
        have htree := CompileContext.agreeAt_runTree hctx hbackend
          (fun _ h => h.allWritable (read_readable hread)) (fun _ h _ => h.inner) hquotes hR
          fun chunk h => hshort chunk ⟨n, hread, h⟩
        rw [CompileContext.runSource, CompileContext.runSource, hread]
        exact htree
  rw [CompileContext.run_runProgram, CompileContext.run_runProgram]
  exact ⟨congrArg settled hsource.1, hsource.2.1⟩

/-- A list that is run while the program is being compiled, and is not code. -/
theorem printing_changes_output_only_eval :
    let run (settings : Settings) : Except Failure Outcome × Journal :=
      ((builtinContext [] mathLibrary settings).runProgram Observer.silent "(eval [1])").run
        (.blank 0)
    let listed : Settings := { Settings.none with listingText := some "1" }
    (run .none).1 = .ok (.error (.notCaptured (.list [.number (.int 1)]) 1)) ∧
      listed.listing = true ∧ (run listed).1 = (run .none).1 ∧
        (run .none).2.SameButPrinted (run listed).2 := by
  intro run listed
  have hread : read "(eval [1])" =
      .ok (.form .fixed [.symbol 1 Node.evalName, .list [.number 1 (.int 1)]]) := by
    unfold Node.evalName
    cbv
  -- The list is compiled to a chunk, which is run while the program is being compiled.
  have htarget : ∀ later j, (((builtinContext [] mathLibrary .none).runTarget later
      (.list [.number 1 (.int 1)])).run j).1 = .ok (.list [.number (.int 1)]) := by
    intro later j
    have hplan : ∀ i ∈ (Value.list [.number (.int 1)]).plan [], i.operand ≤ Emit.maxOperand := by
      decide +kernel
    have hconstant := CompileContext.run_ofResult (builtinContext [] mathLibrary .none)
      (v := .list [.number (.int 1)]) rfl
      (by simp [Value.numbers, Value.leaves, Value.leavesOfAll])
      (by simp [Value.MadeOf, Value.leaves, Value.leavesOfAll, Value.Holding, Value.atomic_number])
      (fun h => by cases h) j
    rw [CompileContext.runTarget_eq]
    refine hconstant.resolve_right ?_
    simp [Chunk.ofValue_eq_ok_iff.2 ⟨hplan, rfl⟩]
  have hvalue : (run .none).1 = .ok (.error (.notCaptured (.list [.number (.int 1)]) 1)) := by
    rw [CompileContext.runProgram_of_read hread, CompileContext.runTree, CompileContext.node,
      CompileContext.form_eval rfl, bind_assoc, Tracked.result_bind, htarget]
    rfl
  have hlisting : listed.listing = true := by decide +kernel
  have hmem : mathLibrary ∈ builtinLibraries := by simp [builtinLibraries]
  have hbackend : listed.backend = Settings.none.backend := by
    simp only [Settings.backend, listed]
  refine ⟨hvalue, hlisting, printing_changes_output_only hmem [] hbackend ?_⟩
  -- Nothing but the chunk of the list is built.
  rintro chunk ⟨n, hn, hbuilds⟩
  obtain rfl := Except.ok.inj (hread.symm.trans hn)
  cases hbuilds with
  | argument hform h => cases hform
  | literal hform h hc => cases hform
  | form h =>
    cases h with
    | unwrapped hcode h => cases hcode
    | target hcode h =>
      cases h with
      | list h =>
        cases h with
        | first h => cases h
        | next hn h => cases h
    | literal hcode hform hv hc =>
      obtain rfl := Except.ok.inj (congrArg Prod.fst hv)
      refine Chunk.Short.of_ofValue (fun k hk => ?_) hc
      obtain rfl : k = 1 := by simpa [Value.leaves, Value.leavesOfAll] using hk
      decide
    | later hcode h hc => cases (htarget _ _).symm.trans (congrArg Prod.fst h)
    | result hcode h hlater hv hc => cases (htarget _ _).symm.trans (congrArg Prod.fst h)
    | parameters hproc heval hlibrary h => exact absurd rfl (heval rfl)
    | call hproc heval hlibrary hargs hwritable hc => exact absurd rfl (heval rfl)

end FormLang
