import FormLang.Library.Tables
import FormLang.Proofs.Library.Naming
import FormLang.Proofs.Observer
import Mathlib.Data.List.Sort
import Mathlib.Data.String.Basic

set_option autoImplicit false

/-! # A registry in use

However a registry was used, a name in it means what was registered last. Registering and removing a
name decide what it stands for from then on, and nothing else does (`RegistryUse.get?_after`). What
is answered depends on what the names stand for and on nothing else that was done before
(`RegistryUse.answers_congr`). And to stand for an object is to be as good as the object
(`names_mean_what_is_registered`).
-/

namespace FormLang

/-! ## Registries -/

namespace Registry

variable {r r' : Registry} {name : String}

theorem lookup_filter_ne (entries : List (String × Entity)) (name name' : String) :
    (entries.filter (·.1 != name)).lookup name' =
      if name' = name then none else entries.lookup name' := by
  induction entries with
  | nil => simp
  | cons entry entries ih =>
      obtain ⟨key, e⟩ := entry
      by_cases hkey : key = name
      · subst hkey
        rw [List.filter_cons_of_neg (by simp), ih]
        split
        · rfl
        · next hne => rw [List.lookup_cons, beq_eq_false_iff_ne.2 hne]
      · rw [List.filter_cons_of_pos (by simpa using hkey), List.lookup_cons, List.lookup_cons, ih]
        by_cases hname : name' = key
        · simp [hname, hkey]
        · simp [beq_eq_false_iff_ne.2 hname]

theorem get?_unregister (r : Registry) (name name' : String) :
    (r.unregister name).get? name' = if name' = name then none else r.get? name' :=
  lookup_filter_ne r.entries name name'

theorem get?_register (r : Registry) (name name' : String) (e : Entity) :
    (r.register name e).get? name' = if name' = name then some e else r.get? name' := by
  show ((name, e) :: (r.unregister name).entries).lookup name' = _
  rw [List.lookup_cons]
  by_cases hname : name' = name
  · simp [hname]
  · rw [beq_eq_false_iff_ne.2 hname, if_neg hname]
    exact (get?_unregister r name name').trans (if_neg hname)

theorem mem_names : name ∈ r.names ↔ (r.get? name).isSome = true := by
  rw [names, List.mem_mergeSort, get?, List.lookup_isSome_iff, List.mem_map]
  constructor
  · rintro ⟨entry, hentry, rfl⟩
    exact ⟨entry, hentry, beq_self_eq_true _⟩
  · rintro ⟨entry, hentry, hname⟩
    exact ⟨entry, hentry, (eq_of_beq hname).symm⟩

/-- The names are in order, and each of them is there once. -/
theorem sortedLT_names (r : Registry) : r.names.SortedLT := by
  have hsorted : r.names.SortedLE := (List.pairwise_mergeSort' (· ≤ ·) _).sortedLE
  exact hsorted.sortedLT_of_nodup ((List.mergeSort_perm _ _).nodup_iff.2 r.distinct)

/-- The names stand for the same objects in both registries. -/
def SameBindings (r r' : Registry) : Prop := ∀ name, r.get? name = r'.get? name

theorem SameBindings.names_eq (h : r.SameBindings r') : r.names = r'.names := by
  refine r.sortedLT_names.eq_of_mem_iff r'.sortedLT_names fun name => ?_
  rw [mem_names, mem_names, h name]

theorem SameBindings.find_eq (h : r.SameBindings r') (host : Host) (ref : Entity) :
    Surroundings.find ⟨host, r⟩ ref = Surroundings.find ⟨host, r'⟩ ref := by
  have hlookup : ∀ text, Surroundings.lookup ⟨host, r⟩ text =
      Surroundings.lookup ⟨host, r'⟩ text := by
    intro text
    rw [Surroundings.lookup, Surroundings.lookup, h text]
  rw [Surroundings.find.eq_def, Surroundings.find.eq_def]
  simp only [hlookup]

theorem SameBindings.load_eq (h : r.SameBindings r') (host : Host) (ref : Entity) :
    Surroundings.load ⟨host, r⟩ ref = Surroundings.load ⟨host, r'⟩ ref := by
  rw [Surroundings.load, Surroundings.load, h.find_eq]

end Registry

/-! ## Steps -/

/-- What is done with a registry, or asked of it. Looking for an object and compiling a program have
to do with what the host answers just then, and with what functions do. -/
inductive RegistryStep where
  | register (name : String) (e : Entity)
  | unregister (name : String)
  | get (name : String)
  | contains (name : String)
  | names
  | find (host : Host) (ref : Entity)
  | compile (host : Host) (ref : Entity) (apply : Apply) (settings : Settings) (reserve : Nat)
      (program : Node)

/-- What there is to answer. -/
inductive RegistryAnswer where
  | object (e : Entity)
  | truth (b : Bool)
  | names (names : List String)
  | unit (result : Except ProgramError Compiled)

/-- A registry, and what was seen of the programs that were compiled against it. -/
structure RegistryUse where
  registry : Registry
  journal : Journal

/-- What a step makes a name stand for: an object, or nothing at all. Most steps do not have to do
with what names stand for. -/
def RegistryStep.decides? (name : String) : RegistryStep → Option (Option Entity)
  | .register name' e => if name = name' then some (some e) else none
  | .unregister name' => if name = name' then some none else none
  | _ => none

/-- What a name stands for after some steps, the last of which that has to do with it decides. -/
def Registry.meaning? (r : Registry) (steps : List RegistryStep) (name : String) : Option Entity :=
  (steps.reverse.findSome? (·.decides? name)).getD (r.get? name)

namespace RegistryUse

variable {u u' : RegistryUse}

/-- Takes a step, which comes to an answer or fails. -/
def step (u : RegistryUse) : RegistryStep → Except Failure RegistryAnswer × RegistryUse
  | .register name e => (.ok (.object e), { u with registry := u.registry.register name e })
  | .unregister name =>
    (.ok (.object (.value .nothing)), { u with registry := u.registry.unregister name })
  | .get name => (.ok (.object ((u.registry.get? name).getD (.value .nothing))), u)
  | .contains name => (.ok (.truth (u.registry.contains name)), u)
  | .names => (.ok (.names u.registry.names), u)
  | .find host ref => ((Surroundings.find ⟨host, u.registry⟩ ref).map .object, u)
  | .compile host ref apply settings reserve program =>
    let ctx := CompileContext.ofReference ⟨host, u.registry⟩ ref apply settings reserve
    let (result, journal) := (FormLang.compile ctx program).run u.journal
    (result.map .unit, { u with journal })

/-- What is there after some steps, whether or not they fail. -/
def after (u : RegistryUse) (steps : List RegistryStep) : RegistryUse :=
  steps.foldl (fun u s => (u.step s).2) u

/-- What some steps answer, one after the other. -/
def answers (u : RegistryUse) : List RegistryStep → List (Except Failure RegistryAnswer)
  | [] => []
  | s :: steps => (u.step s).1 :: (u.step s).2.answers steps

theorem after_snoc (u : RegistryUse) (steps : List RegistryStep) (s : RegistryStep) :
    u.after (steps ++ [s]) = ((u.after steps).step s).2 := by
  rw [after, List.foldl_append]
  rfl

/-! ### What names stand for -/

theorem get?_step (u : RegistryUse) (s : RegistryStep) (name : String) :
    (u.step s).2.registry.get? name = (s.decides? name).getD (u.registry.get? name) := by
  cases s with
  | register name' e =>
      rw [step, RegistryStep.decides?]
      refine (u.registry.get?_register name' name e).trans ?_
      split <;> rfl
  | unregister name' =>
      rw [step, RegistryStep.decides?]
      refine (u.registry.get?_unregister name' name).trans ?_
      split <;> rfl
  | _ => rfl

/-- After any steps a name stands for what the last step that has to do with it has decided. -/
theorem get?_after (u : RegistryUse) (steps : List RegistryStep) (name : String) :
    (u.after steps).registry.get? name = u.registry.meaning? steps name := by
  induction steps using List.reverseRecOn with
  | nil => rfl
  | append_singleton steps s ih =>
      rw [after_snoc, get?_step, ih, Registry.meaning?, Registry.meaning?, List.reverse_append,
        List.reverse_singleton, List.singleton_append, List.findSome?_cons]
      cases s.decides? name <;> rfl

/-! ### Nothing else is remembered -/

/-- The names stand for the same, and the next mark for an undefined number is the same. -/
structure Alike (u u' : RegistryUse) : Prop where
  bindings : u.registry.SameBindings u'.registry
  journal : u.journal.SameMark u'.journal

theorem alike_step (h : u.Alike u') (s : RegistryStep) :
    (u.step s).1 = (u'.step s).1 ∧ (u.step s).2.Alike (u'.step s).2 := by
  have hbindings : (u.step s).2.registry.SameBindings (u'.step s).2.registry := by
    intro name
    rw [get?_step, get?_step, h.bindings name]
  cases s with
  | get name => exact ⟨by rw [step, step, h.bindings name], hbindings, h.journal⟩
  | contains name =>
      exact ⟨by rw [step, step, Registry.contains, Registry.contains, h.bindings name], hbindings,
        h.journal⟩
  | names => exact ⟨by rw [step, step, h.bindings.names_eq], hbindings, h.journal⟩
  | find host ref => exact ⟨by rw [step, step, h.bindings.find_eq], hbindings, h.journal⟩
  | compile host ref apply settings reserve program =>
      have hctx :
          CompileContext.ofReference ⟨host, u.registry⟩ ref apply settings reserve =
            .ofReference ⟨host, u'.registry⟩ ref apply settings reserve := by
        rw [CompileContext.ofReference, CompileContext.ofReference, h.bindings.load_eq]
      -- Of what was seen before, compiling knows the next mark only.
      obtain ⟨hresult, hmark, -⟩ :=
        matches_compile (.ofReference ⟨host, u'.registry⟩ ref apply settings reserve) program _
          likeness_sameMark u.journal u'.journal h.journal
      rw [← hctx] at hresult hmark
      refine ⟨?_, hbindings, ?_⟩
      · rw [step, step, ← hctx]
        exact congrArg (Except.map RegistryAnswer.unit) hresult.symm
      · rw [step, step, ← hctx]
        exact hmark
  | _ => exact ⟨rfl, hbindings, h.journal⟩

theorem answers_congr (h : u.Alike u') (steps : List RegistryStep) :
    u.answers steps = u'.answers steps := by
  induction steps generalizing u u' with
  | nil => rfl
  | cons s steps ih =>
      obtain ⟨hanswer, hafter⟩ := alike_step h s
      rw [answers, answers, hanswer, ih hafter]

end RegistryUse

/-! ## Names and what they stand for -/

/-- After any steps with a registry, its content is what the last registrations and removals have
left, and its names are listed in order, each of them once. A name that now stands for an object
means the object, whatever the host answers: it leads to it, and programs are compiled to the same, up
to the name in an error about the library. A name that stands for nothing now is an import path,
whatever it was before. And other steps from another registry that have left the same answer all
questions from now on in the same way. -/
theorem names_mean_what_is_registered (u : RegistryUse) (steps : List RegistryStep) :
    let now := u.after steps
    let meaning? := u.registry.meaning? steps
    (∀ name, now.registry.get? name = meaning? name ∧
      now.registry.contains name = (meaning? name).isSome ∧
      (name ∈ now.registry.names ↔ (meaning? name).isSome = true)) ∧
    now.registry.names.SortedLT ∧
    (∀ name e, meaning? name = some e → e ≠ .value .nothing → (∀ text, e ≠ .value (.text text)) →
      now.registry.StandsFor name e) ∧
    (∀ name, (∀ e, meaning? name = some e → e = .value .nothing) →
      now.registry.IsImported name) ∧
    ∀ (u' : RegistryUse) (steps' : List RegistryStep),
      (∀ name, u'.registry.meaning? steps' name = meaning? name) →
      (u'.after steps').journal.SameMark now.journal →
      ∀ later, (u'.after steps').answers later = now.answers later := by
  intro now meaning?
  have hget : ∀ name, now.registry.get? name = meaning? name := u.get?_after steps
  refine ⟨fun name => ⟨hget name, ?_, ?_⟩, now.registry.sortedLT_names, ?_, ?_, ?_⟩
  · rw [Registry.contains, hget name]
  · rw [Registry.mem_names, hget name]
  · intro name e hname hsomething htext
    exact Registry.standsFor ((hget name).trans hname) hsomething htext
  · intro name hunbound
    exact Registry.isImported fun e he => hunbound e ((hget name).symm.trans he)
  · intro u' steps' hsame hmark later
    refine RegistryUse.answers_congr ⟨fun name => ?_, hmark⟩ later
    calc (u'.after steps').registry.get? name
        = u'.registry.meaning? steps' name := u'.get?_after steps' name
      _ = meaning? name := hsame name
      _ = now.registry.get? name := (hget name).symm

/-- A name that stood for a library, and now stands for a class of which no object can be made; and a
name that was taken out. -/
theorem names_mean_what_is_registered_rebound :
    let u : RegistryUse := ⟨.empty, .blank 0⟩
    let host := (Tables.samples []).host 0
    let registered : RegistryStep := .register "lib" (.cls "NeedsConfig")
    let steps : List RegistryStep := [.register "lib" (.object "Mathematician" (.standing 0)),
      .compile host (.ofText "lib") Callable.apply .none 0 (.form .fixed []), .unregister "gone",
      registered]
    let now := (u.after steps).registry
    let compiled (ref : Entity) : Action (Except ProgramError Compiled) :=
      compile (.ofReference ⟨host, now⟩ ref Callable.apply .none 0) (.form .fixed [.symbol 1 "f"])
    now.StandsFor "lib" (.cls "NeedsConfig") ∧
      compiled (.ofText "lib") = pure (.error (.libraryNotFound "lib")) ∧
      compiled (.cls "NeedsConfig") = pure (.error (.libraryNotFound "NeedsConfig")) ∧
      now.IsImported "gone" ∧
      ∀ later, (u.after [registered]).answers later = (u.after steps).answers later := by
  intro u host registered steps now compiled
  obtain ⟨-, -, hstands, himported, hlater⟩ := names_mean_what_is_registered u steps
  have hlib : u.registry.meaning? steps "lib" = some (.cls "NeedsConfig") := rfl
  have hgone : u.registry.meaning? steps "gone" = none := rfl
  refine ⟨hstands "lib" _ hlib (by simp) (by simp), rfl, rfl, himported "gone" (by simp [hgone]), ?_⟩
  refine hlater u [registered] (fun name => ?_) rfl
  by_cases hname : name = "lib"
  · subst hname
    rfl
  · -- What was taken out was not there.
    have hempty : ∀ name, u.registry.get? name = none := fun _ => rfl
    by_cases htaken : name = "gone" <;>
      simp [Registry.meaning?, RegistryStep.decides?, steps, registered, hname, htaken, hempty]

end FormLang
