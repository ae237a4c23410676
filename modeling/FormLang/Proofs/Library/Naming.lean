import FormLang.Proofs.Compile.Congruence
import FormLang.Proofs.Compile.Consultation
import FormLang.Proofs.Machine.Errors

set_option autoImplicit false

/-! # A name and what it stands for

A library that is registered can be referred to by its name or handed over itself. Both lead to the
same object, and programs are compiled to the same with both; all that may differ is the name in an
error about the library (`Registry.StandsFor`). A name that nothing is registered under is an import
path, whatever else is registered (`Registry.IsImported`).
-/

namespace FormLang

/-! ## Results up to a name -/

/-- Two results of which errors are a part. Either they are the same; if that is an error about a
library, someone else has raised it. Or they are the same kind of error about the library, each with
a name of its own. -/
inductive SameUpToName {ρ : Type} (error : ProgramError → ρ) (raised : ProgramError → Prop)
    (name name' : String) : ρ → ρ → Prop where
  | same (r : ρ) (h : ∀ e : ProgramError, e.AboutLibrary → r = error e → raised e) :
      SameUpToName error raised name name' r r
  | notFound : SameUpToName error raised name name' (error (.libraryNotFound name))
      (error (.libraryNotFound name'))
  | violation : SameUpToName error raised name name' (error (.contractViolation name))
      (error (.contractViolation name'))

/-- An error that cuts a computation short. -/
def cutShort {α : Type} (e : ProgramError) : Except Failure α := .error (.error e)

/-- An error that is the result of a computation. -/
def answered {α : Type} (e : ProgramError) : Except Failure (Except ProgramError α) := .ok (.error e)

/-! ## Looking for a library -/

/-- What comes of looking for an object that was referred to as `name`: what is made of it, and the
library that this is. -/
structure Host.Offers (h : Host) (name : String) (e : Entity) (found : Except Failure Entity)
    (loaded : Except Failure (Entity × Library)) : Prop where
  made : h.Makes name e found
  served : h.Serves name found loaded

/-- No object is registered under the name. -/
def Registry.Unbound (r : Registry) (name : String) : Prop :=
  ∀ e, r.get? name = some e → e = .value .nothing

namespace Surroundings

variable {s : Surroundings} {name : String} {e : Entity}

/-- The name is registered, for an object that does not stand for anything else. -/
structure Binds (s : Surroundings) (name : String) (e : Entity) : Prop where
  bound : s.registry.get? name = some e
  something : e ≠ .value .nothing
  notText : ∀ text, e ≠ .value (.text text)

theorem Binds.lookup_eq (h : s.Binds name e) : s.lookup name = .ok e := by
  rw [lookup.eq_def, h.bound]
  split
  · next heq => exact absurd (Option.some.inj heq) h.something
  · next heq => cases heq
  · next heq => rw [Option.some.inj heq]

theorem Binds.find_name (h : s.Binds name e) :
    s.find (.ofText name) = s.host.instantiate name e := by
  rw [Entity.ofText, find, h.lookup_eq]
  rfl

theorem Binds.find_self (h : s.Binds name e) :
    s.find e = s.host.instantiate (s.host.name e) e := by
  rw [find.eq_def]
  split
  · exact absurd rfl h.something
  · next text => exact absurd rfl (h.notText text)
  · rfl

theorem Binds.offers_name (h : s.Binds name e) :
    s.host.Offers name e (s.find (.ofText name)) (s.load (.ofText name)) where
  made := h.find_name ▸ s.host.makes_instantiate name e
  served := s.serves_load (.ofText name)

theorem Binds.offers_self (h : s.Binds name e) :
    s.host.Offers (s.host.name e) e (s.find e) (s.load e) where
  made := h.find_self ▸ s.host.makes_instantiate (s.host.name e) e
  served := s.serves_load e

theorem instantiate_upToName (h : Host) (name name' : String) (e : Entity) :
    SameUpToName cutShort h.Raises name name' (h.instantiate name e) (h.instantiate name' e) := by
  cases e with
  | cls c =>
      rw [Host.instantiate, Host.instantiate]
      -- Objects of a class are made in one way, whoever wants one.
      cases hcreation : h.creation c with
      | needsArguments => exact .notFound
      | fails f =>
          refine .same _ fun err _ herr => ?_
          cases herr
          exact .creation hcreation
      | _ => exact .same _ fun _ _ herr => by cases herr
  | _ => exact .same _ fun _ _ herr => by cases herr

/-- Both ways to refer to an object find it, or miss it in the same way. -/
theorem Binds.find_upToName (h : s.Binds name e) :
    SameUpToName cutShort s.host.Raises name (s.host.name e) (s.find (.ofText name))
      (s.find e) := by
  rw [h.find_name, h.find_self]
  exact instantiate_upToName s.host name (s.host.name e) e

theorem Binds.load_upToName (h : s.Binds name e) :
    SameUpToName cutShort s.host.Raises name (s.host.name e) (s.load (.ofText name))
      (s.load e) := by
  rw [load, load]
  have hfind := h.find_upToName
  generalize s.find (.ofText name) = r, s.find e = r' at hfind
  cases hfind with
  | same r hr =>
      cases r with
      | error f => exact .same _ fun err habout hf => hr err habout (by cases hf; rfl)
      | ok found =>
          simp only [bind, Except.bind]
          rcases hlibrary : s.host.library found with f | _ | library
          · refine .same _ fun err _ herr => ?_
            cases herr
            exact .library hlibrary
          · exact .violation
          · exact .same _ fun _ _ herr => by cases herr
  | notFound => exact .notFound
  | violation => exact .violation

/-- A name under which no object is registered is an import path. -/
theorem lookup_of_unbound (h : s.registry.Unbound name) : s.lookup name = s.host.importPath name := by
  rw [lookup.eq_def]
  split
  · rfl
  · rfl
  · next e hsomething hget => exact absurd (h e hget) hsomething

theorem find_of_unbound (h : s.registry.Unbound name) :
    s.find (.ofText name) = s.host.importPath name >>= s.host.instantiate name := by
  rw [Entity.ofText, find, lookup_of_unbound h]

/-- What is imported is a matter of the host alone. -/
theorem load_of_unbound {r : Registry} (h : s.registry.Unbound name) (hr : r.Unbound name) :
    s.load (.ofText name) = load ⟨s.host, r⟩ (.ofText name) := by
  have hfind : s.find (.ofText name) = find ⟨s.host, r⟩ (.ofText name) := by
    rw [find_of_unbound h, find_of_unbound (s := ⟨s.host, r⟩) hr]
  rw [load, load, hfind]

end Surroundings

/-! ## Compiling -/

namespace Action

variable {raised : ProgramError → Prop} {name name' : String} {α β : Type} {x y : Action α}
  {g g' : α → Action β}

/-- The actions are seen to do the same, and come to the same up to the name in an error about the
library. -/
def AlikeUpToName (raised : ProgramError → Prop) (name name' : String) (α : Type)
    (x y : Action α) : Prop :=
  ∀ j, (x.run j).2 = (y.run j).2 ∧
    SameUpToName cutShort raised name name' (x.run j).1 (y.run j).1

theorem alikeUpToName_self (h : ∀ j e, (x.run j).1 = cutShort e → e.AboutLibrary → raised e) :
    AlikeUpToName raised name name' α x x :=
  fun j => ⟨rfl, .same _ fun e habout hrun => h j e hrun habout⟩

theorem AlikeUpToName.bind (hx : AlikeUpToName raised name name' α x y)
    (hg : ∀ a, AlikeUpToName raised name name' β (g a) (g' a)) :
    AlikeUpToName raised name name' β (x >>= g) (y >>= g') := by
  intro j
  obtain ⟨hjournal, hresult⟩ := hx j
  rcases hxj : x.run j with ⟨r, k⟩
  rcases hyj : y.run j with ⟨r', k'⟩
  rw [hxj, hyj] at hjournal hresult
  obtain rfl : k = k' := hjournal
  -- Behind a result both go on with it; behind an error neither does.
  cases hresult with
  | same r hr =>
      cases r with
      | ok a =>
          rw [Tracked.run_bind_of_ok hxj, Tracked.run_bind_of_ok hyj]
          exact hg a k
      | error f =>
          rw [Tracked.run_bind_of_error hxj, Tracked.run_bind_of_error hyj]
          exact ⟨rfl, .same _ fun e habout hf => hr e habout (by cases hf; rfl)⟩
  | notFound =>
      rw [Tracked.run_bind_of_error hxj, Tracked.run_bind_of_error hyj]
      exact ⟨rfl, .notFound⟩
  | violation =>
      rw [Tracked.run_bind_of_error hxj, Tracked.run_bind_of_error hyj]
      exact ⟨rfl, .violation⟩

/-- Errors that are caught are results. -/
theorem AlikeUpToName.catchError (h : AlikeUpToName raised name name' α x y) (j : Journal) :
    ((catchError x).run j).2 = ((catchError y).run j).2 ∧
      SameUpToName answered raised name name' ((catchError x).run j).1 ((catchError y).run j).1 := by
  obtain ⟨hjournal, hresult⟩ := h j
  rw [run_catchError, run_catchError]
  generalize x.run j = p, y.run j = p' at hjournal hresult
  obtain ⟨r, k⟩ := p
  obtain ⟨r', k'⟩ := p'
  obtain rfl : k = k' := hjournal
  cases hresult with
  | same r hr =>
      rcases r with (e | f | label) | a
      · exact ⟨rfl, .same _ fun e' habout he => hr e' habout (by cases he; rfl)⟩
      · exact ⟨rfl, .same _ fun e' _ he => by cases he⟩
      · exact ⟨rfl, .same _ fun e' _ he => by cases he⟩
      · exact ⟨rfl, .same _ fun e' _ he => by cases he⟩
  | notFound => exact ⟨rfl, .notFound⟩
  | violation => exact ⟨rfl, .violation⟩

end Action

namespace Surroundings

variable {s : Surroundings} {name : String} {e : Entity} {apply : Apply} {settings : Settings}
  {reserve : Nat}

/-- A function answers with the error, the library that the reference leads to does, or the host
raises it. -/
def Raises (s : Surroundings) (ref : Entity) (apply : Apply) (e : ProgramError) : Prop :=
  apply.Raises e ∨ s.host.Raises e ∨ ∃ found library r, s.load ref = .ok (found, library) ∧
    library.resolve r = .error (.error e)

/-- The compiler for a name and the one for the object that it stands for take the same steps. -/
theorem Binds.related (h : s.Binds name e) :
    CompileContext.Related (Action.AlikeUpToName (s.Raises e apply) name (s.host.name e))
      (.ofReference s (.ofText name) apply settings reserve)
      (.ofReference s e apply settings reserve) where
  pure a := Action.alikeUpToName_self fun _ _ hrun => by cases hrun
  bind := Action.AlikeUpToName.bind
  request r := Action.alikeUpToName_self fun _ _ hrun => by cases hrun
  fault f := Action.alikeUpToName_self fun _ _ hrun => by cases hrun
  complaint err hplain := Action.alikeUpToName_self fun _ _ hrun habout => by
    cases hrun
    exact absurd habout hplain
  evaluate unit := Action.alikeUpToName_self fun _ _ hrun _ => .inl (raises_of_evaluate hrun)
  library := by
    have hload := h.load_upToName
    simp only [CompileContext.ofReference]
    generalize hname : s.load (.ofText name) = r, hself : s.load e = r' at hload
    cases hload with
    | same r hr =>
        cases r with
        | error f =>
            refine .inl ⟨f, f, rfl, rfl, Action.alikeUpToName_self fun _ err hrun habout => ?_⟩
            cases hrun
            exact .inr (.inl (hr err habout rfl))
        | ok found =>
            refine .inr ⟨found.2, rfl, rfl, fun r => ?_⟩
            exact Action.alikeUpToName_self fun _ err hrun _ =>
              .inr (.inr ⟨_, _, r, hself, hrun⟩)
    | notFound => exact .inl ⟨_, _, rfl, rfl, fun j => ⟨rfl, .notFound⟩⟩
    | violation => exact .inl ⟨_, _, rfl, rfl, fun j => ⟨rfl, .violation⟩⟩
  violation := fun j => ⟨rfl, .violation⟩

/-- Compiling against a name is compiling against the object that the name stands for. -/
theorem Binds.compile_upToName (h : s.Binds name e) (n : Node) (j : Journal) :
    let byName := (compile (.ofReference s (.ofText name) apply settings reserve) n).run j
    let byItself := (compile (.ofReference s e apply settings reserve) n).run j
    byName.2 = byItself.2 ∧
      SameUpToName answered (s.Raises e apply) name (s.host.name e) byName.1 byItself.1 :=
  (h.related.node (h.related.runBody _) n).catchError j

end Surroundings

/-! ## What a name means -/

namespace Registry

open Surroundings

variable {r : Registry} {name : String} {e : Entity}

/-- A name is as good as an object, whatever the host answers: both lead to what is made of the
object, and programs are compiled against the one as they are against the other. -/
structure StandsFor (r : Registry) (name : String) (e : Entity) : Prop where
  byName : ∀ h : Host, h.Offers name e (find ⟨h, r⟩ (.ofText name)) (load ⟨h, r⟩ (.ofText name))
  byItself : ∀ h : Host, h.Offers (h.name e) e (find ⟨h, r⟩ e) (load ⟨h, r⟩ e)
  /-- Of a class, objects are made anew each time. -/
  afresh : ∀ (h h' : Host) c, e = .cls c → h.creation c = .plain → h'.creation c = .plain →
    h.moment ≠ h'.moment → ∀ ref ∈ [.ofText name, e], ∀ ref' ∈ [.ofText name, e],
      find ⟨h, r⟩ ref ≠ find ⟨h', r⟩ ref'
  compiled : ∀ (h : Host) apply settings reserve n j,
    let byName := (compile (.ofReference ⟨h, r⟩ (.ofText name) apply settings reserve) n).run j
    let byItself := (compile (.ofReference ⟨h, r⟩ e apply settings reserve) n).run j
    byName.2 = byItself.2 ∧
      SameUpToName answered (Raises ⟨h, r⟩ e apply) name (h.name e) byName.1 byItself.1

/-- A name is an import path, whatever the host answers, and means the same as if nothing else was
registered. -/
structure IsImported (r : Registry) (name : String) : Prop where
  found : ∀ h : Host,
    (∃ e, h.Imports name (.ok e) ∧
      h.Offers name e (find ⟨h, r⟩ (.ofText name)) (load ⟨h, r⟩ (.ofText name))) ∨
    ∃ f, h.Imports name (.error f) ∧ find ⟨h, r⟩ (.ofText name) = .error f ∧
      load ⟨h, r⟩ (.ofText name) = .error f
  compiled : ∀ (h : Host) apply settings reserve n,
    compile (.ofReference ⟨h, r⟩ (.ofText name) apply settings reserve) n =
      compile (.ofReference ⟨h, .empty⟩ (.ofText name) apply settings reserve) n

theorem standsFor (hbound : r.get? name = some e) (hsomething : e ≠ .value .nothing)
    (htext : ∀ text, e ≠ .value (.text text)) : r.StandsFor name e := by
  have hbinds : ∀ h : Host, Binds ⟨h, r⟩ name e := fun h => ⟨hbound, hsomething, htext⟩
  refine ⟨fun h => (hbinds h).offers_name, fun h => (hbinds h).offers_self, ?_,
    fun h apply settings reserve n j => (hbinds h).compile_upToName n j⟩
  rintro h h' c rfl hplain hplain' hmoment
  -- Both references lead to an object that bears the moment.
  have hfresh : ∀ k : Host, k.creation c = .plain → ∀ ref ∈ [.ofText name, .cls c],
      find ⟨k, r⟩ ref = .ok (.object c (.made k.moment)) := by
    intro k hk ref href
    obtain rfl | rfl : ref = .ofText name ∨ ref = .cls c := by simpa using href
    · rw [(hbinds k).find_name, Host.instantiate, hk]
    · rw [(hbinds k).find_self, Host.instantiate, hk]
  intro ref href ref' href'
  rw [hfresh h hplain ref href, hfresh h' hplain' ref' href']
  simpa using hmoment

theorem isImported (hunbound : r.Unbound name) : r.IsImported name where
  found h := by
    have himports := h.imports_importPath name
    have hfind : find ⟨h, r⟩ (.ofText name) = h.importPath name >>= h.instantiate name :=
      find_of_unbound hunbound
    have hserves := serves_load ⟨h, r⟩ (.ofText name)
    rcases hpath : h.importPath name with f | e <;> rw [hpath] at himports hfind
    · refine .inr ⟨f, himports, hfind, ?_⟩
      rw [hfind] at hserves
      generalize load ⟨h, r⟩ (.ofText name) = loaded at hserves
      cases hserves
      rfl
    · exact .inl ⟨e, himports, hfind ▸ h.makes_instantiate name e, hserves⟩
  compiled h apply settings reserve n := by
    have hempty : Registry.empty.Unbound name := fun _ hget => by cases hget
    rw [CompileContext.ofReference, CompileContext.ofReference,
      load_of_unbound (s := ⟨h, r⟩) hunbound hempty]

end Registry

end FormLang
