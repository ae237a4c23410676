import FormLang.Library.Find
import FormLang.Proofs.Tracked
import Mathlib.Data.List.TakeWhile

set_option autoImplicit false

/-! # Where references lead

What an import path leads to (`Host.Imports`), what is made of an object (`Host.Makes`) and which
library that is (`Host.Serves`) is said here case by case, by what the host answers. References lead
there and nowhere else. An error of the language on the way is one of the host's own, or says that
the library is missing or is none (`Surroundings.error_of_load`).
-/

namespace FormLang

/-! ## Import paths -/

/-- A path is the name of a module, or it has a colon: then the module is in front of the first
one, and behind it stand names of attributes between dots, of which empty ones do not count. -/
inductive IsPath (path : String) : String → List String → Prop where
  | bare (hcolon : ':' ∉ path.toList) : IsPath path path []
  | attributes {module behind : String} (hpath : path = module ++ ":" ++ behind)
      (hcolon : ':' ∉ module.toList) :
      IsPath path module (((behind.toList.splitOn '.').filter (!·.isEmpty)).map String.ofList)

theorem splitFrom_dot (cs piece : List Char) (done : List (List Char)) :
    splitFrom ['.'] done piece 0 cs =
      done.reverse ++ List.splitOnPPrepend (· == '.') cs piece := by
  induction cs generalizing piece done with
  | nil => simp [splitFrom]
  | cons c cs ih =>
      rw [splitFrom, List.splitOnPPrepend_cons_eq_if]
      by_cases hc : c = '.'
      · subst hc
        simp [ih]
      · simp [hc, ih, Ne.symm hc]

theorem splitAtSeparator_dot (cs : List Char) : splitAtSeparator ['.'] cs = cs.splitOn '.' := by
  rw [splitAtSeparator, splitFrom_dot]
  rfl

theorem isPath_splitPath (path : String) : IsPath path (splitPath path).1 (splitPath path).2 := by
  have hcut := List.takeWhile_append_dropWhile (p := (· != ':')) (l := path.toList)
  have hcolon : ':' ∉ path.toList.takeWhile (· != ':') := fun h => by
    simpa using List.mem_takeWhile_imp h
  rw [splitPath]
  dsimp only
  rw [splitAtSeparator_dot]
  rcases hrest : path.toList.dropWhile (· != ':') with _ | ⟨c, behind⟩
  · rw [hrest, List.append_nil] at hcut
    rw [hcut] at hcolon ⊢
    simpa using IsPath.bare hcolon
  · -- What is left begins with the colon.
    have hc : c = ':' := by
      have hhead := List.head?_dropWhile_not (· != ':') path.toList
      rw [hrest] at hhead
      simpa using hhead
    subst hc
    rw [hrest] at hcut
    have hpath : path = String.ofList (path.toList.takeWhile (· != ':')) ++ ":" ++
        String.ofList behind := by
      rw [← String.toList_inj]
      simpa using hcut.symm
    simpa using IsPath.attributes hpath (by simpa using hcolon)

theorem isRelative_iff {module : String} :
    isRelative module = true ↔ module = "" ∨ ∃ cs, module.toList = '.' :: cs := by
  rw [isRelative]
  rcases hcs : module.toList with _ | ⟨c, cs⟩
  · have hmodule : module = "" := by
      rw [← String.toList_inj]
      exact hcs
    simp [hmodule]
  · have hmodule : module ≠ "" := by
      rintro rfl
      cases hcs
    simp [hmodule]

namespace Host

/-- Where the names of attributes lead from an object on, in a path. -/
inductive Follows (h : Host) (path : String) :
    Entity → List String → Except Failure Entity → Prop where
  | arrived (e : Entity) : Follows h path e [] (.ok e)
  | next {e e' : Entity} {name : String} {names : List String} {r : Except Failure Entity}
      (hattribute : h.attributeOf e name = .ok (some e')) (hnext : Follows h path e' names r) :
      Follows h path e (name :: names) r
  | lacks {e : Entity} {name : String} {names : List String}
      (hattribute : h.attributeOf e name = .ok none) :
      Follows h path e (name :: names) (.error (.error (.libraryNotFound path)))
  | fails {e : Entity} {name : String} {names : List String} {f : Failure}
      (hattribute : h.attributeOf e name = .error f) :
      Follows h path e (name :: names) (.error f)

/-- Where an import path leads. A module without a name, or one that is relative to a package, is
not even asked for. -/
inductive Imports (h : Host) (path : String) : Except Failure Entity → Prop where
  | relative {module : String} {names : List String} (hpath : IsPath path module names)
      (hrelative : module = "" ∨ ∃ cs, module.toList = '.' :: cs) :
      Imports h path (.error (.error (.libraryNotFound path)))
  | missing {module : String} {names : List String} (hpath : IsPath path module names)
      (hmodule : h.importModule module = .ok none) :
      Imports h path (.error (.error (.libraryNotFound path)))
  | fails {module : String} {names : List String} {f : Failure} (hpath : IsPath path module names)
      (habsolute : module ≠ "" ∧ ∀ cs, module.toList ≠ '.' :: cs)
      (hmodule : h.importModule module = .error f) : Imports h path (.error f)
  | found {module : String} {names : List String} {e : Entity} {r : Except Failure Entity}
      (hpath : IsPath path module names)
      (habsolute : module ≠ "" ∧ ∀ cs, module.toList ≠ '.' :: cs)
      (hmodule : h.importModule module = .ok (some e)) (hfollows : h.Follows path e names r) :
      Imports h path r

/-- What is made of an object that was referred to as `name`. Of a class it is a new object, if one
can be made without arguments; anything else is left as it is. -/
inductive Makes (h : Host) (name : String) : Entity → Except Failure Entity → Prop where
  | itself {e : Entity} (he : ∀ c, e ≠ .cls c) : Makes h name e (.ok e)
  | afresh {c : String} (hcreation : h.creation c = .plain) :
      Makes h name (.cls c) (.ok (.object c (.made h.moment)))
  | refused {c : String} (hcreation : h.creation c = .needsArguments) :
      Makes h name (.cls c) (.error (.error (.libraryNotFound name)))
  | fails {c : String} {f : Failure} (hcreation : h.creation c = .fails f) :
      Makes h name (.cls c) (.error f)
  | gives {c : String} {e : Entity} (hcreation : h.creation c = .gives e) :
      Makes h name (.cls c) (.ok e)

/-- The library that an object is, which was referred to as `name` and was found or not. -/
inductive Serves (h : Host) (name : String) :
    Except Failure Entity → Except Failure (Entity × Library) → Prop where
  | lost (f : Failure) : Serves h name (.error f) (.error f)
  | library {e : Entity} {l : Library} (hlibrary : h.library e = .ok (some l)) :
      Serves h name (.ok e) (.ok (e, l))
  | violation {e : Entity} (hlibrary : h.library e = .ok none) :
      Serves h name (.ok e) (.error (.error (.contractViolation name)))
  | fails {e : Entity} {f : Failure} (hlibrary : h.library e = .error f) :
      Serves h name (.ok e) (.error f)

/-- An error of the language that the host itself raises, whatever it is asked. -/
inductive Raises (h : Host) (err : ProgramError) : Prop where
  | creation {c : String} (hraises : h.creation c = .fails (.error err))
  | importing {module : String} (hraises : h.importModule module = .error (.error err))
  | attribute {e : Entity} {name : String} (hraises : h.attributeOf e name = .error (.error err))
  | library {e : Entity} (hraises : h.library e = .error (.error err))

variable {h : Host} {path name : String} {e : Entity} {names : List String} {err : ProgramError}
  {r : Except Failure Entity}

theorem follows_follow (h : Host) (path : String) (e : Entity) (names : List String) :
    h.Follows path e names (h.follow path e names) := by
  induction names generalizing e with
  | nil => exact .arrived e
  | cons name names ih =>
      rw [follow]
      rcases hattribute : h.attributeOf e name with f | _ | e'
      · exact .fails hattribute
      · exact .lacks hattribute
      · exact .next hattribute (ih e')

theorem imports_importPath (h : Host) (path : String) : h.Imports path (h.importPath path) := by
  have hpath := isPath_splitPath path
  rw [importPath]
  generalize splitPath path = parts at hpath ⊢
  obtain ⟨module, names⟩ := parts
  dsimp only at hpath ⊢
  by_cases hrelative : isRelative module = true
  · rw [if_pos hrelative]
    exact .relative hpath (isRelative_iff.1 hrelative)
  · rw [if_neg hrelative]
    rw [isRelative_iff, not_or, not_exists] at hrelative
    rcases hmodule : h.importModule module with f | _ | e
    · exact .fails hpath hrelative hmodule
    · exact .missing hpath hmodule
    · exact .found hpath hrelative hmodule (h.follows_follow path e names)

theorem makes_instantiate (h : Host) (name : String) (e : Entity) :
    h.Makes name e (h.instantiate name e) := by
  cases e with
  | cls c =>
      rw [instantiate]
      cases hcreation : h.creation c with
      | plain => exact .afresh hcreation
      | needsArguments => exact .refused hcreation
      | fails f => exact .fails hcreation
      | gives e => exact .gives hcreation
  | _ => exact .itself fun _ => by simp

theorem Follows.raises (hfollows : h.Follows path e names r) (hr : r = .error (.error err)) :
    h.Raises err ∨ err = .libraryNotFound path := by
  induction hfollows with
  | arrived => cases hr
  | next _ _ ih => exact ih hr
  | lacks =>
      cases hr
      exact .inr rfl
  | fails hattribute =>
      cases hr
      exact .inl (.attribute hattribute)

theorem Imports.raises (himports : h.Imports path (.error (.error err))) :
    h.Raises err ∨ err = .libraryNotFound path := by
  cases himports with
  | relative => exact .inr rfl
  | missing => exact .inr rfl
  | fails _ _ hmodule => exact .inl (.importing hmodule)
  | found _ _ _ hfollows => exact hfollows.raises rfl

theorem Makes.raises (hmakes : h.Makes name e (.error (.error err))) :
    h.Raises err ∨ err = .libraryNotFound name := by
  cases hmakes with
  | refused => exact .inr rfl
  | fails hcreation => exact .inl (.creation hcreation)

end Host

namespace Surroundings

variable {s : Surroundings} {ref : Entity} {text : String} {err : ProgramError}

theorem error_of_lookup (h : s.lookup text = .error (.error err)) :
    s.host.Raises err ∨ err = .libraryNotFound text := by
  rw [lookup.eq_def] at h
  split at h
  · exact (h ▸ s.host.imports_importPath text).raises
  · exact (h ▸ s.host.imports_importPath text).raises
  · cases h

theorem error_of_find (h : s.find ref = .error (.error err)) :
    s.host.Raises err ∨ ∃ name, err = .libraryNotFound name := by
  rw [find.eq_def] at h
  split at h
  · cases h
    exact .inr ⟨_, rfl⟩
  · next text =>
    rcases hlookup : s.lookup text with f | e <;> rw [hlookup] at h
    · cases h
      exact (error_of_lookup hlookup).imp_right fun h => ⟨_, h⟩
    · have hmakes := s.host.makes_instantiate text e
      rw [show s.host.instantiate text e = _ from h] at hmakes
      exact hmakes.raises.imp_right fun h => ⟨_, h⟩
  · exact (h ▸ s.host.makes_instantiate _ ref).raises.imp_right fun h => ⟨_, h⟩

theorem serves_load (s : Surroundings) (ref : Entity) :
    s.host.Serves (s.host.name ref) (s.find ref) (s.load ref) := by
  rw [load]
  rcases s.find ref with f | e
  · exact .lost f
  · simp only [bind, Except.bind]
    rcases hlibrary : s.host.library e with f | _ | library
    · exact .fails hlibrary
    · exact .violation hlibrary
    · exact .library hlibrary

/-- A library that cannot be had is missing, or it is something that is no library; unless the host
itself raises the error. -/
theorem error_of_load (h : s.load ref = .error (.error err)) :
    s.host.Raises err ∨ (∃ name, err = .libraryNotFound name) ∨
      ∃ name, err = .contractViolation name := by
  have hserves := s.serves_load ref
  rw [h] at hserves
  generalize hfind : s.find ref = found at hserves
  cases hserves with
  | lost => exact (error_of_find hfind).imp_right .inl
  | violation => exact .inr (.inr ⟨_, rfl⟩)
  | fails hlibrary => exact .inl (.library hlibrary)

end Surroundings

end FormLang
