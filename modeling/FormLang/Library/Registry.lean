import FormLang.Library.Builtin

set_option autoImplicit false

/-! # Registries

A registry maps names to objects; the last registration of a name counts. Any object can be
registered, whether or not it is a library.
-/

namespace FormLang

/-- Names with the objects that they stand for; no name occurs twice. -/
structure Registry where
  entries : List (String × Entity)
  distinct : (entries.map Prod.fst).Nodup

namespace Registry

/-- A registry without names. -/
def empty : Registry := ⟨[], List.nodup_nil⟩

/-- The object that a name stands for. -/
def get? (r : Registry) (name : String) : Option Entity := r.entries.lookup name

/-- Is the name registered? -/
def contains (r : Registry) (name : String) : Bool := (r.get? name).isSome

/-- The registered names in ascending order. -/
def names (r : Registry) : List String :=
  (r.entries.map Prod.fst).mergeSort fun a b => decide (a ≤ b)

/-- Takes a name out; it need not be there. -/
def unregister (r : Registry) (name : String) : Registry where
  entries := r.entries.filter (·.1 != name)
  distinct := r.distinct.sublist (List.filter_sublist.map Prod.fst)

/-- Makes a name stand for an object. -/
def register (r : Registry) (name : String) (e : Entity) : Registry where
  entries := (name, e) :: (r.unregister name).entries
  distinct := by
    rw [List.map_cons, List.nodup_cons]
    refine ⟨fun h => ?_, (r.unregister name).distinct⟩
    obtain ⟨p, hp, rfl⟩ := List.mem_map.1 h
    simpa using (List.mem_filter.1 hp).2

/-- Makes names stand for objects, one after the other. -/
def registerAll (r : Registry) (entries : List (String × Entity)) : Registry :=
  entries.foldl (fun r (name, e) => r.register name e) r

/-- The registry of the builtin libraries, each under the name that it carries. -/
def builtin : Registry :=
  empty.registerAll (builtinLibraries.map fun c => (c.objectName, .object c.name (.standing 0)))

end Registry
end FormLang
