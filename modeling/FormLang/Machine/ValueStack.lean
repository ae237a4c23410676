import FormLang.Node

set_option autoImplicit false

/-! # Stacks of values

The stack of a machine counts its values as they come and go, so that a frame can note the
height of the stack without walking down to its bottom. The count says nothing that the values
do not say: two stacks with the same values are equal.
-/

namespace FormLang

/-- A stack of values, the top first. -/
structure ValueStack where
  values : List Value
  height : Nat
  height_eq : height = values.length

namespace ValueStack

@[ext]
theorem ext {s t : ValueStack} (h : s.values = t.values) : s = t := by
  obtain ⟨vs, m, hm⟩ := s
  obtain ⟨ws, n, hn⟩ := t
  obtain rfl : vs = ws := h
  obtain rfl := hm
  obtain rfl := hn
  rfl

/-- The stack that has some values. -/
def ofValues (vs : List Value) : ValueStack := ⟨vs, vs.length, rfl⟩

/-- A stack without values. -/
def empty : ValueStack := ofValues []

/-- Puts a value on top. -/
def push (s : ValueStack) (v : Value) : ValueStack where
  values := v :: s.values
  height := s.height + 1
  height_eq := by rw [s.height_eq, List.length_cons]

/-- Takes some values off the top, or all if they are too few. -/
def drop (s : ValueStack) (count : Nat) : ValueStack where
  values := s.values.drop count
  height := s.height - count
  height_eq := by rw [s.height_eq, List.length_drop]

/-- The top and the stack below it. -/
def pop? (s : ValueStack) : Option (Value × ValueStack) :=
  s.values.head?.map fun v => (v, s.drop 1)

/-- Takes some values off the top as a list in the order in which they were pushed; as many as
there are, if they are too few. -/
def take (s : ValueStack) (count : Nat) : List Value × ValueStack :=
  ((s.values.take count).reverse, s.drop count)

/-- Takes as many values off the top as a count says; a negative count says how many values stay
at the bottom. -/
def gather (s : ValueStack) (count : Int) : List Value × ValueStack :=
  s.take (if 0 ≤ count then count.toNat else s.height - count.natAbs)

/-- Takes off what was pushed above a height. -/
def dropTo (s : ValueStack) (base : Nat) : ValueStack := s.drop (s.height - base)

@[simp]
theorem values_ofValues (vs : List Value) : (ofValues vs).values = vs := rfl

@[simp]
theorem values_push (s : ValueStack) (v : Value) : (s.push v).values = v :: s.values := rfl

@[simp]
theorem values_drop (s : ValueStack) (n : Nat) : (s.drop n).values = s.values.drop n := rfl

@[simp]
theorem values_dropTo (s : ValueStack) (base : Nat) :
    (s.dropTo base).values = s.values.drop (s.values.length - base) := by
  rw [dropTo, values_drop, s.height_eq]

/-- What was pushed last comes off first. -/
@[simp]
theorem pop?_push (s : ValueStack) (v : Value) : (s.push v).pop? = some (v, s) := by
  have : (s.push v).drop 1 = s := by
    ext1
    simp
  simp [pop?, this]

end ValueStack
end FormLang
