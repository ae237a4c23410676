import FormLang.Value.Equality
import Mathlib.Tactic.ByContra

set_option autoImplicit false

/-! # Facts about equality

Equality of the language is symmetric on all nodes and values, undefined numbers and the values
that hold them included, and so is the question whether one constant may stand for another. It is
coarser than identity, but only through the numbers and truth values at the leaves
(`Value.eq_of_alike`).
-/

namespace FormLang

/-! ## Symmetry -/

namespace Numeral

theorem equals_comm (a b : Numeral) : a.equals b = b.equals a := by
  cases a with
  | int m =>
      cases b with
      | int n => simp only [equals, Bool.beq_comm]
      | float y =>
          simp only [equals]
          cases (int m).extent? <;> cases (float y).extent? <;> simp only [Bool.beq_comm]
  | float x =>
      simp only [equals]
      cases (float x).extent? <;> cases b.extent? <;> simp only [Bool.beq_comm]

theorem sameUndefined_comm (a b : Numeral) : a.sameUndefined b = b.sameUndefined a := by
  cases a with
  | int m => cases b <;> rfl
  | float x =>
      cases b with
      | int n => rfl
      | float y =>
          show x.sameUndefined y = y.sameUndefined x
          rcases x with ⟨_, _⟩ | _ | (_ | i) <;> rcases y with ⟨_, _⟩ | _ | (_ | j) <;>
            first
            | rfl
            | exact Bool.beq_comm

theorem alike_comm (a b : Numeral) : a.alike b = b.alike a := by
  rw [alike, alike, sameUndefined_comm, equals_comm]

end Numeral

theorem Value.sameUndefined_comm (v w : Value) : v.sameUndefined w = w.sameUndefined v := by
  cases v with
  | number m =>
      cases w with
      | number n => exact m.sameUndefined_comm n
      | _ => rfl
  | _ => cases w <;> rfl

mutual
theorem Node.equals_comm : ∀ m n : Node, m.equals n = n.equals m
  | .symbol _ _, n => by cases n <;> simp only [Node.equals, Bool.beq_comm]
  | .number _ a, n => by
      cases n with
      | number _ b => simp only [Node.equals, Bool.beq_comm, a.alike_comm b]
      | truth _ b => simp only [Node.equals, Bool.beq_comm, a.equals_comm (truthNumber b)]
      | _ => simp only [Node.equals]
  | .truth _ a, n => by
      cases n with
      | number _ b => simp only [Node.equals, Bool.beq_comm, b.equals_comm (truthNumber a)]
      | truth _ b => simp only [Node.equals, Bool.beq_comm]
      | _ => simp only [Node.equals]
  | .text _ _, n => by cases n <;> simp only [Node.equals, Bool.beq_comm]
  | .list xs, n => by
      cases n with
      | list ys => simp only [Node.equals, Node.allEqual_comm xs ys]
      | _ => simp only [Node.equals]
  | .form _ xs, n => by
      cases n with
      | form _ ys => simp only [Node.equals, Bool.beq_comm, Node.allEqual_comm xs ys]
      | _ => simp only [Node.equals]
  | .foreign v, n => by
      cases n with
      | foreign w => simp only [Node.equals, v.sameUndefined_comm w, Value.equals_comm v w]
      | _ => simp only [Node.equals]

theorem Node.allEqual_comm : ∀ xs ys : List Node, Node.allEqual xs ys = Node.allEqual ys xs
  | [], ys => by cases ys <;> simp only [Node.allEqual]
  | x :: xs, ys => by
      cases ys with
      | nil => simp only [Node.allEqual]
      | cons y ys => simp only [Node.allEqual, Node.equals_comm x y, Node.allEqual_comm xs ys]

theorem Value.equals_comm : ∀ v w : Value, v.equals w = w.equals v
  | .nothing, w => by cases w <;> simp only [Value.equals]
  | .truth _, w => by
      cases w with
      | truth _ => simp only [Value.equals, Bool.beq_comm]
      | number n => simp only [Value.equals, n.equals_comm]
      | _ => simp only [Value.equals]
  | .number m, w => by
      cases w with
      | truth _ => simp only [Value.equals, m.equals_comm]
      | number n => simp only [Value.equals, m.equals_comm n]
      | _ => simp only [Value.equals]
  | .text _, w => by cases w <;> simp only [Value.equals, Bool.beq_comm]
  | .list xs, w => by
      cases w with
      | list ys => simp only [Value.equals, Value.allEqual_comm xs ys]
      | _ => simp only [Value.equals]
  | .captured xs, w => by
      cases w with
      | captured ys => simp only [Value.equals, Node.allEqual_comm xs ys]
      | _ => simp only [Value.equals]
  | .chunk _ xs, w => by
      cases w with
      | chunk _ ys => simp only [Value.equals, Bool.beq_comm, Value.allEqual_comm xs ys]
      | _ => simp only [Value.equals]
  | .callable _, w => by cases w <;> simp only [Value.equals, Bool.beq_comm]

theorem Value.allEqual_comm : ∀ xs ys : List Value, Value.allEqual xs ys = Value.allEqual ys xs
  | [], ys => by cases ys <;> simp only [Value.allEqual]
  | x :: xs, ys => by
      cases ys with
      | nil => simp only [Value.allEqual]
      | cons y ys =>
          simp only [Value.allEqual, x.sameUndefined_comm y, Value.equals_comm x y,
            Value.allEqual_comm xs ys]
end

/-! ## Number nodes -/

namespace Node

variable {m n : Node} {l : Int} {v : Value}

/-- The line of a number node and the value that it holds. -/
def number? : Node → Option (Int × Value)
  | .number l a => some (l, .number a)
  | .truth l b => some (l, .truth b)
  | _ => none

/-- A number node is equal to those of its line that hold a value like its own. -/
theorem equals_of_number (hm : m.number? = some (l, v)) :
    m.equals n = true ↔ ∃ w, n.number? = some (l, w) ∧ v.alike w = true := by
  cases m with
  | number _ a =>
      cases hm
      cases n <;>
        simp [number?, equals, Value.alike, Value.sameUndefined, Value.equals, Numeral.alike,
          and_assoc, eq_comm (a := l)]
  | truth _ a =>
      cases hm
      cases n <;>
        simp [number?, equals, Value.alike, Value.sameUndefined, Value.equals, and_assoc,
          eq_comm (a := l)]
  | _ => cases hm

theorem eq_of_number (hm : m.number? = some (l, v)) (hn : n.number? = some (l, v)) : m = n := by
  cases m <;> cases hm <;> cases n <;> cases hn <;> rfl

end Node

/-- Equal rows are alike at every place. -/
theorem Value.alike_of_allEqual {vs ws : List Value} (h : allEqual vs ws = true) :
    vs.length = ws.length ∧
      ∀ (place : Nat) (v w : Value), vs[place]? = some v → ws[place]? = some w →
        v.alike w = true := by
  induction vs generalizing ws with
  | nil =>
      cases ws with
      | nil => exact ⟨rfl, by simp⟩
      | cons w ws => simp [allEqual] at h
  | cons x vs ih =>
      cases ws with
      | nil => simp [allEqual] at h
      | cons y ws =>
          rw [allEqual, Bool.and_eq_true] at h
          obtain ⟨hlength, halike⟩ := ih h.2
          refine ⟨by simp [hlength], fun place v w hv hw => ?_⟩
          cases place with
          | zero =>
              obtain rfl : x = v := by simpa using hv
              obtain rfl : y = w := by simpa using hw
              exact h.1
          | succ place => exact halike place v w (by simpa using hv) (by simpa using hw)

theorem Value.sameConstant_comm (v w : Value) : v.sameConstant w = w.sameConstant v := by
  simp only [Value.sameConstant, Bool.beq_comm, v.equals_comm w]

theorem Value.kind_of_sameConstant {v w : Value} (h : v.sameConstant w = true) :
    v.kind = w.kind := by
  simp only [Value.sameConstant, Bool.and_eq_true, beq_iff_eq] at h
  exact h.1

/-! ## Where equal means identical

Numbers and truth values are the only values that can be equal without being identical, lines of
nodes included. So equality is identity among values that are made *over* numbers and truth values
for which it is. -/

mutual
/-- Are all numbers and truth values in a node among some values? -/
def Node.Over (S : Value → Prop) : Node → Prop
  | .number _ n => S (.number n)
  | .truth _ b => S (.truth b)
  | .list elements => Node.AllOver S elements
  | .form _ items => Node.AllOver S items
  | .foreign v => v.Over S
  | _ => True

/-- Are all numbers and truth values in some nodes among some values? -/
def Node.AllOver (S : Value → Prop) : List Node → Prop
  | [] => True
  | n :: rest => n.Over S ∧ Node.AllOver S rest

/-- Are all numbers and truth values in a value among some values, those in code and among the
constants of chunks included? -/
def Value.Over (S : Value → Prop) : Value → Prop
  | .truth b => S (.truth b)
  | .number n => S (.number n)
  | .list items => Value.AllOver S items
  | .captured code => Node.AllOver S code
  | .chunk _ constants => Value.AllOver S constants
  | _ => True

/-- Are all numbers and truth values in some values among some values? -/
def Value.AllOver (S : Value → Prop) : List Value → Prop
  | [] => True
  | v :: rest => v.Over S ∧ Value.AllOver S rest
end

theorem Value.allOver_iff {S : Value → Prop} {vs : List Value} :
    Value.AllOver S vs ↔ ∀ v ∈ vs, v.Over S := by
  induction vs with
  | nil => simp [Value.AllOver]
  | cons v vs ih => simp [Value.AllOver, ih]

theorem Node.allOver_iff {S : Value → Prop} {ns : List Node} :
    Node.AllOver S ns ↔ ∀ n ∈ ns, n.Over S := by
  induction ns with
  | nil => simp [Node.AllOver]
  | cons n ns ih => simp [Node.AllOver, ih]

theorem Node.over_of_number {S : Value → Prop} {n : Node} {l : Int} {v : Value}
    (hn : n.number? = some (l, v)) (h : n.Over S) : S v := by
  cases n <;> cases hn <;> exact h

/-- No two of some values are equal without being identical. -/
def Separated (S : Value → Prop) : Prop := ∀ v w, S v → S w → v.alike w = true → v = w

section

variable {S : Value → Prop}

theorem Node.eq_of_equals_number (hS : Separated S) {m n : Node} {l : Int} {v : Value}
    (hv : m.number? = some (l, v)) (hm : m.Over S) (hn : n.Over S) (h : m.equals n = true) :
    m = n := by
  obtain ⟨w, hw, halike⟩ := (Node.equals_of_number hv).1 h
  obtain rfl := hS v w (Node.over_of_number hv hm) (Node.over_of_number hw hn) halike
  exact Node.eq_of_number hv hw

mutual
theorem Node.eq_of_equals (hS : Separated S) :
    ∀ {m n : Node}, m.Over S → n.Over S → m.equals n = true → m = n
  | .symbol _ _, n, _, _, h => by cases n <;> simp_all [Node.equals]
  | .number l a, _, hm, hn, h => Node.eq_of_equals_number (m := .number l a) hS rfl hm hn h
  | .truth l a, _, hm, hn, h => Node.eq_of_equals_number (m := .truth l a) hS rfl hm hn h
  | .text _ _, n, _, _, h => by cases n <;> simp_all [Node.equals]
  | .list xs, n, hm, hn, h => by
      cases n with
      | list ys => rw [Node.eq_of_allEqual hS hm hn (by simpa [Node.equals] using h)]
      | _ => simp [Node.equals] at h
  | .form _ xs, n, hm, hn, h => by
      cases n with
      | form _ ys =>
          simp only [Node.equals, Bool.and_eq_true, beq_iff_eq] at h
          rw [h.1, Node.eq_of_allEqual hS hm hn h.2]
      | _ => simp [Node.equals] at h
  | .foreign v, n, hm, hn, h => by
      cases n with
      | foreign w => rw [Value.eq_of_alike hS hm hn (by rwa [Node.equals] at h)]
      | _ => simp [Node.equals] at h

theorem Node.eq_of_allEqual (hS : Separated S) : ∀ {xs ys : List Node},
    Node.AllOver S xs → Node.AllOver S ys → Node.allEqual xs ys = true → xs = ys
  | [], ys, _, _, h => by cases ys <;> simp_all [Node.allEqual]
  | x :: xs, ys, hx, hy, h => by
      cases ys with
      | nil => simp [Node.allEqual] at h
      | cons y ys =>
          simp only [Node.allEqual, Bool.and_eq_true] at h
          rw [Node.eq_of_equals hS hx.1 hy.1 h.1, Node.eq_of_allEqual hS hx.2 hy.2 h.2]

theorem Value.eq_of_alike (hS : Separated S) :
    ∀ {v w : Value}, v.Over S → w.Over S → v.alike w = true → v = w
  | .nothing, w, _, _, h => by cases w <;> simp_all [Value.alike, Value.sameUndefined, Value.equals]
  | .truth a, w, hv, hw, h => by
      cases w with
      | truth b => exact hS _ _ hv hw h
      | number n => exact hS _ _ hv hw h
      | _ => simp [Value.alike, Value.sameUndefined, Value.equals] at h
  | .number m, w, hv, hw, h => by
      cases w with
      | truth b => exact hS _ _ hv hw h
      | number n => exact hS _ _ hv hw h
      | _ => simp [Value.alike, Value.sameUndefined, Value.equals] at h
  | .text _, w, _, _, h => by cases w <;> simp_all [Value.alike, Value.sameUndefined, Value.equals]
  | .list xs, w, hv, hw, h => by
      cases w with
      | list ys =>
          rw [Value.eq_of_allEqual hS hv hw
            (by simpa [Value.alike, Value.sameUndefined, Value.equals] using h)]
      | _ => simp [Value.alike, Value.sameUndefined, Value.equals] at h
  | .captured xs, w, hv, hw, h => by
      cases w with
      | captured ys =>
          rw [Node.eq_of_allEqual hS hv hw
            (by simpa [Value.alike, Value.sameUndefined, Value.equals] using h)]
      | _ => simp [Value.alike, Value.sameUndefined, Value.equals] at h
  | .chunk c xs, w, hv, hw, h => by
      cases w with
      | chunk d ys =>
          simp only [Value.alike, Value.sameUndefined, Value.equals, Bool.false_or,
            Bool.and_eq_true, beq_iff_eq] at h
          rw [h.1, Value.eq_of_allEqual hS hv hw h.2]
      | _ => simp [Value.alike, Value.sameUndefined, Value.equals] at h
  | .callable _, w, _, _, h => by
      cases w <;> simp_all [Value.alike, Value.sameUndefined, Value.equals]

theorem Value.eq_of_allEqual (hS : Separated S) : ∀ {xs ys : List Value},
    Value.AllOver S xs → Value.AllOver S ys → Value.allEqual xs ys = true → xs = ys
  | [], ys, _, _, h => by cases ys <;> simp_all [Value.allEqual]
  | x :: xs, ys, hx, hy, h => by
      cases ys with
      | nil => simp [Value.allEqual] at h
      | cons y ys =>
          simp only [Value.allEqual, Bool.and_eq_true] at h
          rw [Value.eq_of_alike hS hx.1 hy.1 h.1, Value.eq_of_allEqual hS hx.2 hy.2 h.2]
end

theorem Value.eq_of_sameConstant (hS : Separated S) {v w : Value} (hv : v.Over S) (hw : w.Over S)
    (h : v.sameConstant w = true) : v = w := by
  simp only [Value.sameConstant, Bool.and_eq_true] at h
  exact Value.eq_of_alike hS hv hw (by rw [Value.alike, h.2, Bool.or_true])

end

theorem Numeral.eq_of_sameUndefined {a b : Numeral} (h : a.sameUndefined b = true) : a = b := by
  cases a with
  | int m => cases h
  | float x =>
      cases b with
      | int n => cases h
      | float y =>
          rcases x with ⟨_, _⟩ | _ | (_ | i) <;> rcases y with ⟨_, _⟩ | _ | (_ | j) <;>
            simp_all [sameUndefined, Binary64.sameUndefined]

/-- Numbers that are only equal when they are identical are separated. -/
theorem separated_numbers {ks : List Numeral}
    (h : ∀ a ∈ ks, ∀ b ∈ ks, a.equals b = true → a = b) :
    Separated fun v => ∃ k ∈ ks, v = .number k := by
  rintro v w ⟨a, ha, rfl⟩ ⟨b, hb, rfl⟩ halike
  rw [Value.alike, Bool.or_eq_true] at halike
  rcases halike with hsame | hequal
  · rw [Numeral.eq_of_sameUndefined hsame]
  · rw [Value.equals] at hequal
    rw [h a ha b hb hequal]

end FormLang
