import FormLang.Library.Samples
import FormLang.Proofs.Value.Equivalence
import Mathlib.Data.List.Chain
import Mathlib.Data.List.Pairwise

set_option autoImplicit false

/-! # Comparing neighbours

The function `equal` compares each argument with the next one only. As equality is transitive, this
is as good as comparing all of them; as it is symmetric, the order does not matter; and without
undefined numbers, it does not matter either how often an argument is there
(`equal_decides_all_pairs`).
-/

namespace FormLang

namespace Standard

variable {vs ws : List Value}

theorem neighboursEqual_iff_isChain :
    neighboursEqual vs = true ↔ vs.IsChain fun v w => v.equals w = true := by
  fun_induction neighboursEqual vs with
  | case1 v w rest ih => rw [Bool.and_eq_true, ih, List.isChain_cons_cons]
  | case2 vs h =>
      rcases vs with _ | ⟨v, _ | ⟨w, rest⟩⟩
      · simp
      · simp
      · exact absurd rfl (h v w rest)

/-- Neighbours are equal when any two are, wherever they are. -/
theorem neighboursEqual_iff_pairwise :
    neighboursEqual vs = true ↔ vs.Pairwise fun v w => v.equals w = true := by
  have : Trans (fun v w : Value => v.equals w = true) (fun v w : Value => v.equals w = true)
      (fun v w : Value => v.equals w = true) := ⟨Value.equals_trans⟩
  rw [neighboursEqual_iff_isChain, List.isChain_iff_pairwise]

theorem neighboursEqual_perm (h : ws.Perm vs) : neighboursEqual ws = neighboursEqual vs := by
  rw [Bool.eq_iff_iff, neighboursEqual_iff_pairwise, neighboursEqual_iff_pairwise]
  exact h.pairwise_iff fun {v w} hvw => by rwa [Value.equals_comm]

theorem neighboursEqual_iff_forall (hdefined : ∀ v ∈ vs, v.Defined) :
    neighboursEqual vs = true ↔ ∀ v ∈ vs, ∀ w ∈ vs, v.equals w = true := by
  rw [neighboursEqual_iff_pairwise]
  constructor
  · intro h
    have : Std.Symm fun v w : Value => v.equals w = true := ⟨fun v w hvw => by
      rwa [Value.equals_comm]⟩
    exact h.forall_of_forall fun v hv => Value.equals_refl (hdefined v hv)
  · intro h
    exact List.pairwise_of_forall_mem_list h

theorem neighboursEqual_congr (hdefined : ∀ v ∈ vs, v.Defined) (h : ∀ v, v ∈ ws ↔ v ∈ vs) :
    neighboursEqual ws = neighboursEqual vs := by
  have hdefined' : ∀ v ∈ ws, v.Defined := fun v hv => hdefined v ((h v).1 hv)
  rw [Bool.eq_iff_iff, neighboursEqual_iff_forall hdefined, neighboursEqual_iff_forall hdefined']
  simp only [h]

end Standard

/-- Calling `equal` of the standard library comes to whether neighbours are equal. -/
theorem apply_equal (vs : List Value) :
    Callable.apply (.call "StandardLibrary" "equal") (.list vs) =
      .ok (.truth (Standard.neighboursEqual vs)) := rfl

/-- The function `equal` answers any list of arguments with a truth value: whether any two of them are
equal, so that their order does not matter. When there is no undefined number in them, this is to say
that all of them are equal, each to itself as well; and then an argument may as well be there again. -/
theorem equal_decides_all_pairs (vs : List Value) :
    let equal := fun args => Callable.apply (.call "StandardLibrary" "equal") (.list args)
    ∃ answer, equal vs = .ok (.truth answer) ∧
      (answer = true ↔ vs.Pairwise fun v w => v.equals w = true) ∧
      (∀ ws, ws.Perm vs → equal ws = .ok (.truth answer)) ∧
      ((∀ v ∈ vs, v.Defined) →
        (answer = true ↔ ∀ v ∈ vs, ∀ w ∈ vs, v.equals w = true) ∧
          ∀ ws, (∀ v, v ∈ ws ↔ v ∈ vs) → equal ws = .ok (.truth answer)) := by
  intro equal
  refine ⟨Standard.neighboursEqual vs, apply_equal vs, Standard.neighboursEqual_iff_pairwise,
    fun ws hws => ?_, fun hdefined => ⟨Standard.neighboursEqual_iff_forall hdefined,
      fun ws hws => ?_⟩⟩
  · rw [← Standard.neighboursEqual_perm hws]
    exact apply_equal ws
  · rw [← Standard.neighboursEqual_congr hdefined hws]
    exact apply_equal ws

/-- A truth value in a list, next to captured code, counts as a number there as well. -/
theorem equal_decides_all_pairs_nested :
    let code : Value := .captured [.form .fixed [.symbol 1 "f", .number 2 (.int 0)]]
    let v : Value := .list [.truth true, code]
    let w : Value := .list [.number (.int 1), code]
    let equal := fun args => Callable.apply (.call "StandardLibrary" "equal") (.list args)
    (∀ u ∈ [v, w], u.Defined) ∧ equal [v, w] = .ok (.truth true) ∧
      equal [w, v] = .ok (.truth true) ∧ equal [w, v, v, w] = .ok (.truth true) ∧
      ∀ u ∈ [v, w], ∀ u' ∈ [v, w], u.equals u' = true := by
  intro code v w equal
  obtain ⟨answer, hvw, hpairs, hperm, hall⟩ := equal_decides_all_pairs [v, w]
  have hint : ∀ n : Int, (Value.number (.int n)).DefinedLeaf := by
    intro n m hm
    cases hm
    exact ⟨_, rfl⟩
  have htruth : (Value.truth true).DefinedLeaf := fun n hn => by cases hn
  have hdefined : ∀ u ∈ [v, w], u.Defined := by
    simp [Value.Defined, v, w, code, Value.Over, Value.AllOver, Node.Over, Node.AllOver, hint, htruth]
  have hequal : v.equals w = true := by
    simp [v, w, code, Value.equals, Value.allEqual, Node.equals, Node.allEqual, Value.sameUndefined,
      truthNumber, Numeral.equals, Numeral.alike, Numeral.sameUndefined]
  have hanswer : answer = true := hpairs.2 (by simpa using hequal)
  subst hanswer
  obtain ⟨hiff, hsame⟩ := hall hdefined
  refine ⟨hdefined, hvw, hperm _ (List.Perm.swap v w []), hsame _ (fun u => ?_), hiff.1 rfl⟩
  simp only [List.mem_cons, List.not_mem_nil, or_false]
  constructor
  · rintro (h | h | h | h)
    · exact .inr h
    · exact .inl h
    · exact .inl h
    · exact .inr h
  · rintro (h | h)
    · exact .inr (.inl h)
    · exact .inl h

end FormLang
