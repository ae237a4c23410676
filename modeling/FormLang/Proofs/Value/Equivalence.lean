import FormLang.Proofs.Value.Equality

set_option autoImplicit false

/-! # Equality is an equivalence

Numbers and truth values are equal when they have one place on the line, and everything else is equal
part by part. So what is equal to the same is equal, undefined numbers or not (`Value.equals_trans`),
and whatever is free of undefined numbers is equal to itself (`Value.equals_refl`).
-/

namespace FormLang

/-! ## Numbers -/

namespace Numeral

variable {a b c : Numeral}

/-- The number has a place on the line. Integers do, and floating point numbers that are not
undefined. -/
def Defined (n : Numeral) : Prop := ∃ s, n.extent? = some s

theorem unitsPerOne_pos : 0 < Binary64.unitsPerOne := by
  unfold Binary64.unitsPerOne
  -- The power is too large to be computed.
  generalize 1074 = n
  exact Nat.two_pow_pos n

/-- Numbers are equal when they have the same place on the line. -/
theorem equals_iff : a.equals b = true ↔ ∃ s, a.extent? = some s ∧ b.extent? = some s := by
  rw [equals.eq_def]
  split
  · next m n =>
    have hunits : (Binary64.unitsPerOne : Int) ≠ 0 := by
      have hpos := unitsPerOne_pos
      omega
    rw [beq_iff_eq, extent?, extent?]
    constructor
    · rintro rfl
      exact ⟨_, rfl, rfl⟩
    · rintro ⟨s, hm, hn⟩
      have hplace := Extent.at.inj (Option.some.inj (hm.trans hn.symm))
      exact Int.eq_of_mul_eq_mul_right hunits hplace
  · split
    · next s t ha hb =>
      rw [ha, hb, beq_iff_eq]
      constructor
      · rintro rfl
        exact ⟨s, rfl, rfl⟩
      · rintro ⟨u, hs, ht⟩
        exact Option.some.inj (hs.trans ht.symm)
    · next hnone =>
      -- One of them has no place.
      simp only [Bool.false_eq_true, false_iff]
      rintro ⟨s, ha, hb⟩
      exact hnone s s ha hb

theorem equals_trans (h : a.equals b = true) (h' : b.equals c = true) : a.equals c = true := by
  obtain ⟨s, ha, hb⟩ := equals_iff.1 h
  obtain ⟨t, hb', hc⟩ := equals_iff.1 h'
  obtain rfl : s = t := Option.some.inj (hb.symm.trans hb')
  exact equals_iff.2 ⟨s, ha, hc⟩

theorem Defined.equals_refl (h : a.Defined) : a.equals a = true := by
  obtain ⟨s, ha⟩ := h
  exact equals_iff.2 ⟨s, ha, ha⟩

end Numeral

/-! ## What a value can be equal to -/

namespace Value

variable {v w : Value}

/-- The number that a value counts as. -/
def amount? : Value → Option Numeral
  | .truth b => some (truthNumber b)
  | .number n => some n
  | _ => none

/-- What counts as a number is equal to what counts as an equal number. -/
theorem equals_of_amount {a : Numeral} (hv : v.amount? = some a) :
    v.equals w = true ↔ ∃ b, w.amount? = some b ∧ a.equals b = true := by
  cases v with
  | truth x =>
      obtain rfl := Option.some.inj hv
      cases w with
      | truth y => cases x <;> cases y <;> simp [equals, amount?, truthNumber, Numeral.equals]
      | _ => simp [equals, amount?]
  | number m =>
      obtain rfl := Option.some.inj hv
      cases w <;> simp [equals, amount?]
  | _ => cases hv

theorem eq_of_sameUndefined (h : v.sameUndefined w = true) : v = w := by
  cases v with
  | number m =>
      cases w with
      | number n => rw [Numeral.eq_of_sameUndefined h]
      | _ => cases h
  | _ => cases h

theorem equals_trans_of_amount {a : Numeral} {u : Value} (hu : u.amount? = some a)
    (h : u.equals v = true) (h' : v.equals w = true) : u.equals w = true := by
  obtain ⟨b, hv, hab⟩ := (equals_of_amount hu).1 h
  obtain ⟨c, hw, hbc⟩ := (equals_of_amount hv).1 h'
  exact (equals_of_amount hu).2 ⟨c, hw, Numeral.equals_trans hab hbc⟩

theorem alike_trans_of_equals_trans {u : Value}
    (htrans : u.equals v = true → v.equals w = true → u.equals w = true)
    (h : u.alike v = true) (h' : v.alike w = true) : u.alike w = true := by
  rw [alike, Bool.or_eq_true] at h h' ⊢
  rcases h with hsame | hequal
  · rw [eq_of_sameUndefined hsame]
    exact h'
  · rcases h' with hsame | hequal'
    · rw [← eq_of_sameUndefined hsame]
      exact .inr hequal
    · exact .inr (htrans hequal hequal')

end Value

/-- A number node holds something that counts as a number. -/
theorem Node.amount_of_number {n : Node} {l : Int} {v : Value} (hn : n.number? = some (l, v)) :
    ∃ a, v.amount? = some a := by
  cases n <;> cases hn <;> exact ⟨_, rfl⟩

theorem Node.equals_trans_of_number {l m n : Node} {line : Int} {v : Value}
    (hl : l.number? = some (line, v)) (h : l.equals m = true) (h' : m.equals n = true) :
    l.equals n = true := by
  obtain ⟨u, hm, hvu⟩ := (Node.equals_of_number hl).1 h
  obtain ⟨w, hn, huw⟩ := (Node.equals_of_number hm).1 h'
  obtain ⟨a, ha⟩ := Node.amount_of_number hl
  exact (Node.equals_of_number hl).2
    ⟨w, hn, Value.alike_trans_of_equals_trans (Value.equals_trans_of_amount ha) hvu huw⟩

/-! ## Transitivity -/

mutual
theorem Node.equals_trans : ∀ {l m n : Node}, l.equals m = true → m.equals n = true →
    l.equals n = true
  | .symbol _ _, m, n, h, h' => by
      cases m <;> simp only [Node.equals, Bool.and_eq_true, beq_iff_eq, reduceCtorEq] at h
      obtain ⟨rfl, rfl⟩ := h
      exact h'
  | .number l a, m, n, h, h' => Node.equals_trans_of_number (l := .number l a) rfl h h'
  | .truth l a, m, n, h, h' => Node.equals_trans_of_number (l := .truth l a) rfl h h'
  | .text _ _, m, n, h, h' => by
      cases m <;> simp only [Node.equals, Bool.and_eq_true, beq_iff_eq, reduceCtorEq] at h
      obtain ⟨rfl, rfl⟩ := h
      exact h'
  | .list xs, m, n, h, h' => by
      cases m <;> simp only [Node.equals, reduceCtorEq] at h
      cases n <;> simp only [Node.equals, reduceCtorEq] at h' ⊢
      exact Node.allEqual_trans h h'
  | .form _ xs, m, n, h, h' => by
      cases m <;> simp only [Node.equals, Bool.and_eq_true, beq_iff_eq, reduceCtorEq] at h
      cases n <;> simp only [Node.equals, Bool.and_eq_true, beq_iff_eq, reduceCtorEq] at h' ⊢
      exact ⟨h.1.trans h'.1, Node.allEqual_trans h.2 h'.2⟩
  | .foreign u, m, n, h, h' => by
      cases m <;> simp only [Node.equals, reduceCtorEq] at h
      cases n <;> simp only [Node.equals, reduceCtorEq] at h' ⊢
      exact Value.alike_trans h h'

theorem Node.allEqual_trans : ∀ {xs ys zs : List Node}, Node.allEqual xs ys = true →
    Node.allEqual ys zs = true → Node.allEqual xs zs = true
  | [], ys, zs, h, h' => by
      cases ys <;> simp only [Node.allEqual, reduceCtorEq] at h
      exact h'
  | x :: xs, ys, zs, h, h' => by
      cases ys <;> simp only [Node.allEqual, Bool.and_eq_true, reduceCtorEq] at h
      cases zs <;> simp only [Node.allEqual, Bool.and_eq_true, reduceCtorEq] at h' ⊢
      exact ⟨Node.equals_trans h.1 h'.1, Node.allEqual_trans h.2 h'.2⟩

theorem Value.equals_trans : ∀ {u v w : Value}, u.equals v = true → v.equals w = true →
    u.equals w = true
  | .nothing, v, w, h, h' => by
      cases v <;> simp only [Value.equals, reduceCtorEq] at h
      exact h'
  | .truth a, v, w, h, h' => Value.equals_trans_of_amount (u := .truth a) rfl h h'
  | .number m, v, w, h, h' => Value.equals_trans_of_amount (u := .number m) rfl h h'
  | .text _, v, w, h, h' => by
      cases v <;> simp only [Value.equals, beq_iff_eq, reduceCtorEq] at h
      subst h
      exact h'
  | .list xs, v, w, h, h' => by
      cases v <;> simp only [Value.equals, reduceCtorEq] at h
      cases w <;> simp only [Value.equals, reduceCtorEq] at h' ⊢
      exact Value.allEqual_trans h h'
  | .captured xs, v, w, h, h' => by
      cases v <;> simp only [Value.equals, reduceCtorEq] at h
      cases w <;> simp only [Value.equals, reduceCtorEq] at h' ⊢
      exact Node.allEqual_trans h h'
  | .chunk _ xs, v, w, h, h' => by
      cases v <;> simp only [Value.equals, Bool.and_eq_true, beq_iff_eq, reduceCtorEq] at h
      cases w <;> simp only [Value.equals, Bool.and_eq_true, beq_iff_eq, reduceCtorEq] at h' ⊢
      exact ⟨h.1.trans h'.1, Value.allEqual_trans h.2 h'.2⟩
  | .callable _, v, w, h, h' => by
      cases v <;> simp only [Value.equals, beq_iff_eq, reduceCtorEq] at h
      subst h
      exact h'

/-- The same undefined number may take the place of an equal value. -/
theorem Value.alike_trans : ∀ {u v w : Value}, u.alike v = true → v.alike w = true →
    u.alike w = true := by
  intro u v w h h'
  exact Value.alike_trans_of_equals_trans Value.equals_trans h h'

theorem Value.allEqual_trans : ∀ {xs ys zs : List Value}, Value.allEqual xs ys = true →
    Value.allEqual ys zs = true → Value.allEqual xs zs = true
  | [], ys, zs, h, h' => by
      cases ys <;> simp only [Value.allEqual, reduceCtorEq] at h
      exact h'
  | x :: xs, ys, zs, h, h' => by
      cases ys <;> simp only [Value.allEqual, Bool.and_eq_true, reduceCtorEq] at h
      cases zs <;> simp only [Value.allEqual, Bool.and_eq_true, reduceCtorEq] at h' ⊢
      exact ⟨Value.alike_trans h.1 h'.1, Value.allEqual_trans h.2 h'.2⟩
end

/-! ## Reflexivity -/

/-- A value that is no undefined number. -/
def Value.DefinedLeaf (v : Value) : Prop := ∀ n, v = .number n → n.Defined

/-- A value without undefined numbers, in whatever depth. -/
def Value.Defined (v : Value) : Prop := v.Over Value.DefinedLeaf

mutual
theorem Node.equals_refl : ∀ {n : Node}, n.Over Value.DefinedLeaf → n.equals n = true
  | .symbol _ _, _ => by simp [Node.equals]
  | .number _ a, h => by
      have ha : a.equals a = true := Numeral.Defined.equals_refl (h a rfl)
      simp [Node.equals, Numeral.alike, ha]
  | .truth _ _, _ => by simp [Node.equals]
  | .text _ _, _ => by simp [Node.equals]
  | .list xs, h => by
      rw [Node.equals]
      exact Node.allEqual_refl h
  | .form _ xs, h => by
      rw [Node.equals, beq_self_eq_true, Bool.true_and]
      exact Node.allEqual_refl h
  | .foreign v, h => by
      rw [Node.equals, Value.equals_refl h, Bool.or_true]

theorem Node.allEqual_refl : ∀ {ns : List Node}, Node.AllOver Value.DefinedLeaf ns →
    Node.allEqual ns ns = true
  | [], _ => by rw [Node.allEqual]
  | n :: ns, h => by
      rw [Node.allEqual, Node.equals_refl h.1, Node.allEqual_refl h.2]
      rfl

theorem Value.equals_refl : ∀ {v : Value}, v.Over Value.DefinedLeaf → v.equals v = true
  | .nothing, _ => by rw [Value.equals]
  | .truth _, _ => by simp [Value.equals]
  | .number n, h => by
      rw [Value.equals]
      exact Numeral.Defined.equals_refl (h n rfl)
  | .text _, _ => by simp [Value.equals]
  | .list vs, h => by
      rw [Value.equals]
      exact Value.allEqual_refl h
  | .captured code, h => by
      rw [Value.equals]
      exact Node.allEqual_refl h
  | .chunk _ vs, h => by
      rw [Value.equals, beq_self_eq_true, Bool.true_and]
      exact Value.allEqual_refl h
  | .callable _, _ => by simp [Value.equals]

theorem Value.allEqual_refl : ∀ {vs : List Value}, Value.AllOver Value.DefinedLeaf vs →
    Value.allEqual vs vs = true
  | [], _ => by rw [Value.allEqual]
  | v :: vs, h => by
      rw [Value.allEqual, Value.equals_refl h.1, Bool.or_true, Value.allEqual_refl h.2]
      rfl
end

end FormLang
