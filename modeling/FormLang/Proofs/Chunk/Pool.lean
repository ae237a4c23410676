import FormLang.Chunk.Emit
import FormLang.Proofs.Value.Equality

set_option autoImplicit false

/-! # The pool of constants

The constants of a chunk are a pool: a value that comes in gets the place of the first constant
that can stand for it, or a new place at the end (`pool_cases`). So the pool only grows, and no two
of its constants can stand for each other. What is run in the end is the constant that stands for
the value (`standIn`), and not the value itself; this makes no difference just when values that can
stand for each other are identical (`standIns_eq_iff`).
-/

namespace FormLang

/-! ## One value -/

/-- The place of a value in a pool. -/
def placeIn (pool : List Value) (v : Value) : Nat :=
  (pool.findIdx? (·.sameConstant v)).getD pool.length

/-- A pool with a place for a value. -/
def pooled (pool : List Value) (v : Value) : List Value :=
  match pool.findIdx? (·.sameConstant v) with
  | some _ => pool
  | none => pool ++ [v]

/-- The constant that stands for a value. -/
def standIn (pool : List Value) (v : Value) : Value := (pool[placeIn pool v]?).getD v

theorem Chunk.addConstant_eq (c : Chunk) (v : Value) :
    c.addConstant v = (placeIn c.constants v, ⟨c.code, pooled c.constants v⟩) := by
  rw [addConstant, placeOf?, placeIn, pooled]
  cases c.constants.findIdx? (·.sameConstant v) <;> rfl

variable {pool : List Value} {v w : Value}

/-- Either the first constant that can stand for a value does, or the value gets a place at the
end. -/
theorem pool_cases (pool : List Value) (v : Value) :
    (∃ before w after, pool = before ++ w :: after ∧ w.sameConstant v = true ∧
      (∀ u ∈ before, u.sameConstant v = false) ∧ placeIn pool v = before.length ∧
      pooled pool v = pool ∧ standIn pool v = w) ∨
    ((∀ u ∈ pool, u.sameConstant v = false) ∧ placeIn pool v = pool.length ∧
      pooled pool v = pool ++ [v] ∧ standIn pool v = v) := by
  cases hplace : pool.findIdx? (·.sameConstant v) with
  | none =>
      refine .inr ⟨?_, ?_, ?_, ?_⟩
      · simpa using hplace
      · rw [placeIn, hplace]
        rfl
      · rw [pooled, hplace]
      · rw [standIn, placeIn, hplace]
        simp
  | some i =>
      obtain ⟨hlt, hsame, hfirst⟩ := List.findIdx?_eq_some_iff_getElem.1 hplace
      -- The first candidate splits the pool into what comes before it and what comes after.
      refine .inl ⟨pool.take i, pool[i], pool.drop (i + 1), ?_, hsame, ?_, ?_, ?_, ?_⟩
      · simp
      · intro u hu
        obtain ⟨j, hj, rfl⟩ := List.mem_take_iff_getElem.1 hu
        simpa using hfirst j (by omega)
      · rw [placeIn, hplace, List.length_take]
        simp only [Option.getD_some]
        omega
      · rw [pooled, hplace]
      · rw [standIn, placeIn, hplace]
        simp [hlt]

theorem prefix_pooled (pool : List Value) (v : Value) : pool <+: pooled pool v := by
  obtain ⟨_, _, _, -, -, -, -, h, -⟩ | ⟨-, -, h, -⟩ := pool_cases pool v
  · exact ⟨[], by rw [h, List.append_nil]⟩
  · exact ⟨[v], h.symm⟩

/-- The place of a value is that of the constant that stands for it. -/
theorem getElem?_placeIn (pool : List Value) (v : Value) :
    (pooled pool v)[placeIn pool v]? = some (standIn pool v) := by
  obtain ⟨before, w, after, hpool, -, -, hplace, hpooled, hw⟩ | ⟨-, hplace, hpooled, hv⟩ :=
    pool_cases pool v
  · rw [hpooled, hplace, hw, hpool]
    simp
  · rw [hpooled, hplace, hv]
    simp

theorem kind_standIn (pool : List Value) (v : Value) : (standIn pool v).kind = v.kind := by
  obtain ⟨_, w, _, -, hsame, -, -, -, hw⟩ | ⟨-, -, -, hv⟩ := pool_cases pool v
  · rw [hw, Value.kind_of_sameConstant hsame]
  · rw [hv]

theorem standIn_mem (pool : List Value) (v : Value) : standIn pool v ∈ pooled pool v :=
  List.mem_of_getElem? (getElem?_placeIn pool v)

theorem mem_pooled (h : w ∈ pooled pool v) : w ∈ pool ∨ w = v := by
  obtain ⟨_, _, _, -, -, -, -, hpooled, -⟩ | ⟨-, -, hpooled, -⟩ := pool_cases pool v
  · exact .inl (hpooled ▸ h)
  · rw [hpooled] at h
    simpa using h

/-- A value for which nothing else can stand, stands for itself. -/
theorem standIn_eq_self (h : ∀ w ∈ pool, w.sameConstant v = true → w = v) :
    standIn pool v = v := by
  obtain ⟨before, w, after, hpool, hsame, -, -, -, hw⟩ | ⟨-, -, -, hv⟩ := pool_cases pool v
  · rw [hw]
    exact h w (by simp [hpool]) hsame
  · exact hv

/-! ## One value after the other -/

/-- A pool with places for some values. -/
def poolOf (pool : List Value) : List Value → List Value
  | [] => pool
  | v :: vs => poolOf (pooled pool v) vs

/-- The constants that stand for some values that come in one after the other. -/
def standIns (pool : List Value) : List Value → List Value
  | [] => []
  | v :: vs => standIn pool v :: standIns (pooled pool v) vs

variable {vs ws : List Value}

theorem poolOf_append (pool vs ws : List Value) :
    poolOf pool (vs ++ ws) = poolOf (poolOf pool vs) ws := by
  induction vs generalizing pool with
  | nil => rfl
  | cons v vs ih => exact ih (pooled pool v)

theorem prefix_poolOf (pool vs : List Value) : pool <+: poolOf pool vs := by
  induction vs generalizing pool with
  | nil => exact List.prefix_rfl
  | cons v vs ih => exact (prefix_pooled pool v).trans (ih _)

theorem mem_poolOf (h : w ∈ poolOf pool vs) : w ∈ pool ∨ w ∈ vs := by
  induction vs generalizing pool with
  | nil => exact .inl h
  | cons v vs ih =>
      rcases ih h with h | h
      · rcases mem_pooled h with h | rfl
        · exact .inl h
        · exact .inr (by simp)
      · exact .inr (by simp [h])

@[simp] theorem length_standIns (pool vs : List Value) : (standIns pool vs).length = vs.length := by
  induction vs generalizing pool with
  | nil => rfl
  | cons v vs ih => simp [standIns, ih]

theorem standIns_append (pool vs ws : List Value) :
    standIns pool (vs ++ ws) = standIns pool vs ++ standIns (poolOf pool vs) ws := by
  induction vs generalizing pool with
  | nil => rfl
  | cons v vs ih => simp [standIns, poolOf, ih]

/-! ## Sharing that makes a difference -/

/-- Can no constant of a pool stand for a later one? -/
def Distinct (pool : List Value) : Prop := pool.Pairwise fun v w => v.sameConstant w = false

theorem Distinct.pooled (h : Distinct pool) (v : Value) : Distinct (pooled pool v) := by
  obtain ⟨_, _, _, -, -, -, -, hpooled, -⟩ | ⟨hnone, -, hpooled, -⟩ := pool_cases pool v
  · rwa [hpooled]
  · rw [hpooled]
    exact List.pairwise_append.2 ⟨h, List.pairwise_singleton _ _, by simpa using hnone⟩

theorem Distinct.poolOf (h : Distinct pool) (vs : List Value) : Distinct (poolOf pool vs) := by
  induction vs generalizing pool with
  | nil => exact h
  | cons v vs ih => exact ih (h.pooled v)

/-- If a value stands for itself, the constants that can stand for it are identical to it. -/
theorem eq_of_standIn (h : Distinct pool) (hv : standIn pool v = v) (hw : w ∈ pool)
    (hsame : w.sameConstant v = true) : w = v := by
  obtain ⟨before, u, after, hpool, hu, hfirst, -, -, hstand⟩ | ⟨hnone, -⟩ := pool_cases pool v
  · obtain rfl : u = v := hstand.symm.trans hv
    rw [hpool] at h hw
    rcases List.mem_append.1 hw with hw | hw
    · rw [hfirst w hw] at hsame
      cases hsame
    · rcases List.mem_cons.1 hw with rfl | hw
      · rfl
      · -- Behind its stand-in there is no other candidate, as equality is symmetric.
        have hafter := (List.pairwise_cons.1 (List.pairwise_append.1 h).2.1).1 w hw
        rw [Value.sameConstant_comm, hsame] at hafter
        cases hafter
  · rw [hnone w hw] at hsame
    cases hsame

/-- All of some values stand for themselves just when no constant can stand for a different one,
neither one that is in the pool already nor one that has come in before. -/
theorem standIns_eq_iff (h : Distinct pool) :
    standIns pool vs = vs ↔
      (∀ w ∈ pool, ∀ v ∈ vs, w.sameConstant v = true → w = v) ∧
        vs.Pairwise fun w v => w.sameConstant v = true → w = v := by
  induction vs generalizing pool with
  | nil => simp [standIns]
  | cons v vs ih =>
      rw [standIns, List.cons.injEq, ih (h.pooled v), List.pairwise_cons]
      constructor
      · rintro ⟨hv, hpool, hvs⟩
        -- The value is its own stand-in, so it is in the pool that the later ones come into.
        have hmem : v ∈ pooled pool v := by
          have := standIn_mem pool v
          rwa [hv] at this
        refine ⟨fun w hw u hu hsame => ?_, fun u hu => hpool v hmem u hu, hvs⟩
        rcases List.mem_cons.1 hu with rfl | hu
        · exact eq_of_standIn h hv hw hsame
        · exact hpool w ((prefix_pooled pool v).subset hw) u hu hsame
      · rintro ⟨hpool, hv, hvs⟩
        refine ⟨standIn_eq_self fun w hw => hpool w hw v (by simp), fun w hw u hu => ?_, hvs⟩
        rcases mem_pooled hw with hw | rfl
        · exact hpool w hw u (by simp [hu])
        · exact hv u hu

end FormLang
