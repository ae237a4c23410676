import FormLang.Proofs.Chunk.Emission
import FormLang.Proofs.Value.Equivalence

set_option autoImplicit false

/-! # Chunks under construction

Whoever builds a chunk may emit into it in any order, and go on after a step that has failed. What
is there stays at its place all the same (`Chunk.growsInto_afterAll`), and no two constants can
stand for each other. So a place that the table of constants has answered once is the answer for
good: the constant there can stand for the value that was asked for, and for every value that is
equal to it (`constants_stay_put`).
-/

namespace FormLang

/-! ## The constant at a place -/

/-- Has the pool a constant at a place that can stand for a value? -/
def Holds (pool : List Value) (v : Value) (place : Nat) : Prop :=
  ∃ u, pool[place]? = some u ∧ u.sameConstant v = true

namespace Value

variable {u v w : Value}

theorem sameConstant_iff : u.sameConstant v = true ↔ u.kind = v.kind ∧ u.equals v = true := by
  rw [sameConstant, Bool.and_eq_true, beq_iff_eq]

theorem sameConstant_trans (h : u.sameConstant v = true) (h' : v.sameConstant w = true) :
    u.sameConstant w = true := by
  obtain ⟨hkind, hequals⟩ := sameConstant_iff.1 h
  obtain ⟨hkind', hequals'⟩ := sameConstant_iff.1 h'
  exact sameConstant_iff.2 ⟨hkind.trans hkind', equals_trans hequals hequals'⟩

theorem sameConstant_refl (h : v.Defined) : v.sameConstant v = true :=
  sameConstant_iff.2 ⟨rfl, equals_refl h⟩

end Value

section

variable {pool pool' : List Value} {v w : Value} {place : Nat}

theorem Holds.mono (h : Holds pool v place) (hpool : pool <+: pool') :
    Holds pool' v place := by
  obtain ⟨u, hu, hsame⟩ := h
  obtain ⟨later, rfl⟩ := hpool
  obtain ⟨hlt, -⟩ := List.getElem?_eq_some_iff.1 hu
  exact ⟨u, by rw [List.getElem?_append_left hlt, hu], hsame⟩

/-- The place that a value is given holds it, unless there is an undefined number in it. -/
theorem holds_pooled (pool : List Value) (hv : v.Defined) :
    Holds (pooled pool v) v (placeIn pool v) := by
  refine ⟨standIn pool v, getElem?_placeIn pool v, ?_⟩
  obtain ⟨_, w, _, -, hsame, -, -, -, hw⟩ | ⟨-, -, -, hself⟩ := pool_cases pool v
  · rwa [hw]
  · rw [hself]
    exact Value.sameConstant_refl hv

/-- A pool without two constants that can stand for each other has only one place for a value. -/
theorem Holds.placeIn_eq (h : Holds pool v place) (hpool : Distinct pool)
    (hw : w.sameConstant v = true) : placeIn pool w = place ∧ pooled pool w = pool := by
  obtain ⟨u, hu, huv⟩ := h
  obtain ⟨hlt, rfl⟩ := List.getElem?_eq_some_iff.1 hu
  have hwu : w.sameConstant pool[place] = true :=
    Value.sameConstant_trans hw (by rwa [Value.sameConstant_comm])
  have huw : pool[place].sameConstant w = true := by rwa [Value.sameConstant_comm]
  obtain ⟨before, x, after, hsplit, hxw, -, hplace, hpooled, -⟩ | ⟨hnone, -⟩ := pool_cases pool w
  · refine ⟨?_, hpooled⟩
    rw [hplace]
    -- Otherwise the first candidate and the one at the place could stand for each other.
    have hx : pool[before.length]? = some x := by simp [hsplit]
    obtain ⟨hltx, rfl⟩ := List.getElem?_eq_some_iff.1 hx
    have hpairs := List.pairwise_iff_getElem.1 hpool
    rcases Nat.lt_trichotomy before.length place with hless | heq | hmore
    · have hxu := Value.sameConstant_trans hxw hwu
      rw [hpairs _ _ hltx hlt hless] at hxu
      cases hxu
    · exact heq
    · have hwx : w.sameConstant pool[before.length] = true := by rwa [Value.sameConstant_comm]
      have hux := Value.sameConstant_trans huw hwx
      rw [hpairs _ _ hlt hltx hmore] at hux
      cases hux
  · rw [hnone _ (List.getElem_mem hlt)] at huw
    cases huw

end

/-! ## Growing -/

/-- The second chunk has all that the first one has, at the same places, and it has no constants
that can stand for each other if the first one has none. -/
structure Chunk.GrowsInto (c c' : Chunk) : Prop where
  code : c.code.toList <+: c'.code.toList
  constants : c.constants <+: c'.constants
  distinct : Distinct c.constants → Distinct c'.constants

theorem Chunk.GrowsInto.refl (c : Chunk) : c.GrowsInto c :=
  ⟨List.prefix_rfl, List.prefix_rfl, id⟩

theorem Chunk.GrowsInto.trans {c c' c'' : Chunk} (h : c.GrowsInto c') (h' : c'.GrowsInto c'') :
    c.GrowsInto c'' :=
  ⟨h.code.trans h'.code, h.constants.trans h'.constants, fun hc => h'.distinct (h.distinct hc)⟩

namespace Emit

/-- The steps only add to a chunk, whether they come to an end or fail on the way. -/
def Grows {α : Type} (steps : Emit α) : Prop := ∀ c : Chunk, c.GrowsInto (steps.run c).2

section

variable {α β : Type} {steps : Emit α} {more : α → Emit β}

theorem grows_pure (a : α) : Grows (pure a : Emit α) := fun c => .refl c

theorem grows_throw (f : Fault) : Grows (throw f : Emit α) := fun c => .refl c

/-- What is emitted behind some steps comes on top of what they have added. -/
theorem growsInto_bind (steps : Emit α) (h : ∀ a, Grows (more a)) (c : Chunk) :
    (steps.run c).2.GrowsInto ((steps >>= more).run c).2 := by
  rcases hsteps : steps.run c with ⟨f | a, c'⟩
  · rw [Tracked.run_bind_of_error hsteps]
    exact .refl c'
  · rw [Tracked.run_bind_of_ok hsteps]
    exact h a c'

theorem Grows.bind (h : Grows steps) (h' : ∀ a, Grows (more a)) : Grows (steps >>= more) :=
  fun c => (h c).trans (growsInto_bind steps h' c)

end

theorem grows_byte (b : UInt8) : Grows (byte b) := by
  intro c
  refine ⟨?_, List.prefix_rfl, id⟩
  show c.code.toList <+: (c.code.push b).toList
  rw [Array.toList_push]
  exact List.prefix_append _ _

theorem grows_op (o : Opcode) : Grows (op o) := grows_byte o.byte

theorem grows_opNumber (n : Int) : Grows (opNumber n) := by
  rw [opNumber]
  split
  · exact grows_byte _
  · exact grows_throw _

theorem grows_operand (n : Int) : Grows (operand n) := by
  rw [operand]
  split
  · exact (grows_byte _).bind fun _ => (grows_byte _).bind fun _ => grows_pure ()
  · exact grows_throw _

theorem grows_constant (v : Value) : Grows (constant v) := by
  intro c
  rw [run_constant]
  exact ⟨List.prefix_rfl, prefix_pooled _ v, fun hc => hc.pooled v⟩

theorem grows_pushConstant (v : Value) : Grows (pushConstant v) :=
  (grows_constant v).bind fun _ => (grows_op _).bind fun _ => grows_operand _

theorem grows_runConstant (v : Value) : Grows (runConstant v) :=
  (grows_op _).bind fun _ => (grows_constant v).bind fun _ => grows_operand _

theorem grows_gather (n : Nat) : Grows (do let _ ← op .list; operand n) :=
  (grows_op _).bind fun _ => grows_operand _

theorem grows_values {vs : List Value} (h : ∀ v ∈ vs, Grows (value v)) : Grows (values vs) := by
  induction vs with
  | nil => exact grows_pure ()
  | cons v vs ih => exact (h v (by simp)).bind fun _ => ih fun w hw => h w (by simp [hw])

theorem grows_value (v : Value) : Grows (value v) := by
  induction v using Value.leafInduction with
  | leaf v hv =>
      by_cases hchunk : v.kind = .chunk
      · obtain ⟨code, constants, rfl⟩ := Value.exists_of_kind_chunk hchunk
        exact grows_runConstant _
      · rw [value_of_atomic ⟨hv, hchunk⟩]
        exact grows_pushConstant v
  | list items ih => exact (grows_values ih).bind fun _ => grows_gather items.length

end Emit

/-! ## Steps -/

/-- A step in building a chunk. -/
inductive BuildStep where
  /-- Asks for the place of a constant. -/
  | constant (v : Value)
  /-- Adds an instruction by its number. -/
  | op (number : Int)
  | operand (n : Int)
  | pushConstant (v : Value)
  | value (v : Value)
  | ret

/-- What a step does. -/
def BuildStep.emit : BuildStep → Emit Unit
  | .constant v => do
    let _ ← Emit.constant v
  | .op number => do
    let _ ← Emit.opNumber number
  | .operand n => Emit.operand n
  | .pushConstant v => Emit.pushConstant v
  | .value v => Emit.value v
  | .ret => Emit.ret

/-- The chunk behind a step; if the step fails, with what it has added until then. -/
def Chunk.after (c : Chunk) (step : BuildStep) : Chunk := (step.emit.run c).2

/-- The chunk behind some steps, one after the other. -/
def Chunk.afterAll (c : Chunk) (steps : List BuildStep) : Chunk := steps.foldl Chunk.after c

theorem BuildStep.grows_emit (step : BuildStep) : step.emit.Grows := by
  cases step with
  | constant v => exact (Emit.grows_constant v).bind fun _ => Emit.grows_pure ()
  | op number => exact (Emit.grows_opNumber number).bind fun _ => Emit.grows_pure ()
  | operand n => exact Emit.grows_operand n
  | pushConstant v => exact Emit.grows_pushConstant v
  | value v => exact Emit.grows_value v
  | ret => exact (Emit.grows_op .ret).bind fun _ => Emit.grows_pure ()

/-- A chunk grows with each step, and so with any number of them. -/
theorem Chunk.growsInto_afterAll (c : Chunk) (steps : List BuildStep) :
    c.GrowsInto (c.afterAll steps) := by
  induction steps generalizing c with
  | nil => exact .refl c
  | cons step steps ih => exact (step.grows_emit c).trans (ih (c.after step))

/-! ## What is asked for -/

mutual
/-- The values that the table of constants is asked for while a value is emitted, each with the
place that is answered. -/
def Value.asked (c : Chunk) : Value → List (Value × Nat)
  | .list items => Value.askedOfAll c items
  | v => [(v, (c.addConstant v).1)]

/-- The same for some values, one after the other. Behind a value that fails, nothing is asked any
more. -/
def Value.askedOfAll (c : Chunk) : List Value → List (Value × Nat)
  | [] => []
  | v :: rest =>
    v.asked c ++
      match (Emit.value v).run c with
      | (.ok _, c') => Value.askedOfAll c' rest
      | (.error _, _) => []
end

/-- The values that the table of constants is asked for in a step, each with the place that is
answered. -/
def BuildStep.asked (c : Chunk) : BuildStep → List (Value × Nat)
  | .constant v => [(v, (c.addConstant v).1)]
  | .pushConstant v => [(v, (c.addConstant v).1)]
  | .value v => v.asked c
  | _ => []

namespace Emit

variable {v w : Value} {place : Nat}

/-- The constants are the same behind an operand, whether or not it is too large. -/
theorem constants_operand (n : Int) (c : Chunk) :
    ((operand n).run c).2.constants = c.constants := by
  rw [operand]
  split <;> rfl

theorem constants_pushConstant (v : Value) (c : Chunk) :
    ((pushConstant v).run c).2.constants = pooled c.constants v := by
  rw [pushConstant, Tracked.run_bind_of_ok (run_constant v c), Tracked.run_bind_of_ok (run_op _ _),
    constants_operand]

theorem constants_runConstant (v : Value) (c : Chunk) :
    ((runConstant v).run c).2.constants = pooled c.constants v := by
  rw [runConstant, Tracked.run_bind_of_ok (run_op _ c), Tracked.run_bind_of_ok (run_constant v _),
    constants_operand]

theorem constants_leaf (hv : v.kind ≠ .list) (c : Chunk) :
    ((value v).run c).2.constants = pooled c.constants v := by
  by_cases hchunk : v.kind = .chunk
  · obtain ⟨code, constants, rfl⟩ := Value.exists_of_kind_chunk hchunk
    exact constants_runConstant _ c
  · rw [value_of_atomic ⟨hv, hchunk⟩, constants_pushConstant]

/-- The place that was answered holds the value, as soon as the constants are those of a pool with a
place for it. -/
theorem holds_of_asked {c c' : Chunk} (hc' : c'.constants = pooled c.constants w)
    (hasked : (v, place) ∈ [(w, (c.addConstant w).1)]) (hv : v.Defined) :
    Holds c'.constants v place := by
  obtain ⟨rfl, rfl⟩ := Prod.mk.inj (List.mem_singleton.1 hasked)
  rw [hc', Chunk.addConstant_eq]
  exact holds_pooled _ hv

theorem holds_values {vs : List Value}
    (h : ∀ w ∈ vs, ∀ c : Chunk, (v, place) ∈ w.asked c →
      Holds ((value w).run c).2.constants v place)
    (c : Chunk) (hasked : (v, place) ∈ Value.askedOfAll c vs) :
    Holds ((values vs).run c).2.constants v place := by
  induction vs generalizing c with
  | nil => cases hasked
  | cons w vs ih =>
      rw [Value.askedOfAll, List.mem_append] at hasked
      rcases hasked with hasked | hasked
      · -- What comes behind the value only adds to the constants.
        have hgrows : ∀ _ : Unit, Grows (values vs) := fun _ =>
          grows_values fun w _ => grows_value w
        exact (h w (by simp) c hasked).mono (growsInto_bind (value w) hgrows c).constants
      · rcases hrun : (value w).run c with ⟨f | a, c'⟩
        · rw [hrun] at hasked
          cases hasked
        · rw [hrun] at hasked
          have hrest := ih (fun w hw => h w (by simp [hw])) c' hasked
          rwa [values, Tracked.run_bind_of_ok hrun]

/-- All that is asked for while a value is emitted is held at the place that was answered, also if
emitting the value fails in the end. -/
theorem holds_value (hv : v.Defined) (w : Value) (c : Chunk) (hasked : (v, place) ∈ w.asked c) :
    Holds ((value w).run c).2.constants v place := by
  induction w using Value.leafInduction generalizing c with
  | leaf w hw =>
      refine holds_of_asked (constants_leaf hw c) ?_ hv
      cases w with
      | list items => exact absurd rfl hw
      | _ => exact hasked
  | list items ih =>
      have hgrows : ∀ _ : Unit, Grows (do let _ ← op .list; operand items.length) :=
        fun _ => grows_gather items.length
      exact (holds_values ih c hasked).mono (growsInto_bind (values items) hgrows c).constants

end Emit

/-- Behind a step, the places that were answered hold what was asked for. -/
theorem BuildStep.holds_after {v : Value} {place : Nat} (hv : v.Defined) (step : BuildStep)
    (c : Chunk) (hasked : (v, place) ∈ step.asked c) :
    Holds (c.after step).constants v place := by
  cases step with
  | constant w =>
      have hconstants : (c.after (.constant w)).constants = pooled c.constants w := by
        rw [Chunk.after, emit, Tracked.run_bind_of_ok (Emit.run_constant w c)]
        rfl
      exact Emit.holds_of_asked hconstants hasked hv
  | pushConstant w => exact Emit.holds_of_asked (Emit.constants_pushConstant w c) hasked hv
  | value w => exact Emit.holds_value hv w c hasked
  | _ => cases hasked

/-- A chunk that is built from nothing, by steps of any kind that may fail on the way, only grows,
and no two of its constants can stand for each other. Each place that the table of constants has
answered for a value without undefined numbers keeps a constant of the same type that is equal to
the value; and whoever asks for an equal value of this type later is answered the same place, and
nothing is added. -/
theorem constants_stay_put (earlier : List BuildStep) (step : BuildStep) (later : List BuildStep) :
    let before := Chunk.empty.afterAll earlier
    let after := Chunk.empty.afterAll (earlier ++ step :: later)
    before.code.toList <+: after.code.toList ∧ before.constants <+: after.constants ∧
      Distinct after.constants ∧
      ∀ v place, (v, place) ∈ step.asked before → v.Defined →
        (∃ u, after.constants[place]? = some u ∧ u.kind = v.kind ∧ u.equals v = true) ∧
          ∀ w : Value, w.kind = v.kind → w.equals v = true →
            (Emit.constant w).run after = (.ok place, after) := by
  intro before after
  have hafter : after = (before.after step).afterAll later := by
    simp [after, before, Chunk.afterAll]
  have hgrows : before.GrowsInto after := by
    rw [hafter]
    exact (step.grows_emit before).trans (Chunk.growsInto_afterAll _ later)
  have hdistinct : Distinct after.constants :=
    (Chunk.growsInto_afterAll Chunk.empty _).distinct List.Pairwise.nil
  refine ⟨hgrows.code, hgrows.constants, hdistinct, fun v place hasked hv => ?_⟩
  have hholds : Holds after.constants v place := by
    rw [hafter]
    exact (step.holds_after hv before hasked).mono (Chunk.growsInto_afterAll _ later).constants
  constructor
  · obtain ⟨u, hu, hsame⟩ := hholds
    exact ⟨u, hu, Value.sameConstant_iff.1 hsame⟩
  · intro w hkind hequals
    obtain ⟨hplace, hpooled⟩ :=
      hholds.placeIn_eq hdistinct (Value.sameConstant_iff.2 ⟨hkind, hequals⟩)
    rw [Emit.run_constant, hplace, hpooled]

/-- A list that is too long is refused when all its elements have been emitted. What they were given
stays, also when a truth value that counts as the same number comes in. -/
theorem constants_stay_put_refused :
    let one : Value := .number (.int 1)
    let step : BuildStep := .value (.list (List.replicate 65536 one))
    let after := Chunk.empty.afterAll [step, .constant (.truth true)]
    (∃ n, (step.emit.run Chunk.empty).1 = .error (.operandRange n)) ∧
      (one, 0) ∈ step.asked Chunk.empty ∧ one.Defined ∧
      (Emit.constant one).run after = (.ok 0, after) := by
  intro one step after
  have hrefused : ∃ n, (step.emit.run Chunk.empty).1 = .error (.operandRange n) := by
    have hlarge : ∃ i ∈ (Value.list (List.replicate 65536 one)).plan Chunk.empty.constants,
        Emit.maxOperand < i.operand := by
      refine ⟨.gather 65536, ?_, by simp [Instr.operand, Emit.maxOperand]⟩
      rw [Value.plan, List.length_replicate]
      exact List.mem_append_right _ (List.mem_singleton_self _)
    obtain ⟨n, left, hrun⟩ :=
      (Emit.emits_value (.list (List.replicate 65536 one)) Chunk.empty).2 hlarge
    exact ⟨n, congrArg Prod.fst hrun⟩
  have hfirst : ∀ n, (one, 0) ∈ (Value.list (List.replicate (n + 1) one)).asked Chunk.empty := by
    intro n
    rw [Value.asked, List.replicate_succ, Value.askedOfAll]
    exact List.mem_append_left _ (List.mem_singleton_self _)
  have hdefined : one.Defined := by
    rintro n ⟨⟩
    exact ⟨_, rfl⟩
  obtain ⟨-, -, -, hstay⟩ := constants_stay_put [] step [.constant (.truth true)]
  obtain ⟨-, hagain⟩ := hstay one 0 (hfirst 65535) hdefined
  exact ⟨hrefused, hfirst 65535, hdefined, hagain one rfl (Value.equals_refl hdefined)⟩

end FormLang
