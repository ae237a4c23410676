import FormLang.Proofs.Chunk.Safety
import FormLang.Proofs.Chunk.Sharing

set_option autoImplicit false

/-! # Sharing that is observed

A constant that stands for a different part of the arguments does not go unnoticed. When functions
hand out which of them was called and with what (`labelled`), a chunk shows every constant that it
uses in what it comes to; and built chunks use all their constants (`Value.Tight`). So two of them
that are equal and come to the same are identical (`Value.Tight.eq_of_agree`). Hence a call gets its
own arguments, for all functions, just when no two different parts of the arguments can stand for
each other (`Chunk.runOn_ofCall`).
-/

namespace FormLang

/-! ## Chunks that use all their constants -/

/-- A well-formed chunk in which every constant is used, at any depth. -/
inductive Value.Tight : Value → Prop where
  | chunk {code : Array UInt8} {constants : List Value} (is : List Instr)
      (h : Assembles Value.Atomic is code constants)
      (hused : ∀ place < constants.length, ∃ i ∈ is, i.place? = some place)
      (hnested : ∀ place v, .enter place ∈ is → constants[place]? = some v → v.Tight) :
      Value.Tight (.chunk code constants)

theorem Value.Tight.wellFormed {v : Value} (h : v.Tight) : v.WellFormed Value.Atomic := by
  induction h with
  | chunk is h _ _ ih => exact .chunk is h ih

namespace Value

variable {v : Value} {vs pool : List Value} {place : Nat}

theorem used_leaf (hv : v.kind ≠ .list) (hnew : pool.length ≤ place)
    (hplace : place < (pooled pool v).length) : ∃ i ∈ v.plan pool, i.place? = some place := by
  -- There is room for one new place, and it belongs to the value itself.
  have hown : placeIn pool v = place := by
    obtain ⟨_, _, _, -, -, -, -, hpooled, -⟩ | ⟨-, hown, hpooled, -⟩ := pool_cases pool v
    · rw [hpooled] at hplace
      omega
    · rw [hpooled, List.length_append, List.length_singleton] at hplace
      omega
  by_cases hchunk : v.kind = .chunk
  · obtain ⟨code, constants, rfl⟩ := exists_of_kind_chunk hchunk
    exact ⟨_, List.mem_singleton_self _, congrArg some hown⟩
  · rw [plan_of_atomic ⟨hv, hchunk⟩]
    exact ⟨_, List.mem_singleton_self _, congrArg some hown⟩

theorem used_planOfAll
    (h : ∀ v ∈ vs, ∀ pool, pool.length ≤ place → place < (poolOf pool v.leaves).length →
      ∃ i ∈ v.plan pool, i.place? = some place)
    (hnew : pool.length ≤ place) (hplace : place < (poolOf pool (leavesOfAll vs)).length) :
    ∃ i ∈ planOfAll pool vs, i.place? = some place := by
  induction vs generalizing pool with
  | nil =>
      have : place < pool.length := hplace
      omega
  | cons v vs ih =>
      rw [leavesOfAll, poolOf_append] at hplace
      by_cases hfirst : place < (poolOf pool v.leaves).length
      · obtain ⟨i, hi, hp⟩ := h v (by simp) pool hnew hfirst
        exact ⟨i, List.mem_append_left _ hi, hp⟩
      · obtain ⟨i, hi, hp⟩ := ih (fun w hw => h w (by simp [hw])) (by omega) hplace
        exact ⟨i, List.mem_append_right _ hi, hp⟩

/-- All constants that come in with a value are used by the code for it. -/
theorem used_plan (v : Value) (hnew : pool.length ≤ place)
    (hplace : place < (poolOf pool v.leaves).length) :
    ∃ i ∈ v.plan pool, i.place? = some place := by
  induction v using leafInduction generalizing pool with
  | leaf v hv =>
      rw [leaves_of_ne hv] at hplace
      exact used_leaf hv hnew hplace
  | list items ih =>
      have hitems := used_planOfAll (fun v hv _ hnew hplace => ih v hv hnew hplace) hnew hplace
      obtain ⟨i, hi, hp⟩ := hitems
      exact ⟨i, List.mem_append_left _ hi, hp⟩

end Value

/-! ## Arguments -/

/-- A compiled argument: a value that is no chunk, a list of arguments, or a chunk that is built
from arguments. -/
inductive Value.Argument : Value → Prop where
  | atomic {v : Value} (h : v.Atomic) : Value.Argument v
  | list {items : List Value} (h : ∀ v ∈ items, v.Argument) : Value.Argument (.list items)
  | call {f : Callable} {args : List Value} {c : Chunk} (h : ∀ v ∈ args, v.Argument)
      (hc : Chunk.ofCall (.callable f) args = .ok c) : Value.Argument c.toValue
  | constant {v : Value} {c : Chunk} (h : v.Argument) (hc : Chunk.ofValue v = .ok c) :
      Value.Argument c.toValue

namespace Value

variable {v : Value} {args : List Value}

theorem tight_ofValue (h : ∀ w ∈ v.leaves, w.Atomic ∨ w.Tight) {c : Chunk}
    (hc : Chunk.ofValue v = .ok c) : c.toValue.Tight := by
  obtain ⟨hsmall, rfl⟩ := Chunk.ofValue_eq_ok_iff.1 hc
  refine .chunk _ (assembles hsmall) (fun place hplace => ?_)
    fun place w hi hw => nested_plan h hi hw
  exact v.used_plan (Nat.zero_le _) hplace

theorem tight_ofCall (h : ∀ w ∈ (Value.list args).leaves, w.Atomic ∨ w.Tight) {f : Callable}
    {c : Chunk} (hc : Chunk.ofCall (.callable f) args = .ok c) : c.toValue.Tight := by
  obtain ⟨hsmall, rfl⟩ := Chunk.ofCall_eq_ok_iff.1 hc
  refine .chunk _ (Chunk.assembles_call hsmall) (fun place hplace => ?_)
    fun place w hi hw => Chunk.nested_callPlan h hi hw
  by_cases hargs : place < (poolOf [] (leavesOfAll args)).length
  · obtain ⟨i, hi, hp⟩ := (Value.list args).used_plan (Nat.zero_le _) hargs
    exact ⟨i, List.mem_append_left _ hi, hp⟩
  · -- Behind the constants of the arguments there is at most the function.
    obtain ⟨i, hi, hp⟩ := used_leaf (atomic_callable f).1 (by omega) hplace
    rw [plan_of_atomic (atomic_callable f), List.mem_singleton] at hi
    subst hi
    exact ⟨_, List.mem_append_right _ (List.mem_singleton_self _), hp⟩

/-- The parts of arguments that become constants. -/
theorem Argument.leaves (h : v.Argument) : ∀ w ∈ v.leaves, w.Atomic ∨ w.Tight := by
  induction h with
  | atomic h => exact (forall_leaves_of_ne h.1).2 (.inl h)
  | list h ih => exact forall_leaves_list.2 ih
  | @call _ _ c _ hc ih =>
      exact (forall_leaves_of_ne c.kind_toValue).2
        (.inr (tight_ofCall (forall_leaves_list.2 ih) hc))
  | @constant _ c _ hc ih =>
      exact (forall_leaves_of_ne c.kind_toValue).2 (.inr (tight_ofValue ih hc))

end Value

/-! ## Telling constants apart -/

/-- Functions that hand out which of them was called, and with what. -/
def labelled : Apply := fun f args => .ok (.list [.callable f, args])

/-- The two values can come to the same when all functions are labelled. -/
def Value.Agree (v w : Value) : Prop :=
  ∃ x, (v.outcome labelled).Reaches x ∧ (w.outcome labelled).Reaches x

/-- Does an instruction use the same constant of either row, or chunks that agree? -/
def Instr.Agrees (constants others : List Value) : Instr → Prop
  | .push place => constants[place]? = others[place]?
  | .gather _ => True
  | .call place => constants[place]? = others[place]?
  | .enter place => ∃ v w, constants[place]? = some v ∧ others[place]? = some w ∧ v.Agree w

section

variable {constants others : List Value} {i : Instr} {is : List Instr} {vs ws xs : List Value}
  {f : Callable} {v x args : Value} {place : Nat}

/-- A labelled function gives away that it was called, and with what. -/
theorem eq_of_call_labelled (h : (Calling.call labelled f args).Reaches x) :
    x = .list [.callable f, args] := by
  obtain ⟨r, r', hrun⟩ := h
  cases hrun
  rfl

theorem getElem?_of_constantAt (h : (constantAt constants place).Reaches v) :
    constants[place]? = some v := by
  rw [constantAt] at h
  split at h
  · next w hw => rw [hw, h.of_pure]
  · exact absurd h (Tracked.not_reaches_throw _ v)

namespace Instr

theorem of_reaches_push (h : ((push place).exec labelled constants vs).Reaches xs) :
    ∃ v, constants[place]? = some v ∧ xs = v :: vs := by
  rw [exec] at h
  obtain ⟨v, hv, h⟩ := h.of_bind
  exact ⟨v, getElem?_of_constantAt hv, h.of_pure⟩

theorem of_reaches_enter (h : ((enter place).exec labelled constants vs).Reaches xs) :
    ∃ v x, constants[place]? = some v ∧ (v.outcome labelled).Reaches x ∧ xs = x :: vs := by
  rw [exec] at h
  obtain ⟨v, hv, h⟩ := h.of_bind
  obtain ⟨x, hx, h⟩ := h.of_bind
  exact ⟨v, x, getElem?_of_constantAt hv, hx, h.of_pure⟩

theorem of_reaches_call (h : ((call place).exec labelled constants vs).Reaches xs) :
    ∃ f args rest, constants[place]? = some (.callable f) ∧ vs = args :: rest ∧
      xs = .list [.callable f, args] :: rest := by
  cases vs with
  | nil => exact absurd h (Tracked.not_reaches_throw _ xs)
  | cons args rest =>
      rw [exec] at h
      obtain ⟨v, hv, h⟩ := h.of_bind
      cases v with
      | callable f =>
          obtain ⟨x, hx, h⟩ := h.of_bind
          obtain rfl := eq_of_call_labelled hx
          exact ⟨f, args, rest, getElem?_of_constantAt hv, rfl, h.of_pure⟩
      | _ => exact absurd h (Tracked.not_reaches_throw _ xs)

/-- An instruction that leaves the same with other values and other constants, does so with the
same values and agreeing constants. -/
theorem eq_and_agrees (h : (i.exec labelled constants vs).Reaches xs)
    (h' : (i.exec labelled others ws).Reaches xs) : vs = ws ∧ i.Agrees constants others := by
  cases i with
  | push place =>
      obtain ⟨v, hv, rfl⟩ := of_reaches_push h
      obtain ⟨w, hw, hxs⟩ := of_reaches_push h'
      obtain ⟨rfl, rfl⟩ := List.cons.inj hxs
      exact ⟨rfl, hv.trans hw.symm⟩
  | gather count =>
      obtain ⟨htaken, hdropped⟩ := List.cons.inj (h.of_pure.symm.trans h'.of_pure)
      have htaken := List.reverse_inj.1 (Value.list.inj htaken)
      refine ⟨?_, trivial⟩
      rw [← List.take_append_drop count vs, ← List.take_append_drop count ws, htaken, hdropped]
  | call place =>
      obtain ⟨f, args, rest, hf, rfl, rfl⟩ := of_reaches_call h
      obtain ⟨g, args', rest', hg, rfl, hxs⟩ := of_reaches_call h'
      obtain ⟨⟨rfl, rfl⟩, rfl⟩ : (f = g ∧ args = args') ∧ rest = rest' := by simpa using hxs
      exact ⟨rfl, hf.trans hg.symm⟩
  | enter place =>
      obtain ⟨v, x, hv, hx, rfl⟩ := of_reaches_enter h
      obtain ⟨w, y, hw, hy, hxs⟩ := of_reaches_enter h'
      obtain ⟨rfl, rfl⟩ := List.cons.inj hxs
      exact ⟨rfl, v, w, hv, hw, x, hx, hy⟩

end Instr

/-- Looking back from the values that some instructions leave, all that they started with and used
can be told. -/
theorem eq_and_agrees_of_exec (h : (exec labelled constants is vs).Reaches xs)
    (h' : (exec labelled others is ws).Reaches xs) :
    vs = ws ∧ ∀ i ∈ is, i.Agrees constants others := by
  induction is generalizing vs ws with
  | nil => exact ⟨h.of_pure.symm.trans h'.of_pure, by simp⟩
  | cons i is ih =>
      -- The later instructions come first: they tell what the first one has left.
      obtain ⟨vs₁, hi, his⟩ := h.of_bind
      obtain ⟨ws₁, hi', his'⟩ := h'.of_bind
      obtain ⟨rfl, hrest⟩ := ih his his'
      obtain ⟨rfl, hfirst⟩ := Instr.eq_and_agrees hi hi'
      exact ⟨rfl, List.forall_mem_cons.2 ⟨hfirst, hrest⟩⟩

end

namespace Value

/-- The instructions of a chunk leave the one value that the chunk comes to. -/
theorem Tight.reaches_exec {code : Array UInt8} {constants : List Value} {is : List Instr}
    {x : Value} (h : Assembles Value.Atomic is code constants)
    (hnested : ∀ place v, .enter place ∈ is → constants[place]? = some v → v.Tight)
    (hx : ((Value.chunk code constants).outcome labelled).Reaches x) :
    (exec labelled constants is []).Reaches [x] := by
  rw [h.outcome_eq fun place v hp hv => (hnested place v hp hv).wellFormed.isolated] at hx
  obtain ⟨vs, hexec, htop⟩ := hx.of_bind
  obtain ⟨r, r', hrun⟩ := hexec
  obtain ⟨y, rfl⟩ := h.eq_singleton_of_exec hrun
  obtain rfl := htop.of_pure
  exact ⟨r, r', hrun⟩

theorem Tight.equals_of_alike {v w : Value} (hv : v.Tight) (h : v.alike w = true) :
    v.equals w = true := by
  cases hv with
  | chunk is =>
      rw [alike, Bool.or_eq_true] at h
      exact h.resolve_left (by simp [sameUndefined])

/-- Equal chunks that use all their constants do not agree unless they are identical. -/
theorem Tight.eq_of_agree {v w : Value} (hv : v.Tight) (hw : w.Tight) (hequal : v.equals w = true)
    (h : v.Agree w) : v = w := by
  induction hv generalizing w with
  | @chunk code constants is his hused hnested ih =>
      cases hw with
      | @chunk code' others js hjs _ hnested' =>
          rw [equals, Bool.and_eq_true, beq_iff_eq] at hequal
          obtain ⟨rfl, hconstants⟩ := hequal
          obtain ⟨hlength, halike⟩ := alike_of_allEqual hconstants
          obtain rfl := his.unique hjs
          obtain ⟨x, hx, hx'⟩ := h
          obtain ⟨-, hagrees⟩ := eq_and_agrees_of_exec (Tight.reaches_exec his hnested hx)
            (Tight.reaches_exec hjs hnested' hx')
          -- Each constant is used by some instruction, and there the two runs agree on it.
          have hsame : constants = others := by
            refine List.ext_getElem? fun place => ?_
            by_cases hplace : place < constants.length
            · obtain ⟨i, hi, hp⟩ := hused place hplace
              have hagree := hagrees i hi
              cases i with
              | gather count => cases hp
              | enter place' =>
                  obtain rfl := Option.some.inj hp
                  obtain ⟨v, w, hv, hw, hagree⟩ := hagree
                  have hequal := (hnested _ v hi hv).equals_of_alike (halike _ v w hv hw)
                  rw [hv, hw, ih _ v hi hv (hnested' _ w hi hw) hequal hagree]
              | _ =>
                  obtain rfl := Option.some.inj hp
                  exact hagree
            · rw [List.getElem?_eq_none (by omega), List.getElem?_eq_none (by omega)]
          rw [hsame]

/-! ## Telling arguments apart -/

variable {v x : Value} {vs xs pool : List Value}

theorem standIn_eq_of_reaches (hv : v.kind ≠ .list) (htight : v.Atomic ∨ v.Tight)
    (hpool : ∀ w ∈ pool, w.Atomic ∨ w.Tight) (h : ((standIn pool v).expand labelled).Reaches x)
    (h' : (v.expand labelled).Reaches x) : standIn pool v = v := by
  have hkind := kind_standIn pool v
  by_cases hchunk : v.kind = .chunk
  · -- Chunks are told apart by what they come to.
    rw [expand_of_kind_chunk (hkind.trans hchunk)] at h
    rw [expand_of_kind_chunk hchunk] at h'
    obtain ⟨_, w, _, rfl, hsame, -, -, -, hw⟩ | ⟨-, -, -, hself⟩ := pool_cases pool v
    · rw [hw] at h hkind ⊢
      rw [sameConstant, Bool.and_eq_true] at hsame
      have hw := (hpool w (by simp)).resolve_left fun hatomic => hatomic.2 (hkind.trans hchunk)
      have hv := htight.resolve_left fun hatomic => hatomic.2 hchunk
      exact hw.eq_of_agree hv hsame.2 ⟨x, h, h'⟩
    · exact hself
  · -- Other values come to themselves.
    rw [expand_of_atomic ⟨hv, hchunk⟩] at h'
    rw [expand_of_atomic ⟨by rwa [hkind], by rwa [hkind]⟩] at h
    exact h.of_pure.symm.trans h'.of_pure

theorem sharedAll_eq_of
    (hvs : ∀ v ∈ vs, ∀ pool x, (∀ w ∈ pool, w.Atomic ∨ w.Tight) →
      ((v.shared pool).expand labelled).Reaches x → (v.expand labelled).Reaches x →
      v.shared pool = v)
    (htight : ∀ w ∈ leavesOfAll vs, w.Atomic ∨ w.Tight) (hpool : ∀ w ∈ pool, w.Atomic ∨ w.Tight)
    (h : (expandAll labelled (sharedAll pool vs)).Reaches xs)
    (h' : (expandAll labelled vs).Reaches xs) : sharedAll pool vs = vs := by
  induction vs generalizing pool xs with
  | nil => rfl
  | cons v vs ih =>
      obtain ⟨x, hx, h⟩ := h.of_bind
      obtain ⟨rest, hrest, h⟩ := h.of_bind
      obtain ⟨x', hx', h'⟩ := h'.of_bind
      obtain ⟨rest', hrest', h'⟩ := h'.of_bind
      obtain ⟨rfl, rfl⟩ := List.cons.inj (h.of_pure.symm.trans h'.of_pure)
      have hfirst := hvs v (by simp) pool x hpool hx hx'
      have hpool' : ∀ w ∈ poolOf pool v.leaves, w.Atomic ∨ w.Tight := fun w hw =>
        (mem_poolOf hw).elim (hpool w) fun hw => htight w (List.mem_append_left _ hw)
      have hlater := ih (fun w hw => hvs w (by simp [hw]))
        (fun w hw => htight w (List.mem_append_right _ hw)) hpool' hrest hrest'
      rw [sharedAll, hfirst, hlater]

theorem shared_eq_of_reaches (v : Value) (htight : ∀ w ∈ v.leaves, w.Atomic ∨ w.Tight)
    (hpool : ∀ w ∈ pool, w.Atomic ∨ w.Tight) (h : ((v.shared pool).expand labelled).Reaches x)
    (h' : (v.expand labelled).Reaches x) : v.shared pool = v := by
  induction v using leafInduction generalizing pool x with
  | leaf v hv =>
      rw [shared_of_ne hv] at h ⊢
      exact standIn_eq_of_reaches hv (htight v (by simp [leaves_of_ne hv])) hpool h h'
  | list items ih =>
      rw [shared, expand] at h
      rw [expand] at h'
      obtain ⟨xs, hxs, h⟩ := h.of_bind
      obtain ⟨xs', hxs', h'⟩ := h'.of_bind
      obtain rfl := Value.list.inj (h.of_pure.symm.trans h'.of_pure)
      have hitems := forall_leaves_list.1 htight
      rw [shared, sharedAll_eq_of (fun v hv pool x => ih v hv (hitems v hv)) htight hpool hxs hxs']

end Value

/-! ## Calls -/

/-- Nothing goes wrong when all functions are labelled. -/
theorem Value.WellFormed.reaches {v : Value} {pushable : Value → Prop} (h : v.WellFormed pushable)
    (r : Record) : ∃ x r', (v.outcome labelled).run r = (.ok x, r') := by
  rcases hrun : (v.outcome labelled).run r with ⟨f | x, r'⟩
  · obtain ⟨target, args, calls, -, hfails⟩ := h.blames r f r' hrun
    cases hfails
  · exact ⟨x, r', rfl⟩

/-- On either machine the code of a call hands the function what the stand-ins of the arguments
come to. It hands it what the arguments come to, whatever the functions are, just when no two parts
of the arguments that are equal and of one type differ. -/
theorem Chunk.runOn_ofCall {f : Callable} {args : List Value} {c : Chunk}
    (hargs : ∀ v ∈ args, v.Argument) (hc : Chunk.ofCall (.callable f) args = .ok c) :
    (∀ backend apply nextMark, runOn backend apply nextMark c.toValue =
      (do
        let vs ← Value.expandAll apply (Value.sharedAll [] args)
        Calling.call apply f (.list vs)).run ⟨[], nextMark⟩) ∧
    ((∀ backend apply nextMark, runOn backend apply nextMark c.toValue =
      (do
        let vs ← Value.expandAll apply args
        Calling.call apply f (.list vs)).run ⟨[], nextMark⟩) ↔
      (Value.leavesOfAll args).Pairwise fun v w => v.sameConstant w = true → v = w) := by
  have htight := (Value.Argument.list hargs).leaves
  have hlist : (Value.list args).Emittable := fun w hw =>
    (htight w hw).imp_right Value.Tight.wellFormed
  have hwell := hlist.ofCall hc
  have houtcome : ∀ apply, c.toValue.outcome apply = (do
      let vs ← Value.expandAll apply (Value.sharedAll [] args)
      Calling.call apply f (.list vs)) := fun apply => outcome_ofCall hlist hc
  have hshared : ∀ backend apply nextMark, runOn backend apply nextMark c.toValue =
      (do
        let vs ← Value.expandAll apply (Value.sharedAll [] args)
        Calling.call apply f (.list vs)).run ⟨[], nextMark⟩ := by
    intro backend apply nextMark
    rw [hwell.runOn_eq, houtcome]
  refine ⟨hshared, ?_⟩
  rw [← Value.sharedAll_eq_iff]
  constructor
  · -- What holds for all functions holds for labelled ones, which never fail.
    intro hrun
    obtain ⟨x, r, hx⟩ := hwell.reaches ⟨[], 0⟩
    have hx' := hrun .table labelled 0
    rw [hwell.runOn_eq, hx] at hx'
    rw [houtcome] at hx
    obtain ⟨vs, hvs, hcall⟩ := Tracked.Reaches.of_bind ⟨_, _, hx⟩
    obtain ⟨ws, hws, hcall'⟩ := Tracked.Reaches.of_bind ⟨_, _, hx'.symm⟩
    have hcalls := (eq_of_call_labelled hcall).symm.trans (eq_of_call_labelled hcall')
    obtain rfl : vs = ws := by simpa using hcalls
    have hitems := Value.forall_leaves_list.1 htight
    exact Value.sharedAll_eq_of (fun v hv pool x => Value.shared_eq_of_reaches v (hitems v hv))
      htight (by simp) hvs hws
  · intro hself
    rwa [hself] at hshared

/-- Two equal chunks share a place among the constants, and each of them is run. -/
theorem runOn_ofCall_twice :
    let inner : Chunk := ⟨#[0x51, 0, 0, 0x40, 0, 0, 0x24], [.callable (.plain "g")]⟩
    let args := [inner.toValue, inner.toValue]
    let c : Chunk := ⟨#[0x41, 0, 0, 0x41, 0, 0, 0x51, 0, 2, 0x40, 0, 1, 0x24],
      [inner.toValue, .callable (.plain "f")]⟩
    Chunk.ofCall (.callable (.plain "f")) args = .ok c ∧
      ∀ backend apply nextMark, runOn backend apply nextMark c.toValue =
        (do
          let vs ← Value.expandAll apply args
          Calling.call apply (.plain "f") (.list vs)).run ⟨[], nextMark⟩ := by
  intro inner args c
  have hsame : inner.toValue.sameConstant inner.toValue = true := by
    simp [inner, Chunk.toValue, Value.sameConstant, Value.equals, Value.allEqual]
  have hother : inner.toValue.sameConstant (.callable (.plain "f")) = false := rfl
  have hc : Chunk.ofCall (.callable (.plain "f")) args = .ok c := by
    have hplan : Chunk.callPlan (.callable (.plain "f")) args =
        [.enter 0, .enter 0, .gather 2, .call 1] := by
      simp only [Chunk.toValue] at hsame hother
      simp [Chunk.callPlan, args, Chunk.toValue, Value.plan, Value.planOfAll, Value.leavesOfAll,
        Value.leaves, poolOf, pooled, placeIn, List.findIdx?_cons, hsame, hother]
    have hpool : Chunk.callPool (.callable (.plain "f")) args =
        [inner.toValue, .callable (.plain "f")] := by
      simp only [Chunk.toValue] at hsame hother
      simp [Chunk.callPool, args, Chunk.toValue, Value.leavesOfAll, Value.leaves, poolOf, pooled,
        List.findIdx?_cons, hsame, hother]
    rw [Chunk.ofCall_eq_ok_iff, hplan, hpool]
    exact ⟨by simp [Instr.operand, Emit.maxOperand], rfl⟩
  have hinner : Chunk.ofCall (.callable (.plain "g")) [] = .ok inner := rfl
  have hargs : ∀ v ∈ args, v.Argument := by
    intro v hv
    obtain rfl : v = inner.toValue := by simpa [args] using hv
    exact .call (by simp) hinner
  obtain ⟨-, hexact⟩ := Chunk.runOn_ofCall hargs hc
  exact ⟨hc, hexact.2 (by simp [args, Value.leavesOfAll, Chunk.toValue, Value.leaves])⟩

end FormLang
