import FormLang.Proofs.Machine.Backends
import FormLang.Proofs.Machine.Computation

set_option autoImplicit false

/-! # Running well-formed chunks

A machine *follows* a computation when it goes on with the result of the computation, or fails as
the computation does. One instruction is followed from any stack (`Machine.follows_instr`), hence
rows of them and whole chunks. So a well-formed chunk does the same on any stack, for any frame
below it and on both machines (`Value.WellFormed.isolated`, `Value.WellFormed.runOn_eq`): it comes
to its outcome, and takes nothing from the stack that it has not pushed itself.
-/

namespace FormLang

/-! ## The machine follows a computation -/

namespace Machine

/-- The run fails inside a chunk, not at a disputed place, and leaves a record. -/
def Breaks (apply : Apply) (m : Machine) (f : Failure) (r : Record) : Prop :=
  ∃ last left, m.Leads apply last ∧ last.disputed = false ∧
    last.step apply = .failed f left ∧ left.record = r

/-- The machine does what a computation says: it goes on with the result, or it fails like the
computation. -/
def Follows {α : Type} (apply : Apply) (m : Machine) (x : Calling α) (next : α → Record → Machine) :
    Prop :=
  match x.run m.record with
  | (.ok a, r) => m.Leads apply (next a r)
  | (.error f, r) => m.Breaks apply f r

variable {α β : Type} {apply : Apply} {m m' : Machine} {x : Calling α} {f : Failure} {r : Record}
  {next : α → Record → Machine}

theorem Breaks.of_leads (hleads : m.Leads apply m') (h : m'.Breaks apply f r) :
    m.Breaks apply f r := by
  obtain ⟨last, left, h₁, h₂⟩ := h
  exact ⟨last, left, hleads.trans h₁, h₂⟩

theorem follows_of_ok {a : α} (hx : x.run m.record = (.ok a, r)) (h : m.Leads apply (next a r)) :
    m.Follows apply x next := by
  rw [Follows, hx]
  exact h

theorem follows_of_error (hx : x.run m.record = (.error f, r)) (h : m.Breaks apply f r) :
    m.Follows apply x next := by
  rw [Follows, hx]
  exact h

theorem Follows.ok {a : α} (h : m.Follows apply x next) (hx : x.run m.record = (.ok a, r)) :
    m.Leads apply (next a r) := by
  rw [Follows, hx] at h
  exact h

theorem Follows.error (h : m.Follows apply x next) (hx : x.run m.record = (.error f, r)) :
    m.Breaks apply f r := by
  rw [Follows, hx] at h
  exact h

theorem Follows.of_leads {y : Calling α} (hleads : m.Leads apply m')
    (hrun : x.run m.record = y.run m'.record) (h : m'.Follows apply y next) :
    m.Follows apply x next := by
  rw [Follows, ← hrun] at h
  rw [Follows]
  revert h
  rcases x.run m.record with ⟨f | a, r⟩
  · exact fun h => Breaks.of_leads hleads h
  · exact fun h => hleads.trans h

theorem follows_pure {a : α} (h : m.Leads apply (next a m.record)) :
    m.Follows apply (pure a) next := h

/-- A machine follows two computations one after the other. -/
theorem Follows.bind {g : α → Calling β} {next' : β → Record → Machine}
    (h : m.Follows apply x next) (hnext : ∀ a r, (next a r).record = r)
    (hg : ∀ a r, x.run m.record = (.ok a, r) → (next a r).Follows apply (g a) next') :
    m.Follows apply (x >>= g) next' := by
  rcases hx : x.run m.record with ⟨f | a, r⟩
  · rw [Follows, Tracked.run_bind_of_error hx]
    exact h.error hx
  · refine .of_leads (h.ok hx) ?_ (hg a r hx)
    rw [Tracked.run_bind_of_ok hx, hnext]

end Machine

/-! ## Stacks with something on top -/

namespace ValueStack

/-- The stack with some values on top of it, the first one uppermost. -/
def topped (s : ValueStack) (vs : List Value) : ValueStack := ofValues (vs ++ s.values)

@[simp] theorem topped_nil (s : ValueStack) : s.topped [] = s := ext rfl

theorem push_topped (s : ValueStack) (vs : List Value) (v : Value) :
    (s.topped vs).push v = s.topped (v :: vs) := ext rfl

theorem pop?_topped (s : ValueStack) (vs : List Value) (v : Value) :
    (s.topped (v :: vs)).pop? = some (v, s.topped vs) := by
  rw [← push_topped, pop?_push]

theorem gather_topped (s : ValueStack) {vs : List Value} {n : Nat} (h : n ≤ vs.length) :
    (s.topped vs).gather n = ((vs.take n).reverse, s.topped (vs.drop n)) := by
  have hdrop : (s.topped vs).drop n = s.topped (vs.drop n) := by
    ext1
    simp [topped, List.drop_append_of_le_length h]
  simp only [gather, take, Int.natCast_nonneg, if_true, Int.toNat_natCast, hdrop]
  simp [topped, List.take_append_of_le_length h]

theorem dropTo_topped (s : ValueStack) (vs : List Value) : (s.topped vs).dropTo s.height = s := by
  ext1
  simp [topped, s.height_eq]

end ValueStack

/-! ## Running a well-formed chunk -/

section

variable {apply : Apply} {pushable : Value → Prop} {code : Array UInt8} {constants : List Value}
  {under : ValueStack} {below : List Frame}

/-- A machine in the middle of a chunk that has pushed some values on top of a stack. -/
def Machine.inside (code : Array UInt8) (constants : List Value) (under : ValueStack)
    (below : List Frame) (ip : Nat) (vs : List Value) (r : Record) : Machine :=
  ⟨under.topped vs, ⟨.chunk code constants, ip, under.height⟩ :: below, r⟩

/-- The machine does on any stack what the value comes to on an empty one, and goes on with the
frame below. -/
def Value.Isolated (apply : Apply) (v : Value) : Prop :=
  ∀ (s : ValueStack) (f : Frame) (below : List Frame) (r : Record),
    (⟨s, ⟨v, 0, s.height⟩ :: f :: below, r⟩ : Machine).Follows apply (v.outcome apply)
      fun x r => ⟨s.push x, f :: below, r⟩

theorem Machine.step_inside (apply : Apply) (constants : List Value) (under : ValueStack)
    (below : List Frame) {i : Instr} {ip : Nat} (vs : List Value) (r : Record)
    (hb : code[ip]? = some i.opcode.byte) :
    (inside code constants under below ip vs r).step apply =
      handler apply code constants i.opcode
        ⟨.chunk code constants, under.height, ip + 1, below⟩ (under.topped vs) r := by
  rw [inside, Machine.step]
  dsimp only
  rw [hb]
  dsimp only
  rw [Opcode.ofByte?_byte]

section

variable {ip place : Nat} {vs : List Value} {r : Record} {v : Value}

theorem Machine.step_push (hb : code[ip]? = some Opcode.pushConst.byte)
    (hn : operandAt? code (ip + 1) = some place) (hv : constants[place]? = some v) :
    (inside code constants under below ip vs r).step apply =
      .next (inside code constants under below (ip + 3) (v :: vs) r) := by
  rw [step_inside apply constants under below (i := .push place) vs r hb]
  show withConstant code constants pushConst _ _ _ = _
  rw [withConstant_of_some hn hv, pushConst, ValueStack.push_topped]
  rfl

theorem Machine.step_gather {count : Nat} (hb : code[ip]? = some Opcode.list.byte)
    (hn : operandAt? code (ip + 1) = some count) (hle : count ≤ vs.length) :
    (inside code constants under below ip vs r).step apply =
      .next (inside code constants under below (ip + 3)
        (.list (vs.take count).reverse :: vs.drop count) r) := by
  rw [step_inside apply constants under below (i := .gather count) vs r hb]
  show withOperand code (fun n => gatherList n) _ _ _ = _
  rw [withOperand_of_some hn]
  show gatherList count _ _ _ = _
  rw [gatherList, ValueStack.gather_topped _ hle]
  dsimp only
  rw [ValueStack.push_topped]
  rfl

/-- What the machine does when it calls a function that comes to a value or fails. -/
def Machine.called (code : Array UInt8) (constants : List Value) (under : ValueStack)
    (below : List Frame) (ip : Nat) (vs : List Value) : Except Failure Value × Record → Step
  | (.ok x, r) => .next (inside code constants under below ip (x :: vs) r)
  | (.error f, r) => .failed f (inside code constants under below ip vs r)

theorem Machine.step_call {f : Callable} {args : Value}
    (hb : code[ip]? = some Opcode.call.byte) (hn : operandAt? code (ip + 1) = some place)
    (hf : constants[place]? = some (.callable f)) :
    (inside code constants under below ip (args :: vs) r).step apply =
      called code constants under below (ip + 3) vs (r.call apply f args) := by
  rw [step_inside apply constants under below (i := .call place) _ r hb]
  show withConstant code constants (callConst apply) _ _ _ = _
  rw [withConstant_of_some hn hf, callConst.eq_def, ValueStack.pop?_topped]
  dsimp only
  rcases r.call apply f args with ⟨g | x, r'⟩
  · rfl
  · show Step.next _ = _
    rw [ValueStack.push_topped]
    rfl

theorem Machine.step_enter (hb : code[ip]? = some Opcode.runChunk.byte)
    (hn : operandAt? code (ip + 1) = some place) (hv : constants[place]? = some v) :
    (inside code constants under below ip vs r).step apply =
      .next ⟨under.topped vs, ⟨v, 0, (under.topped vs).height⟩ ::
        ⟨.chunk code constants, ip + 3, under.height⟩ :: below, r⟩ := by
  rw [step_inside apply constants under below (i := .enter place) vs r hb]
  show withConstant code constants runChunk _ _ _ = _
  rw [withConstant_of_some hn hv]
  rfl

theorem Machine.follows_call {f : Callable} {args : Value}
    (hb : code[ip]? = some Opcode.call.byte) (hn : operandAt? code (ip + 1) = some place)
    (hf : constants[place]? = some (.callable f)) :
    (inside code constants under below ip (args :: vs) r).Follows apply
      (Calling.call apply f args)
      (fun x => inside code constants under below (ip + 3) (x :: vs)) := by
  have hstep : (inside code constants under below ip (args :: vs) r).step apply =
      called code constants under below (ip + 3) vs (r.call apply f args) := step_call hb hn hf
  rcases hr : r.call apply f args with ⟨g | x, r'⟩
  · rw [hr] at hstep
    exact follows_of_error hr ⟨_, _, .refl, rfl, hstep, rfl⟩
  · rw [hr] at hstep
    exact follows_of_ok hr (.single hstep)

end

/-- One instruction is followed, on any stack and above any frame. -/
theorem Machine.follows_instr {i : Instr} {ip h : Nat} {vs : List Value} {r : Record}
    (hb : code[ip]? = some i.opcode.byte) (hn : operandAt? code (ip + 1) = some i.operand)
    (hfits : i.Fits pushable constants) (hh : i.height vs.length = some h)
    (hnested : ∀ place v, i = .enter place → constants[place]? = some v → v.Isolated apply) :
    (inside code constants under below ip vs r).Follows apply (i.exec apply constants vs)
      (inside code constants under below (ip + 3)) := by
  obtain ⟨-, hfits⟩ := hfits
  cases i with
  | push place =>
      obtain ⟨v, hv, -⟩ := hfits
      rw [Instr.exec_push hv]
      exact follows_pure (.single (step_push hb hn hv))
  | gather count =>
      -- The height says that nothing is taken from the stack below.
      have hle : count ≤ vs.length := by
        simp only [Instr.height] at hh
        split at hh
        · assumption
        · cases hh
      exact follows_pure (.single (step_gather hb hn hle))
  | call place =>
      obtain ⟨f, hf⟩ := hfits
      cases vs with
      | nil => simp [Instr.height] at hh
      | cons args vs =>
          rw [Instr.exec_call hf]
          exact (follows_call hb hn hf).bind (fun _ _ => rfl) fun x r' _ => follows_pure .refl
  | enter place =>
      obtain ⟨v, hv⟩ := hfits
      rw [Instr.exec_enter hv]
      refine .of_leads (.single (step_enter hb hn hv)) rfl ?_
      -- The constant is run above this frame, and its value is pushed for it.
      refine (hnested place v rfl hv _ _ _ r).bind (fun _ _ => rfl) fun x r' _ => ?_
      refine follows_pure ?_
      rw [ValueStack.push_topped]
      exact .refl

theorem Machine.follows_exec {is : List Instr} {after : List UInt8} {ip h : Nat}
    (before : List UInt8) {vs : List Value} (hcode : code.toList = before ++ assemble is ++ after)
    (hip : ip = before.length) (hfits : ∀ i ∈ is, i.Fits pushable constants)
    (hh : heightAfter is vs.length = some h)
    (hnested : ∀ place v, .enter place ∈ is → constants[place]? = some v → v.Isolated apply)
    (r : Record) :
    (inside code constants under below ip vs r).Follows apply (exec apply constants is vs)
      (inside code constants under below (ip + 3 * is.length)) := by
  -- The code stays as it is; what moves from `after` to `before` is the next instruction.
  induction is generalizing before ip vs r with
  | nil => exact follows_pure .refl
  | cons i is ih =>
      obtain ⟨h₁, hi, his⟩ := Option.bind_eq_some_iff.1 hh
      have hfit := hfits i (by simp)
      have hb : code[ip]? = some i.opcode.byte :=
        byte_at before
          (by rw [hcode, assemble_cons, Instr.bytes]; simp only [List.append_assoc]; rfl) hip
      have hsplit : code.toList = before ++ i.bytes ++ (assemble is ++ after) := by simp [hcode]
      have hn : operandAt? code (ip + 1) = some i.operand := operand_at before hsplit hip hfit.1
      refine (follows_instr hb hn hfit hi fun place v hp => hnested place v (by simp [hp])).bind
        (fun _ _ => rfl) fun vs₁ r₁ hexec => ?_
      have hlength := Instr.exec_height hfit hi hexec
      have hnext : ip + 3 = (before ++ i.bytes).length := by simp [hip, Instr.bytes]
      have hrest := ih (before ++ i.bytes) (by simp [hcode]) hnext
        (fun j hj => hfits j (by simp [hj])) (by rw [hlength]; exact his)
        (fun place v hp => hnested place v (by simp [hp])) r₁
      have hend : ip + 3 + 3 * is.length = ip + 3 * (i :: is).length := by
        rw [List.length_cons]
        omega
      rwa [hend] at hrest

/-- At the return with one value, the value is handed on and all else is gone. -/
theorem Machine.step_ret {ip : Nat} (x : Value) (r : Record)
    (hb : code[ip]? = some Opcode.ret.byte) :
    (inside code constants under below ip [x] r).step apply =
      match below with
      | [] => .returned x ⟨under, [], r⟩
      | below => .next ⟨under.push x, below, r⟩ := by
  rw [inside, Machine.step]
  dsimp only
  rw [hb]
  dsimp only
  rw [Opcode.ofByte?_byte]
  dsimp only [handler]
  rw [returnTop, ValueStack.pop?_topped]
  cases below <;> dsimp only <;> rw [ValueStack.dropTo_topped]

end

/-! ## Whole chunks -/

namespace Assembles

variable {apply : Apply} {pushable : Value → Prop} {is : List Instr} {code : Array UInt8}
  {constants : List Value} (h : Assembles pushable is code constants)
include h

theorem eq_singleton_of_exec {vs : List Value} {r r' : Record}
    (hexec : (exec apply constants is []).run r = (.ok vs, r')) : ∃ x, vs = [x] := by
  have hheight : heightAfter is ([] : List Value).length = some 1 := h.height
  exact List.length_eq_one_iff.1 (exec_height h.fits hheight hexec)

theorem ret_at : code[3 * is.length]? = some Opcode.ret.byte :=
  byte_at _ h.code_eq (length_assemble is).symm

section

variable (hnested : ∀ place v, .enter place ∈ is → constants[place]? = some v → v.Isolated apply)
include hnested

/-- Where a machine that runs all instructions of a chunk comes to before the return. -/
theorem follows (under : ValueStack) (below : List Frame) (r : Record) :
    (⟨under, ⟨.chunk code constants, 0, under.height⟩ :: below, r⟩ : Machine).Follows apply
      (exec apply constants is []) (Machine.inside code constants under below (3 * is.length)) := by
  have hsplit : code.toList = [] ++ assemble is ++ [Opcode.ret.byte] := h.code_eq
  have hheight : heightAfter is ([] : List Value).length = some 1 := h.height
  have hfollows : (Machine.inside code constants under below 0 [] r).Follows apply
      (exec apply constants is [])
      (Machine.inside code constants under below (0 + 3 * is.length)) :=
    Machine.follows_exec [] hsplit rfl h.fits hheight hnested r
  rw [Nat.zero_add, Machine.inside, ValueStack.topped_nil] at hfollows
  exact hfollows

/-- The last state of a chunk that is run without a frame below it, and its last step. -/
theorem last (s : ValueStack) (r : Record) :
    ∃ last, (⟨s, [⟨.chunk code constants, 0, s.height⟩], r⟩ : Machine).Leads apply last ∧
      last.disputed = false ∧
      match (exec apply constants is [] >>= topOf).run r with
      | (.ok x, r') => last.step apply = .returned x ⟨s, [], r'⟩
      | (.error f, r') => ∃ left, last.step apply = .failed f left ∧ left.record = r' := by
  have hfollows := h.follows hnested s [] r
  rcases hexec : (exec apply constants is []).run r with ⟨f | vs, r'⟩
  · obtain ⟨last, left, hleads, hd, hstep, hrecord⟩ := hfollows.error hexec
    rw [Tracked.run_bind_of_error hexec]
    exact ⟨last, hleads, hd, left, hstep, hrecord⟩
  · obtain ⟨x, rfl⟩ := h.eq_singleton_of_exec hexec
    rw [Tracked.run_bind_of_ok hexec]
    exact ⟨_, hfollows.ok hexec, rfl, Machine.step_ret x r' h.ret_at⟩

/-- A chunk comes to what its instructions leave. -/
theorem outcome_eq :
    (Value.chunk code constants).outcome apply = exec apply constants is [] >>= topOf := by
  refine Tracked.ext fun r => ?_
  -- An empty stack is all that the outcome is about, so the machine is started on one.
  obtain ⟨last, hleads, -, hstep⟩ := h.last hnested .empty r
  have hresume : (⟨.empty, [⟨.chunk code constants, 0, 0⟩], r⟩ : Machine).resume apply =
      last.resume apply := Machine.resume_of_leads hleads
  rw [Value.outcome, Tracked.run_of, hresume]
  revert hstep
  rcases (exec apply constants is [] >>= topOf).run r with ⟨f | x, r'⟩
  · rintro ⟨left, hstep, rfl⟩
    rw [Machine.resume_of_failed hstep]
  · intro hstep
    rw [Machine.resume_of_returned hstep]

theorem isolated : (Value.chunk code constants).Isolated apply := by
  intro s f below r
  rw [h.outcome_eq hnested]
  refine (h.follows hnested s (f :: below) r).bind (fun _ _ => rfl) fun vs r' hexec => ?_
  obtain ⟨x, rfl⟩ := h.eq_singleton_of_exec hexec
  exact Machine.follows_pure (.single (Machine.step_ret x r' h.ret_at))

/-- On an empty stack the loop does the same as the machine. -/
theorem runOn_eq (backend : Backend) (nextMark : Nat) :
    runOn backend apply nextMark (.chunk code constants) =
      ((Value.chunk code constants).outcome apply).run ⟨[], nextMark⟩ := by
  obtain ⟨last, hleads, hd, hstep⟩ := h.last hnested .empty ⟨[], nextMark⟩
  cases backend with
  | table => rfl
  | flat =>
      -- The run ends in this chunk, where the loop takes the same steps as the machine.
      have hlast : ∀ next, last.step apply ≠ .next next := by
        intro next hnext
        rw [hnext] at hstep
        revert hstep
        rcases (exec apply constants is [] >>= topOf).run ⟨[], nextMark⟩ with ⟨f | x, r'⟩
        · rintro ⟨left, hstep, -⟩
          cases hstep
        · intro hstep
          cases hstep
      exact Machine.flat_eq_resume_of_last hleads hd hlast

end

end Assembles

namespace Value.WellFormed

variable {apply : Apply} {pushable : Value → Prop} {v : Value}

/-- A well-formed chunk does on any stack what it does on an empty one. -/
theorem isolated (h : v.WellFormed pushable) : v.Isolated apply := by
  induction h with
  | chunk is h _ ih => exact h.isolated ih

/-- Both ways of running a well-formed chunk come to its outcome. -/
theorem runOn_eq (h : v.WellFormed pushable) (backend : Backend) (nextMark : Nat) :
    runOn backend apply nextMark v = (v.outcome apply).run ⟨[], nextMark⟩ := by
  cases h with
  | chunk is h hnested =>
      exact h.runOn_eq (fun place v hp hv => (hnested place v hp hv).isolated) backend nextMark

end Value.WellFormed

end FormLang
