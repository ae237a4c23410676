import FormLang.Machine.Dispatch
import FormLang.Proofs.Machine.Instruction
import FormLang.Proofs.Tracked

set_option autoImplicit false

/-! # Instructions as computations

What a row of instructions does is said here without a machine: it turns the values that have been
pushed into others and makes calls on the way (`exec`). A chunk among the constants is run for its
`outcome`, and where it stands in the row makes no difference. Instructions that fit leave as many
values as `heightAfter` says.
-/

namespace FormLang

/-! ## What instructions do -/

/-- What a value comes to when it is run on an empty stack. -/
def Value.outcome (apply : Apply) (v : Value) : Calling Value :=
  Tracked.of fun r =>
    let (result, m) := (⟨.empty, [⟨v, 0, 0⟩], r⟩ : Machine).resume apply
    (result, m.record)

/-- The constant at a place. -/
def constantAt (constants : List Value) (place : Nat) : Calling Value :=
  match constants[place]? with
  | some v => pure v
  | none => throw (.fault .listIndex)

/-- What an instruction does to the values that its chunk has pushed, the top first. -/
def Instr.exec (apply : Apply) (constants : List Value) : Instr → List Value →
    Calling (List Value)
  | .push place, vs => do
    let v ← constantAt constants place
    return v :: vs
  | .gather count, vs => pure (.list (vs.take count).reverse :: vs.drop count)
  | .call place, args :: vs => do
    match ← constantAt constants place with
    | .callable f =>
      let result ← Calling.call apply f args
      return result :: vs
    | v => throw (.fault (.wrongType (Misfit.notCallable v.kind.typeName)))
  | .call _, [] => throw (.fault .stackEmpty)
  | .enter place, vs => do
    let v ← constantAt constants place
    let result ← v.outcome apply
    return result :: vs

/-- What some instructions do, one after the other. -/
def exec (apply : Apply) (constants : List Value) : List Instr → List Value →
    Calling (List Value)
  | [], vs => pure vs
  | i :: is, vs => do
    let vs ← i.exec apply constants vs
    exec apply constants is vs

theorem exec_append (apply : Apply) (constants : List Value) (is js : List Instr)
    (vs : List Value) :
    exec apply constants (is ++ js) vs =
      exec apply constants is vs >>= exec apply constants js := by
  induction is generalizing vs with
  | nil => simp [exec]
  | cons i is ih => simp [exec, ih]

/-- The one value that code has left. -/
def topOf : List Value → Calling Value
  | v :: _ => pure v
  | [] => throw (.fault .stackEmpty)

section

variable {apply : Apply} {pushable : Value → Prop} {constants : List Value} {i : Instr}
  {is : List Instr} {vs vs' : List Value} {v : Value} {place h : Nat} {r r' : Record}

namespace Instr

theorem exec_push (hv : constants[place]? = some v) :
    (push place).exec apply constants vs = pure (v :: vs) := by
  simp [exec, constantAt, hv]

theorem exec_call {f : Callable} (hv : constants[place]? = some (.callable f)) :
    (call place).exec apply constants (v :: vs) = (do
      let result ← Calling.call apply f v
      return result :: vs) := by
  simp [exec, constantAt, hv]

theorem exec_enter (hv : constants[place]? = some v) :
    (enter place).exec apply constants vs = (do
      let result ← v.outcome apply
      return result :: vs) := by
  simp [exec, constantAt, hv]

/-- The height that is computed for an instruction is the one that it leaves. -/
theorem exec_height (hfits : i.Fits pushable constants) (hh : i.height vs.length = some h)
    (hexec : (i.exec apply constants vs).run r = (.ok vs', r')) : vs'.length = h := by
  obtain ⟨-, hfits⟩ := hfits
  cases i with
  | push place =>
      obtain ⟨v, hv, -⟩ := hfits
      rw [exec_push hv] at hexec
      cases hexec
      simpa [height] using hh
  | gather count =>
      cases hexec
      simp only [height] at hh
      split at hh
      · have := Option.some.inj hh
        simp only [List.length_cons, List.length_drop]
        omega
      · cases hh
  | call place =>
      obtain ⟨f, hf⟩ := hfits
      cases vs with
      | nil => simp [height] at hh
      | cons args vs =>
          rw [exec_call hf] at hexec
          obtain ⟨result, r₁, -, h₁⟩ := Tracked.of_run_bind hexec
          cases h₁
          simpa [height] using hh
  | enter place =>
      obtain ⟨v, hv⟩ := hfits
      rw [exec_enter hv] at hexec
      obtain ⟨result, r₁, -, h₁⟩ := Tracked.of_run_bind hexec
      cases h₁
      simpa [height] using hh

end Instr

theorem exec_height (hfits : ∀ i ∈ is, i.Fits pushable constants)
    (hh : heightAfter is vs.length = some h)
    (hexec : (exec apply constants is vs).run r = (.ok vs', r')) : vs'.length = h := by
  induction is generalizing vs r with
  | nil =>
      cases hexec
      simpa [heightAfter] using hh
  | cons i is ih =>
      obtain ⟨h₁, hi, his⟩ := Option.bind_eq_some_iff.1 hh
      obtain ⟨vs₁, r₁, hexec₁, hexec₂⟩ := Tracked.of_run_bind hexec
      have hlength := Instr.exec_height (hfits i (by simp)) hi hexec₁
      exact ih (fun j hj => hfits j (by simp [hj])) (hlength ▸ his) hexec₂

end

end FormLang
