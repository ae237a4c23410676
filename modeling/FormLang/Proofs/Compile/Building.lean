import FormLang.Proofs.Chunk.Faithful
import FormLang.Proofs.Compile.Agreement

set_option autoImplicit false

/-! # The chunks that are built

Compiling a program builds chunks along the tree: one for each call, for each value that becomes a
program, and for each value that captured code has come to while compiling. Which ones these are
depends on what is run on the way, and so on the journal from which compiling starts. They are said
here as they come up (`CompileContext.FormBuilds`, `CompileContext.BodyBuilds`). A chunk that is
built can be listed when those inside can and its own integers are short enough
(`Chunk.Short.listable_ofValue`).
-/

namespace FormLang

/-- Has no integer among the constants more digits than can be written? -/
def Chunk.Short (c : Chunk) : Prop :=
  ∀ k : Int, .number (.int k) ∈ c.constants → (Nat.toDigits 10 k.natAbs).length ≤ digitLimit

/-! ## Building along the tree -/

namespace CompileContext

section

variable (ctx : CompileContext) (later : List Node → Action Value)
  (inside : List Node → Journal → Chunk → Prop)

mutual
/-- Compiling a form builds a chunk, given what captured code comes to that is run on the way, and
the chunks that are built then. -/
inductive FormBuilds : List Node → Journal → Chunk → Prop where
  /-- The empty form is the empty list. -/
  | empty {j : Journal} {c : Chunk} (hc : Chunk.ofValue (.list []) = .ok c) : FormBuilds [] j c
  /-- Captured code that an `eval` form takes off its `proc` is compiled in its place. -/
  | unwrapped {line : Int} {target : Node} {code : List Node} {j : Journal} {c : Chunk}
      (hcode : target.procCode? = some code) (h : FormBuilds (Node.capturedBody code) j c) :
      FormBuilds [.symbol line Node.evalName, target] j c
  /-- Any other parameter of an `eval` form is compiled, -/
  | target {line : Int} {target : Node} {j : Journal} {c : Chunk} (hcode : target.procCode? = none)
      (h : ArgumentBuilds target j c) : FormBuilds [.symbol line Node.evalName, target] j c
  /-- and becomes a program unless it is one. -/
  | literal {line : Int} {target : Node} {v : Value} {j j' : Journal} {c : Chunk}
      (hcode : target.procCode? = none) (hform : target.isForm = false)
      (htarget : (argument ctx later target).run j = (.ok v, j')) (hc : Chunk.ofValue v = .ok c) :
      FormBuilds [.symbol line Node.evalName, target] j c
  /-- The captured code that it comes to is compiled, -/
  | later {line : Int} {target : Node} {code : List Node} {j j' : Journal} {c : Chunk}
      (hcode : target.procCode? = none)
      (htarget : (ctx.runTarget later target).run j = (.ok (.captured code), j'))
      (h : inside code j' c) : FormBuilds [.symbol line Node.evalName, target] j c
  /-- and what that comes to becomes a program, unless it is captured code once more. -/
  | result {line : Int} {target : Node} {code : List Node} {v : Value} {j j' j'' : Journal}
      {c : Chunk} (hcode : target.procCode? = none)
      (htarget : (ctx.runTarget later target).run j = (.ok (.captured code), j'))
      (hlater : (later code).run j' = (.ok v, j'')) (hv : v.kind ≠ .captured)
      (hc : Chunk.ofValue v = .ok c) : FormBuilds [.symbol line Node.evalName, target] j c
  /-- The parameters of a call are compiled, -/
  | parameters {head : Node} {params : List Node} {library : Library} {j : Journal} {c : Chunk}
      (hproc : head.isNamed Node.procName = false)
      (heval : head.isNamed Node.evalName = true → params.length ≠ 1)
      (hlibrary : ctx.library = .ok library) (h : ArgumentsBuild [] params j c) :
      FormBuilds (head :: params) j c
  /-- and the library builds the call. -/
  | call {head : Node} {params : List Node} {library : Library} {args : List Value}
      {j j' : Journal} {c : Chunk} (hproc : head.isNamed Node.procName = false)
      (heval : head.isNamed Node.evalName = true → params.length ≠ 1)
      (hlibrary : ctx.library = .ok library)
      (hargs : (argumentsFrom ctx later [] params).run j = (.ok args, j'))
      (hwritable : head.writable = true)
      (hc : library.resolve ⟨head.shown, args⟩ = .ok (.fragment c)) :
      FormBuilds (head :: params) j c

/-- Compiling a parameter builds a chunk. -/
inductive ArgumentBuilds : Node → Journal → Chunk → Prop where
  | list {elements : List Node} {j : Journal} {c : Chunk} (h : ArgumentsBuild [] elements j c) :
      ArgumentBuilds (.list elements) j c
  | form {style : FormStyle} {items : List Node} {j : Journal} {c : Chunk}
      (h : FormBuilds items j c) : ArgumentBuilds (.form style items) j c

/-- Compiling parameters behind others builds a chunk. -/
inductive ArgumentsBuild : List Value → List Node → Journal → Chunk → Prop where
  | first {done : List Value} {n : Node} {rest : List Node} {j : Journal} {c : Chunk}
      (h : ArgumentBuilds n j c) : ArgumentsBuild done (n :: rest) j c
  | next {done : List Value} {n : Node} {rest : List Node} {v : Value} {j j' : Journal} {c : Chunk}
      (hn : (argument ctx later n).run j = (.ok v, j'))
      (h : ArgumentsBuild (v :: done) rest j' c) : ArgumentsBuild done (n :: rest) j c
end

/-- Compiling a tree builds a chunk. -/
inductive NodeBuilds : Node → Journal → Chunk → Prop where
  | form {style : FormStyle} {items : List Node} {j : Journal} {c : Chunk}
      (h : FormBuilds ctx later inside items j c) : NodeBuilds (.form style items) j c
  | argument {n : Node} {j : Journal} {c : Chunk} (hform : n.isForm = false)
      (h : ArgumentBuilds ctx later inside n j c) : NodeBuilds n j c
  | literal {n : Node} {v : Value} {j j' : Journal} {c : Chunk} (hform : n.isForm = false)
      (hn : (CompileContext.argument ctx later n).run j = (.ok v, j'))
      (hc : Chunk.ofValue v = .ok c) : NodeBuilds n j c

end

/-- Compiling and running captured code builds a chunk, inside at most so many other such runs. -/
def BodyBuilds (ctx : CompileContext) : Nat → List Node → Journal → Chunk → Prop
  | 0, _, _, _ => False
  | depth + 1, code, j, c =>
    FormBuilds ctx (ctx.runBody depth) (BodyBuilds ctx depth) (Node.capturedBody code) j c

/-- Running a program builds a chunk. Once it is compiled, nothing more is built. -/
def ProgramBuilds (ctx : CompileContext) (source : String) (j : Journal) (c : Chunk) : Prop :=
  ∃ n, read source = .ok n ∧
    NodeBuilds ctx (ctx.runBody (ctx.depthFor n)) (ctx.BodyBuilds (ctx.depthFor n)) n j c

end CompileContext

/-! ## Listing what is built -/

/-- Can all chunks among the parts of a value be listed? -/
def Value.ListableInside (v : Value) : Prop := ∀ w ∈ v.leaves, w.kind = .chunk → w.Listable

namespace Chunk.Short

variable {Q : Value → Prop} {v w : Value} {args : List Value} {f : Callable} {c : Chunk}

theorem writable_of_length {k : Int} (h : (Nat.toDigits 10 k.natAbs).length ≤ digitLimit) :
    (Numeral.int k).writable = true := by
  have hpos : 0 < digitLimit := by decide
  rw [Numeral.writable, decide_eq_true_eq]
  unfold Numeral.firstUnwritten
  generalize digitLimit = limit at h hpos ⊢
  exact (Nat.length_toDigits_le_iff (by decide) hpos).1 h

/-- What becomes a constant has no other integers than the value. -/
theorem of_ofValue
    (hv : ∀ k : Int, .number (.int k) ∈ v.leaves → (Nat.toDigits 10 k.natAbs).length ≤ digitLimit)
    (hc : ofValue v = .ok c) : c.Short := by
  obtain ⟨-, rfl⟩ := ofValue_eq_ok_iff.1 hc
  exact fun k hk => hv k (by simpa using mem_poolOf hk)

/-- A constant is listed if it is a short integer, code that can be written, or anything else
without parts. -/
theorem listable_part (hcode : ∀ code, Q (.captured code) → Node.allWritable code = true)
    (hw : Q w) (hatomic : w.Atomic)
    (hshort : ∀ k : Int, w = .number (.int k) →
      (Nat.toDigits 10 k.natAbs).length ≤ digitLimit) : w.Listable := by
  refine Value.listable_of_writable hatomic.2 ?_
  cases w with
  | list items => exact absurd rfl hatomic.1
  | chunk code constants => exact absurd rfl hatomic.2
  | captured code =>
      rw [Value.writable]
      exact hcode code hw
  | number n =>
      rw [Value.writable]
      cases n with
      | int k => exact writable_of_length (hshort k rfl)
      | float x => rfl
  | _ => rw [Value.writable] <;> simp

variable (hQ : PartKind Q) (hcode : ∀ code, Q (.captured code) → Node.allWritable code = true)

include hQ hcode

theorem listable_ofValue (h : c.Short) (hv : v.BuiltOf Q) (hinside : v.ListableInside)
    (hc : ofValue v = .ok c) : c.toValue.Listable := by
  obtain ⟨hsmall, rfl⟩ := ofValue_eq_ok_iff.1 hc
  refine (Value.assembles hsmall).listable fun w hw => ?_
  have hleaf : w ∈ v.leaves := by simpa using mem_poolOf hw
  rcases hv w hleaf with hpart | hwell
  · exact listable_part hcode hpart (hQ.atomic hpart) fun k hk => h k (hk ▸ hw)
  · exact hinside w hleaf hwell.kind

theorem listable_ofCall (h : c.Short) (hargs : (Value.list args).BuiltOf Q)
    (hinside : (Value.list args).ListableInside) (hc : ofCall (.callable f) args = .ok c) :
    c.toValue.Listable := by
  obtain ⟨hsmall, rfl⟩ := ofCall_eq_ok_iff.1 hc
  refine (assembles_call hsmall).listable fun w hw => ?_
  rcases mem_callPool hw with hleaf | rfl
  · rcases hargs w hleaf with hpart | hwell
    · exact listable_part hcode hpart (hQ.atomic hpart) fun k hk => h k (hk ▸ hw)
    · exact hinside w hleaf hwell.kind
  · exact Value.listable_of_writable (Value.atomic_callable f).2 (by simp [Value.writable])

end Chunk.Short

end FormLang
