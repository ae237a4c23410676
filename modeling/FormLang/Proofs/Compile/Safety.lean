import FormLang.Proofs.Compile.Agreement

set_option autoImplicit false

/-! # Compiled code is safe

All chunks that the compiler makes are well-formed, those included that are made of values which
captured code has come to while compiling. The parts of compiled code may be anything but lists and
chunks here (`Value.Atomic`): it is enough that functions hand out no chunks.
-/

namespace FormLang

/-- Can the unit be run? -/
def Compiled.WellFormed : Compiled → Prop
  | .chunk c => c.toValue.WellFormed Value.Atomic
  | .captured _ => True

theorem Compiled.MadeOf.wellFormed {u : Compiled} (h : u.MadeOf Value.Atomic) : u.WellFormed := by
  cases u with
  | chunk c => exact h
  | captured code => trivial

namespace CompileContext

/-- Nothing has to be known of failures, for chunks to be well-formed. -/
theorem keeps_atomic {ctx : CompileContext} {owner : String} {exports : List String}
    (hctx : ctx.Exports owner exports) (happly : KeepsChunkFree ctx.apply) :
    ctx.Keeps owner exports Value.Atomic fun _ => True where
  kind := partKind_atomic
  exports := hctx
  apply := happly
  usual _ _ := trivial
  library _ _ := trivial
  applyFails _ _ _ _ := trivial

end CompileContext

theorem yields_compile {ctx : CompileContext} {owner : String} {exports : List String}
    (hctx : ctx.Exports owner exports) (happly : KeepsChunkFree ctx.apply) (n : Node) :
    Tracked.Yields (fun r => ∀ u, r = .ok u → u.WellFormed) (compile ctx n) := by
  have hkeeps := CompileContext.keeps_atomic hctx happly
  have hlater := fun code => CompileContext.agree_runBody hkeeps likeness_eq trivial
    (fun _ _ inner _ => Value.atomic_captured inner) (ctx.depthFor n) (Value.atomic_captured code)
  have hnode : Tracked.Agree Eq (fun _ => True) (Compiled.MadeOf Value.Atomic)
      (ctx.node (ctx.runBody (ctx.depthFor n)) n) (ctx.node (ctx.runBody (ctx.depthFor n)) n) :=
    CompileContext.agree_node hkeeps likeness_eq (fun code _ => hlater code)
      fun code _ => Value.atomic_captured code
  rintro j r j' hrun u rfl
  exact (hnode.yields (fun _ => rfl) j u j' (Action.of_run_catchError hrun)).wellFormed

/-- A chunk that a program is compiled to is well-formed at every depth, code that was run while
compiling notwithstanding. So on either machine only the functions that it calls can fail, and
whatever fails is the last call on record. -/
theorem compile_wellFormed {ctx : CompileContext} {owner : String} {exports : List String}
    (hctx : ctx.Exports owner exports) (happly : KeepsChunkFree ctx.apply) {n : Node} {c : Chunk}
    {j j' : Journal}
    (hc : (compile ctx n).run j = (.ok (.ok (.chunk c)), j')) :
    c.toValue.WellFormed Value.Atomic ∧
      ∀ backend apply nextMark f r, runOn backend apply nextMark c.toValue = (.error f, r) →
        ∃ target args calls, r.calls = (target, args) :: calls ∧ apply target args = .error f := by
  have hwell : c.toValue.WellFormed Value.Atomic := yields_compile hctx happly n j _ j' hc _ rfl
  refine ⟨hwell, fun backend apply nextMark f r hrun => ?_⟩
  rw [hwell.runOn_eq] at hrun
  exact hwell.blames _ f r hrun

/-- A call with a number, for a function that hands back its arguments. -/
theorem compile_wellFormed_call :
    let ctx : CompileContext := ⟨.ok (.ofExports "m" ["f"]), "m", fun _ v => .ok v, .none, 0⟩
    let n : Node := .form .fixed [.symbol 1 "f", .number 1 (.int 2)]
    let c : Chunk := ⟨#[0x05, 0, 0, 0x51, 0, 1, 0x40, 0, 1, 0x24],
      [.number (.int 2), .callable (.call "m" "f")]⟩
    ((compile ctx n).run (.blank 0)).1 = .ok (.ok (.chunk c)) ∧
      c.toValue.WellFormed Value.Atomic ∧
      ∀ backend apply nextMark f r, runOn backend apply nextMark c.toValue = (.error f, r) →
        ∃ target args calls, r.calls = (target, args) :: calls ∧
          apply target args = .error f := by
  intro ctx n c
  have hctx : ctx.Exports "m" ["f"] := fun library hlib => (Except.ok.inj hlib).symm
  have happly : KeepsChunkFree ctx.apply := by
    intro f args v hargs hv
    exact Except.ok.inj hv ▸ hargs
  have hc : (compile ctx n).run (.blank 0) =
      (.ok (.ok (.chunk c)), ⟨[⟨"f", [.number (.int 2)]⟩], [], [], 0⟩) := rfl
  exact ⟨rfl, compile_wellFormed hctx happly hc⟩

end FormLang
