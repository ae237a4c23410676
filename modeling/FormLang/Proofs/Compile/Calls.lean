import FormLang.Proofs.Chunk.Extent
import FormLang.Proofs.Compile.Agreement
import FormLang.Proofs.Reader.Lines

set_option autoImplicit false

/-! # Which calls are resolved

The calls of a program are resolved in the order in which they end: parameters from left to right,
and then the call that they are for. The first one that the library does not export ends the
compiling, with an error that shows the call as it was written (`calls_resolved_in_order`).
-/

namespace FormLang

/-! ## The calls of a program -/

/-- A call as it was written. -/
structure Call where
  head : Node
  params : List Node

namespace Call

/-- Is it an `eval` form of one parameter, which runs code in the place of a call? -/
def isEval (c : Call) : Bool := c.head.isNamed Node.evalName && c.params.length == 1

/-- What is called, and the number of parameters. -/
def shape (c : Call) : String × Nat := (c.head.shown, c.params.length)

/-- Does the library export what is called? -/
def exported (exports : List String) (c : Call) : Bool := exports.contains c.head.shown

/-- The first call that is not exported. -/
def unresolved? (exports : List String) (cs : List Call) : Option Call :=
  cs.find? fun c => !c.exported exports

/-- The calls up to the first one that is not exported. -/
def asked (exports : List String) : List Call → List Call
  | [] => []
  | c :: cs => c :: if c.exported exports then asked exports cs else []

/-- The error of a call that cannot be resolved. -/
def complaint (c : Call) : ProgramError :=
  .unresolvedCall c.head.kind.name c.head.shown c.head.line c.params.length (Node.render c.params)

end Call

mutual
/-- The calls in a node, each of them behind those in its parameters. There are none in heads, nor
in captured code. -/
def Node.calls : Node → List Call
  | .list elements => Node.callsOfAll elements
  | .form _ items => Node.callsOfForm items
  | _ => []

/-- The calls in the form with some items. -/
def Node.callsOfForm : List Node → List Call
  | [] => []
  | head :: params =>
    if head.isNamed Node.procName then [] else Node.callsOfAll params ++ [⟨head, params⟩]

/-- The calls in some nodes, from left to right. -/
def Node.callsOfAll : List Node → List Call
  | [] => []
  | n :: rest => n.calls ++ Node.callsOfAll rest
end

theorem Node.calls_of_procCode? {n : Node} {code : List Node} (h : n.procCode? = some code) :
    n.calls = [] := by
  unfold Node.procCode? at h
  split at h
  · next style line name code' =>
    split at h
    · next hname =>
      rw [Node.calls, Node.callsOfForm, if_pos (by simp [Node.isNamed, hname])]
    · cases h
  · cases h

/-- What a request is for, and the number of arguments. -/
def Request.shape (r : Request) : String × Nat := (r.name, r.args.length)

/-- A journal with some more requests. -/
def Journal.asking (j : Journal) (rs : List Request) : Journal :=
  { j with requests := rs.reverse ++ j.requests }

theorem Journal.asking_asking (j : Journal) (rs rs' : List Request) :
    (j.asking rs).asking rs' = j.asking (rs ++ rs') := by
  simp [asking]

namespace Call

variable {exports : List String} {c : Call} {cs ds : List Call}

theorem asked_append_of_none (h : unresolved? exports cs = none) (ds : List Call) :
    asked exports (cs ++ ds) = cs ++ asked exports ds := by
  induction cs with
  | nil => rfl
  | cons c cs ih =>
      obtain ⟨hc, hcs⟩ : c.exported exports = true ∧ unresolved? exports cs = none := by
        simpa [unresolved?] using h
      rw [List.cons_append, asked, if_pos hc, ih hcs, List.cons_append]

theorem asked_append_of_some (h : unresolved? exports cs = some c) (ds : List Call) :
    asked exports (cs ++ ds) = asked exports cs := by
  induction cs with
  | nil => cases h
  | cons d cs ih =>
      rw [List.cons_append, asked, asked]
      by_cases hd : d.exported exports = true
      · have hcs : unresolved? exports cs = some c := by simpa [unresolved?, hd] using h
        rw [ih hcs]
      · rw [if_neg hd, if_neg hd]

theorem asked_of_none (h : unresolved? exports cs = none) : asked exports cs = cs := by
  have hnil := asked_append_of_none h []
  rwa [List.append_nil, asked, List.append_nil] at hnil

theorem mem_asked_append_left (ds : List Call) (h : c ∈ asked exports cs) :
    c ∈ asked exports (cs ++ ds) := by
  cases hcs : unresolved? exports cs with
  | none =>
      rw [asked_of_none hcs] at h
      rw [asked_append_of_none hcs]
      exact List.mem_append_left _ h
  | some d => rwa [asked_append_of_some hcs]

theorem unresolved?_append_of_none (h : unresolved? exports cs = none) (ds : List Call) :
    unresolved? exports (cs ++ ds) = unresolved? exports ds := by
  rw [unresolved?, List.find?_append]
  exact congrArg (Option.or · _) h

theorem unresolved?_append_of_some (h : unresolved? exports cs = some c) (ds : List Call) :
    unresolved? exports (cs ++ ds) = some c := by
  rw [unresolved?, List.find?_append]
  exact congrArg (Option.or · _) h

end Call

/-! ## Steps that resolve calls -/

section

variable {α β : Type} {exports : List String} {room : Nat} {cs ds : List Call} {P : α → Prop}
  {Q : β → Prop} {x : Action α} {g : α → Action β}

/-- How a step of the compiler ends that makes some calls, and what the library was asked for until
then. It is for lack of room in a chunk that it may end too early. -/
inductive Ends (exports : List String) (room : Nat) (cs : List Call) (P : α → Prop) :
    Except Failure α → List Request → Prop where
  | resolved {a : α} {rs : List Request} (hcs : Call.unresolved? exports cs = none) (ha : P a)
      (hrs : rs.map Request.shape = cs.map Call.shape) : Ends exports room cs P (.ok a) rs
  | unresolved {c : Call} {rs : List Request} (hc : Call.unresolved? exports cs = some c)
      (hrs : rs.map Request.shape = (Call.asked exports cs).map Call.shape) :
      Ends exports room cs P (.error (.error c.complaint)) rs
  | overflow {n : Int} {rs : List Request} (hroom : Emit.maxOperand < room) :
      Ends exports room cs P (.error (.fault (.operandRange n))) rs

/-- The step resolves some calls in order, up to the first one that is not exported. Nothing is said
if there is an `eval` form of one parameter among these. -/
def Resolves (exports : List String) (room : Nat) (cs : List Call) (P : α → Prop)
    (x : Action α) : Prop :=
  (∀ c ∈ Call.asked exports cs, c.isEval = false) →
    ∀ j, ∃ r rs, x.run j = (r, j.asking rs) ∧ Ends exports room cs P r rs

theorem resolves_pure {a : α} (ha : P a) : Resolves exports room [] P (pure a) :=
  fun _ _ => ⟨_, [], rfl, .resolved rfl ha rfl⟩

theorem resolves_isEval {c : Call} (hc : c.isEval = true) : Resolves exports room [c] P x := by
  intro heval
  have hfalse := heval c (by simp [Call.asked])
  rw [hc] at hfalse
  cases hfalse

theorem Ends.imp {P' : α → Prop} {r : Except Failure α} {rs : List Request}
    (h : Ends exports room cs P r rs) (hP : ∀ a, P a → P' a) : Ends exports room cs P' r rs := by
  cases h with
  | resolved hcs ha hrs => exact .resolved hcs (hP _ ha) hrs
  | unresolved hc hrs => exact .unresolved hc hrs
  | overflow hroom => exact .overflow hroom

/-- The requests of both parts of a step, when the first part has resolved all of its calls. -/
theorem Ends.after {rs rs' : List Request} {r : Except Failure β}
    (hcs : Call.unresolved? exports cs = none)
    (hrs : rs.map Request.shape = cs.map Call.shape) (h : Ends exports room ds Q r rs') :
    Ends exports room (cs ++ ds) Q r (rs ++ rs') := by
  cases h with
  | resolved hds ha hrs' =>
      refine .resolved ?_ ha ?_
      · rw [Call.unresolved?_append_of_none hcs, hds]
      · rw [List.map_append, List.map_append, hrs, hrs']
  | unresolved hc hrs' =>
      refine .unresolved ?_ ?_
      · rw [Call.unresolved?_append_of_none hcs, hc]
      · rw [Call.asked_append_of_none hcs, List.map_append, List.map_append, hrs, hrs']
  | overflow hroom => exact .overflow hroom

theorem Resolves.bind (hx : Resolves exports room cs P x)
    (hg : ∀ a, P a → Resolves exports room ds Q (g a)) :
    Resolves exports room (cs ++ ds) Q (x >>= g) := by
  intro heval j
  obtain ⟨r, rs, hrun, hends⟩ := hx (fun c hc => heval c (Call.mem_asked_append_left ds hc)) j
  cases hends with
  | resolved hcs ha hrs =>
      rw [Call.asked_append_of_none hcs] at heval
      obtain ⟨r', rs', hrun', hends'⟩ :=
        hg _ ha (fun c hc => heval c (List.mem_append_right _ hc)) (j.asking rs)
      rw [Journal.asking_asking] at hrun'
      exact ⟨r', rs ++ rs', (Tracked.run_bind_of_ok hrun).trans hrun', hends'.after hcs hrs⟩
  | unresolved hc hrs =>
      refine ⟨_, rs, Tracked.run_bind_of_error hrun, .unresolved ?_ ?_⟩
      · exact Call.unresolved?_append_of_some hc ds
      · rw [Call.asked_append_of_some hc, hrs]
  | overflow hroom => exact ⟨_, rs, Tracked.run_bind_of_error hrun, .overflow hroom⟩

theorem Resolves.imp {P' : α → Prop} (hx : Resolves exports room cs P x) (h : ∀ a, P a → P' a) :
    Resolves exports room cs P' x := by
  intro heval j
  obtain ⟨r, rs, hrun, hends⟩ := hx heval j
  exact ⟨r, rs, hrun, hends.imp h⟩

theorem Resolves.map (hx : Resolves exports room cs P x) {f : α → β} (hf : ∀ a, P a → Q (f a)) :
    Resolves exports room cs Q (x >>= fun a => pure (f a)) := by
  have h := hx.bind fun a ha => resolves_pure (hf a ha)
  rwa [List.append_nil] at h

end

namespace CompileContext

variable {ctx : CompileContext} {owner : String} {exports : List String} {room : Nat}
  {later : List Node → Action Value} {head : Node} {params : List Node} {args : List Value}

theorem resolves_constant {v : Value} (h : v.extent ≤ room) :
    Resolves exports room [] (fun _ => True) (constant v) := by
  intro _ j
  rcases hc : Chunk.ofValue v with f | c
  · obtain ⟨⟨k, rfl⟩, hlarge⟩ := Chunk.ofValue_eq_error_extent hc
    refine ⟨.error (.fault (.operandRange k)), [], ?_, .overflow (Nat.lt_of_lt_of_le hlarge h)⟩
    rw [constant, hc]
    rfl
  · refine ⟨.ok (.chunk c), [], ?_, .resolved rfl trivial rfl⟩
    rw [constant, hc]
    rfl

/-- What a call is compiled to, given the answer of the library. -/
def settle (ctx : CompileContext) (c : Call) : Except Failure Resolution → Except Failure Compiled
  | .ok (.fragment code) => .ok (.chunk code)
  | .ok .unusable => .error (.error (.contractViolation ctx.libraryName))
  | .ok .unknown => .error (.error c.complaint)
  | .error f => .error f

/-- A call that can be shown asks the library once. -/
theorem run_resolve (hhead : head.writable = true) (hparams : Node.allWritable params = true)
    (library : Library) (j : Journal) :
    (ctx.resolve library head params args).run j =
      (ctx.settle ⟨head, params⟩ (library.resolve ⟨head.shown, args⟩),
        j.asking [⟨head.shown, args⟩]) := by
  have hshown : sourceText head.writable head.shown = pure head.shown := if_pos hhead
  have hrendered : sourceText (Node.allWritable params) (Node.render params) =
      pure (Node.render params) := if_pos hparams
  rw [resolve, hshown, pure_bind, hrendered]
  dsimp only
  rcases library.resolve ⟨head.shown, args⟩ with f | ⟨c | _ | _⟩ <;> rfl

theorem resolves_resolve (hhead : head.writable = true) (hparams : Node.allWritable params = true)
    (hlength : args.length = params.length) (hroom : (Value.list args).extent ≤ room) :
    Resolves exports room [⟨head, params⟩] (fun _ => True)
      (ctx.resolve (.ofExports owner exports) head params args) := by
  intro _ j
  refine ⟨_, [⟨head.shown, args⟩], run_resolve hhead hparams _ j, ?_⟩
  have hshape : [(⟨head.shown, args⟩ : Request)].map Request.shape =
      [(⟨head, params⟩ : Call)].map Call.shape := by
    simp [Request.shape, Call.shape, hlength]
  simp only [Library.ofExports]
  split
  · next hexported =>
    have hnone : Call.unresolved? exports [⟨head, params⟩] = none := by
      simpa [Call.unresolved?, Call.exported] using hexported
    rcases hc : Chunk.ofCall (.callable (.call owner head.shown)) args with f | c
    · obtain ⟨⟨k, rfl⟩, hlarge⟩ := Chunk.ofCall_eq_error_extent hc
      exact .overflow (Nat.lt_of_lt_of_le hlarge hroom)
    · exact .resolved hnone trivial hshape
  · next hexported =>
    have hsome : Call.unresolved? exports [⟨head, params⟩] = some ⟨head, params⟩ := by
      simpa [Call.unresolved?, Call.exported] using hexported
    exact .unresolved hsome (by simpa [Call.asked] using hshape)

/-! ## Along the tree -/

mutual
theorem resolves_form (hlibrary : ctx.library = .ok (.ofExports owner exports)) :
    ∀ {items : List Node}, Node.AllReadable items → Node.sizeOfAll items + 1 ≤ room →
      Resolves exports room (Node.callsOfForm items) (fun _ => True) (form ctx later items)
  | [], _, _ => by
      obtain ⟨u, hu⟩ := constant_nil
      rw [form, hu]
      exact resolves_pure trivial
  | head :: params, hread, hsize => by
      have hpos := head.size_pos
      rw [Node.sizeOfAll] at hsize
      cases formView head params with
      | proc line =>
          rw [form_proc rfl]
          exact resolves_pure trivial
      | @unwrap line target code hcode =>
          have hcalls : Node.callsOfForm [.symbol line Node.evalName, target] =
              [⟨.symbol line Node.evalName, [target]⟩] := by
            simp [Node.callsOfForm, Node.callsOfAll, Node.calls_of_procCode? hcode,
              Node.isNamed, Node.evalName, Node.procName]
          rw [hcalls]
          exact resolves_isEval rfl
      | @stage line target hcode =>
          have hcalls : Node.callsOfForm [.symbol line Node.evalName, target] =
              target.calls ++ [⟨.symbol line Node.evalName, [target]⟩] := by
            simp [Node.callsOfForm, Node.callsOfAll, Node.isNamed, Node.evalName, Node.procName]
          -- The parameter comes first, and a call in it may be the last one that is asked for.
          rw [Node.sizeOfAll] at hsize
          have htarget := resolves_argument hlibrary hread.2.1 (by omega)
          rw [hcalls, form_eval hcode, runTarget, bind_assoc]
          exact htarget.bind fun v _ => resolves_isEval rfl
      | call hproc heval =>
          have hargs := resolves_argumentsFrom hlibrary [] hread.2 (by omega)
          rw [Node.callsOfForm, if_neg (by simp [hproc]), form_call_of_length hproc heval,
            hlibrary]
          refine hargs.bind fun args hargs => ?_
          refine resolves_resolve hread.1.writable hread.2.writable (by simpa using hargs.1) ?_
          have hextent := hargs.2
          rw [Value.extentOfAll] at hextent
          rw [Value.extent]
          omega

theorem resolves_argument (hlibrary : ctx.library = .ok (.ofExports owner exports)) :
    ∀ {n : Node}, n.Readable → n.size ≤ room →
      Resolves exports room n.calls (fun v => v.extent ≤ n.size) (argument ctx later n)
  | .symbol _ _, _, _ => by
      rw [argument]
      exact resolves_pure (Nat.le_refl 1)
  | .number _ _, _, _ => by
      rw [argument]
      exact resolves_pure (Nat.le_refl 1)
  | .text _ _, _, _ => by
      rw [argument]
      exact resolves_pure (Nat.le_refl 1)
  | .list elements, hread, hsize => by
      rw [Node.size] at hsize
      have helements := resolves_argumentsFrom hlibrary [] hread (Nat.le_of_succ_le hsize)
      rw [argument, Node.calls]
      refine helements.map fun vs hvs => ?_
      have hextent := hvs.2
      rw [Value.extentOfAll] at hextent
      rw [Value.extent, Node.size]
      omega
  | .form _ items, hread, hsize => by
      rw [Node.size] at hsize
      rw [argument, Node.calls]
      refine (resolves_form hlibrary hread.2 hsize).map fun u _ => ?_
      have hu : u.toValue.extent = 1 := by cases u <;> rfl
      rw [hu, Node.size]
      omega

theorem resolves_argumentsFrom (hlibrary : ctx.library = .ok (.ofExports owner exports))
    (done : List Value) : ∀ {ns : List Node}, Node.AllReadable ns → Node.sizeOfAll ns ≤ room →
      Resolves exports room (Node.callsOfAll ns)
        (fun vs => vs.length = done.length + ns.length ∧
          Value.extentOfAll vs ≤ Value.extentOfAll done + Node.sizeOfAll ns)
        (argumentsFrom ctx later done ns)
  | [], _, _ => by
      rw [argumentsFrom]
      exact resolves_pure ⟨by simp, by simp [Value.extentOfAll_reverse]⟩
  | n :: rest, hread, hsize => by
      rw [Node.sizeOfAll] at hsize
      rw [argumentsFrom, Node.callsOfAll]
      refine (resolves_argument hlibrary hread.1 (by omega)).bind fun v hv => ?_
      refine (resolves_argumentsFrom hlibrary (v :: done) hread.2 (by omega)).imp ?_
      rintro vs ⟨hlength, hextent⟩
      rw [List.length_cons] at hlength
      rw [Value.extentOfAll] at hextent
      rw [List.length_cons, Node.sizeOfAll]
      omega
end

theorem resolves_node (hlibrary : ctx.library = .ok (.ofExports owner exports)) {n : Node}
    (hread : n.Readable) (hsize : n.size ≤ room) :
    Resolves exports room n.calls (fun _ => True) (ctx.node later n) := by
  by_cases hform : n.isForm = true
  · cases n with
    | form style items =>
        rw [Node.size] at hsize
        exact resolves_form hlibrary hread.2 hsize
    | _ => cases hform
  · have hargument : Resolves exports room n.calls (fun v => v.extent ≤ n.size)
        (argument ctx later n) := resolves_argument hlibrary hread hsize
    have h := hargument.bind fun v hv => resolves_constant (Nat.le_trans hv hsize)
    rw [List.append_nil] at h
    rwa [node_eq_argument (by simpa using hform)]

end CompileContext

/-! ## Whole programs -/

mutual
/-- What is called in a node is a part of it. -/
theorem Node.part_of_mem_calls : ∀ {n : Node} {c : Call}, c ∈ n.calls → n.Part c.head
  | .list elements, c, h => by
      obtain ⟨m, hm, hpart⟩ := part_of_mem_callsOfAll h
      exact .list hm hpart
  | .form _ items, c, h => by
      obtain ⟨m, hm, hpart⟩ := part_of_mem_callsOfForm h
      exact .form hm hpart
  | .symbol _ _, _, h => absurd h List.not_mem_nil
  | .number _ _, _, h => absurd h List.not_mem_nil
  | .truth _ _, _, h => absurd h List.not_mem_nil
  | .text _ _, _, h => absurd h List.not_mem_nil
  | .foreign _, _, h => absurd h List.not_mem_nil

theorem Node.part_of_mem_callsOfForm : ∀ {items : List Node} {c : Call}, c ∈ callsOfForm items →
    ∃ m ∈ items, m.Part c.head
  | [], _, h => absurd h List.not_mem_nil
  | head :: params, c, h => by
      rw [callsOfForm] at h
      split at h
      · cases h
      rcases List.mem_append.1 h with h | h
      · obtain ⟨m, hm, hpart⟩ := part_of_mem_callsOfAll h
        exact ⟨m, by simp [hm], hpart⟩
      · obtain rfl := List.mem_singleton.1 h
        exact ⟨head, by simp, .refl head⟩

theorem Node.part_of_mem_callsOfAll : ∀ {ns : List Node} {c : Call}, c ∈ callsOfAll ns →
    ∃ m ∈ ns, m.Part c.head
  | [], _, h => absurd h List.not_mem_nil
  | n :: rest, c, h => by
      rcases List.mem_append.1 h with h | h
      · exact ⟨n, by simp, part_of_mem_calls h⟩
      · obtain ⟨m, hm, hpart⟩ := part_of_mem_callsOfAll h
        exact ⟨m, by simp [hm], hpart⟩
end

/-- If the library exports all calls of a program, it is asked for each of them once and in order,
and there is compiled code. Otherwise it is asked for the calls up to the first one that it does not
export, and the error tells what this call looks like: the kind and the text of the head, the line
of the first leaf in it, and the number and the text of the parameters. No `eval` form of one
parameter may be among the calls that come to be looked at. A program that overflows the operands is
an exception; it has more nodes than the largest operand says. -/
theorem calls_resolved_in_order {source : String} {n : Node} {ctx : CompileContext}
    {owner : String} {exports : List String} (hread : read source = .ok n)
    (hlibrary : ctx.library = .ok (.ofExports owner exports))
    (heval : ∀ c ∈ Call.asked exports n.calls, c.isEval = false) (j : Journal) :
    ∃ r rs, (compile ctx n).run j = (r, j.asking rs) ∧
      ((Emit.maxOperand < n.size ∧ ∃ k, r = .error (.fault (.operandRange k))) ∨
        match Call.unresolved? exports n.calls with
        | none => rs.map Request.shape = n.calls.map Call.shape ∧ ∃ unit, r = .ok (.ok unit)
        | some c =>
          rs.map Request.shape = (Call.asked exports n.calls).map Call.shape ∧
            r = .ok (.error (.unresolvedCall c.head.kind.name c.head.shown c.head.firstLeafLine
              c.params.length (Node.render c.params)))) := by
  have hnode : Resolves exports n.size n.calls (fun _ => True)
      (ctx.node (ctx.runBody (ctx.depthFor n)) n) :=
    CompileContext.resolves_node hlibrary (read_readable hread) (Nat.le_refl _)
  obtain ⟨r, rs, hrun, hends⟩ := hnode heval j
  rw [compile, Action.run_catchError, hrun]
  cases hends with
  | resolved hcs _ hrs =>
      refine ⟨_, rs, rfl, .inr ?_⟩
      rw [hcs]
      exact ⟨hrs, _, rfl⟩
  | @unresolved c _ hc hrs =>
      refine ⟨_, rs, rfl, .inr ?_⟩
      have hpart : n.Part c.head := Node.part_of_mem_calls (List.mem_of_find?_eq_some hc)
      have hline : c.head.line = c.head.firstLeafLine := line_of_read hread hpart
      rw [hc]
      exact ⟨hrs, by rw [Call.complaint, hline]⟩
  | overflow hroom => exact ⟨_, rs, rfl, .inl ⟨hroom, _, rfl⟩⟩

/-- The head of a call on the second line is a list. The call in it is none of the program's, and
neither is the one that is captured. -/
theorem calls_resolved_in_order_list_head :
    let source := "(add [(one) (proc two)]\n ([3 (f)] 4) 5)"
    ∃ n, read source = .ok n ∧ ∀ apply settings j,
      ∃ rs, (compile ⟨.ok (.ofExports "lib" ["add", "one"]), "lib", apply, settings, 0⟩ n).run j =
          (.ok (.error (.unresolvedCall "list" "[3 (f)]" 2 1 "(4)")), j.asking rs) ∧
        rs.map Request.shape = [("one", 0), ("[3 (f)]", 1)] := by
  intro source
  let n : Node := .form .fixed [.symbol 1 "add",
    .list [.form .fixed [.symbol 1 "one"], .form .fixed [.symbol 1 "proc", .symbol 1 "two"]],
    .form .fixed [.list [.number 2 (.int 3), .form .fixed [.symbol 2 "f"]], .number 2 (.int 4)],
    .number 2 (.int 5)]
  have hread : read source = .ok n := by
    unfold source n
    cbv
  refine ⟨n, hread, fun apply settings j => ?_⟩
  let ctx : CompileContext := ⟨.ok (.ofExports "lib" ["add", "one"]), "lib", apply, settings, 0⟩
  have hlibrary : ctx.library = .ok (.ofExports "lib" ["add", "one"]) := rfl
  have hasked : (Call.asked ["add", "one"] n.calls).map Call.shape =
      [("one", 0), ("[3 (f)]", 1)] := by
    decide +kernel
  have heval : ∀ c ∈ Call.asked ["add", "one"] n.calls, c.isEval = false := by
    decide +kernel
  have hfirst : Call.unresolved? ["add", "one"] n.calls =
      some ⟨.list [.number 2 (.int 3), .form .fixed [.symbol 2 "f"]], [.number 2 (.int 4)]⟩ := by
    rfl
  obtain ⟨r, rs, hrun, ⟨hsize, -⟩ | hcase⟩ :=
    calls_resolved_in_order hread hlibrary heval j
  · exact absurd hsize (by decide)
  · rw [hfirst] at hcase
    obtain ⟨hrs, rfl⟩ := hcase
    exact ⟨rs, hrun, hrs.trans hasked⟩

end FormLang
