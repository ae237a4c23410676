import FormLang.Evaluate
import FormLang.Library
import FormLang.Node.Show

set_option autoImplicit false

/-! # Compiling

A form is compiled to code that calls the function at its head; its parameters are compiled
first, and forms among them become chunks of their own. Two words are not functions:

* `proc` captures the rest of its form as it stands, for later.
* `eval` with one parameter runs captured code. When the parameter is a `proc` form, its code is
  compiled in the place of the `eval` form. Any other parameter is compiled and run right now;
  it has to come to captured code, which is compiled and run as well, and the value of that is
  what is compiled.

Code run while compiling may in turn run code while compiling. How deep this goes is bounded by
a number that is counted down, as the host bounds how deep calls are nested; the other steps of the
compiler follow the tree.
-/

namespace FormLang

/-- What compiling depends on: the library, if it can be had, the name of the reference to it,
what callables do, and the settings. -/
structure CompileContext where
  library : Except Failure Library
  libraryName : String
  apply : Apply
  settings : Settings
  /-- How much more deeply runs of captured code can be nested than the program is large. -/
  reserve : Nat

namespace CompileContext

/-- The chunk that evaluates to what a compiled argument comes to. -/
def constant (v : Value) : Action Compiled := do
  let c ← Action.ofFault (Chunk.ofValue v)
  return .chunk c

/-- The source text of a part of the program. -/
def sourceText (writable : Bool) (text : String) : Action String :=
  if writable then pure text else throw (.fault .writtenDigits)

/-- Has the library resolve a call. -/
def resolve (ctx : CompileContext) (library : Library) (head : Node) (params : List Node)
    (args : List Value) : Action Compiled := do
  let name ← sourceText head.writable head.shown
  let request : Request := ⟨name, args⟩
  Action.request request
  match ← Action.ofExcept (library.resolve request) with
  | .fragment c => return .chunk c
  | .unusable => Action.fail (.contractViolation ctx.libraryName)
  | .unknown =>
    let text ← sourceText (Node.allWritable params) (Node.render params)
    Action.fail (.unresolvedCall head.kind.name name head.line params.length text)

/-- The chunk or captured code that evaluates to a value. -/
def ofResult : Value → Action Compiled
  | .captured code => pure (.captured code)
  | v => constant v

/-- Runs compiled code while the program is being compiled. -/
def run (ctx : CompileContext) (unit : Compiled) : Action Value :=
  evaluate ctx.apply ctx.settings none unit.toValue

/-- What the parameter of an `eval` form is compiled to, given its value as a parameter of a
call: forms are compiled already. -/
def unitOf (target : Node) (v : Value) : Action Value :=
  if target.isForm then pure v
  else do
    let unit ← constant v
    return unit.toValue

/-- Runs captured code that a value has to be, and compiles to what it comes to. -/
def runCaptured (later : List Node → Action Value) (line : Int) : Value → Action Compiled
  | .captured code => do
    let v ← later code
    ofResult v
  | v => Action.fail (.notCaptured v line)

/-! ## The compiler

`later` is what running captured code comes to that turns up while compiling. -/

mutual
/-- Compiles the form that has some items. -/
def form (ctx : CompileContext) (later : List Node → Action Value) : List Node → Action Compiled
  | [] => constant (.list [])
  | head :: params =>
    if head.isNamed Node.procName then pure (.captured params)
    else
      let call : Action Compiled := do
        let library ← Action.ofExcept ctx.library
        let args ← argumentsFrom ctx later [] params
        ctx.resolve library head params args
      match params with
      | [target] =>
        if head.isNamed Node.evalName then
          unwrap ctx later target do
            let v ← argument ctx later target
            let unit ← unitOf target v
            let v ← evaluate ctx.apply ctx.settings none unit
            runCaptured later head.line v
        else call
      | _ => call

/-- Compiles the code of a `proc` form in its place, and takes another way for other nodes. -/
def unwrap (ctx : CompileContext) (later : List Node → Action Value) (node : Node)
    (otherwise : Action Compiled) : Action Compiled :=
  match node with
  | .form _ (head :: code) =>
    if head.isNamed Node.procName then
      match code with
      | [.form _ items] => form ctx later items
      | code => form ctx later code
    else otherwise
  | _ => otherwise

/-- Compiles a parameter of a call. A literal is its value and a bare word its name. -/
def argument (ctx : CompileContext) (later : List Node → Action Value) : Node → Action Value
  | .symbol _ name => pure (.text name)
  | .number _ n => pure (.number n)
  | .truth _ b => pure (.truth b)
  | .text _ s => pure (.text s)
  | .list elements => do
    let vs ← argumentsFrom ctx later [] elements
    return .list vs
  | .form _ items => do
    let unit ← form ctx later items
    return unit.toValue
  | .foreign v => do
    let text ← Action.ofFault v.written
    throw (.fault (.notANode text))

/-- Compiles parameters one after the other; `done` are the values of those before, last
first. -/
def argumentsFrom (ctx : CompileContext) (later : List Node → Action Value) (done : List Value) :
    List Node → Action (List Value)
  | [] => pure done.reverse
  | n :: rest => do
    let v ← argument ctx later n
    argumentsFrom ctx later (v :: done) rest
end

/-- The code of a `proc` form is compiled in its place as the form that captured code stands
for. -/
theorem unwrap_of_procCode? {ctx : CompileContext} {later : List Node → Action Value} {n : Node}
    {code : List Node} (h : n.procCode? = some code) (otherwise : Action Compiled) :
    unwrap ctx later n otherwise = form ctx later (Node.capturedBody code) := by
  unfold Node.procCode? at h
  split at h
  · next style line name rest =>
    split at h
    · next hname =>
      obtain rfl := Option.some.inj h
      rw [unwrap.eq_def]
      dsimp only
      rw [if_pos (by simpa [Node.isNamed] using hname)]
      split
      · rfl
      · next hne =>
        rw [Node.capturedBody]
        exact hne
    · cases h
  · cases h

/-- Compiles and runs captured code, inside at most `depth` other such runs. -/
def runBody (ctx : CompileContext) : Nat → List Node → Action Value
  | 0, _ => throw (.fault .evaluationDepth)
  | depth + 1, code => do
    let unit ← form ctx (runBody ctx depth) (Node.capturedBody code)
    ctx.run unit

/-- Compiles a tree. A literal is a program that evaluates to itself. -/
def node (ctx : CompileContext) (later : List Node → Action Value) (n : Node) : Action Compiled :=
  match n with
  | .form _ items => form ctx later items
  | n => do
    let v ← argument ctx later n
    constant v

end CompileContext

/-- How deeply runs of captured code can be nested while a program is compiled. Its size is enough
for code that was captured from the program; code that functions make up may need more. -/
def CompileContext.depthFor (ctx : CompileContext) (program : Node) : Nat :=
  program.size + ctx.reserve

theorem CompileContext.size_le_depthFor (ctx : CompileContext) (program : Node) :
    program.size ≤ ctx.depthFor program := Nat.le_add_right _ _

/-- Compiles a program; errors of the language are results. -/
def compile (ctx : CompileContext) (program : Node) : Action (Except ProgramError Compiled) :=
  Action.catchError (ctx.node (ctx.runBody (ctx.depthFor program)) program)

end FormLang
