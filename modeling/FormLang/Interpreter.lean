import FormLang.Compile
import FormLang.Layout
import FormLang.Token.Stream

set_option autoImplicit false

/-! # Running programs

A program is read, compiled and evaluated. An observer is shown what each stage produces: the code,
the compiled unit, and at the end, in any case, the result. It can stop the run. It is handed the
very things that the run goes on with, and so it can change them.
-/

namespace FormLang

namespace Artifact

/-- An artifact for a reader. -/
def present (o : LayoutOptions) : Artifact → Except Fault String
  | .code n => n.present o
  | .unit u => u.toValue.present o
  | .result (.value v) => v.present o
  | .result (.error e) => e.present o

/-- The line about an artifact. -/
def report (o : LayoutOptions) (label : String) (a : Artifact) : Except Fault String := do
  let text ← a.present o
  return o.paint .label label ++ ": " ++ text ++ "\n"

end Artifact

/-- Someone who is shown what the stages of a run produce, each time with a label. The answer is what
they leave of it, and of all else that the rest of the run depends on. -/
abbrev Observer : Type :=
  (s : Stage) → String → s.Product × CompileContext → Action (s.Product × CompileContext)

namespace Observer

/-- The observer who looks away. -/
def silent : Observer := fun _ _ found => pure found

/-- The observer who notes everything. -/
def recording : Observer := fun s label found => do
  Action.note label (.of s found.1)
  return found

/-- The observer who notes everything and stops the run at a stage. -/
def haltingAt (stop : String) : Observer := fun s label found => do
  Action.note label (.of s found.1)
  if label = stop then throw (.halted label)
  return found

/-- The observer who reports everything, which fails when an artifact cannot be written. -/
def reporting (o : LayoutOptions) : Observer := fun s label found => do
  let _ ← Action.ofFault ((Artifact.of s found.1).report o label)
  Action.note label (.of s found.1)
  return found

end Observer

/-- The text of all reports about artifacts. -/
def reports (o : LayoutOptions) (shown : List (String × Artifact)) : Except Fault String := do
  let lines ← shown.mapM fun (label, a) => a.report o label
  return String.join lines

/-- A hook for an observer. As any object, it counts as true or it does not. -/
structure Hook where
  observer : Observer
  isTrue : Bool

/-- The observer behind a hook, if there is one. One that does not count as true is passed over. -/
def Hook.observer? : Option Hook → Observer
  | some hook => if hook.isTrue then hook.observer else .silent
  | none => .silent

namespace CompileContext

/-- Reads, compiles and evaluates a program; errors on the way are failures, but for those of
the compiler, which are results. -/
def runStages (ctx : CompileContext) (observer : Observer) (source : String) :
    Action Outcome := do
  let code ← Action.ofExcept (read source)
  let (code, ctx) ← observer .code Stage.code.label (code, ctx)
  match ← compile ctx code with
  | .error e => return .error e
  | .ok unit =>
    let (unit, ctx) ← observer .unit Stage.unit.label (unit, ctx)
    let v ← ctx.run unit
    return .value v

/-- Runs a program. Errors of the language are results, wherever they arise. -/
def runProgram (ctx : CompileContext) (observer : Observer) (source : String) :
    Action Outcome := do
  let result ← match ← Action.catchError (runStages ctx observer source) with
    | .ok outcome => pure outcome
    | .error e => pure (.error e)
  let (result, _) ← observer .result Stage.result.label (result, ctx)
  return result

/-- Runs a program with a hook, if there is one. -/
def runTraced (ctx : CompileContext) (hook : Option Hook) (source : String) : Action Outcome :=
  ctx.runProgram (Hook.observer? hook) source

end CompileContext
end FormLang
