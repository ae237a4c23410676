import FormLang.Chunk.Emit
import FormLang.Failure

set_option autoImplicit false

/-! # What the stages of a run produce -/

namespace FormLang

/-- What a tree is compiled to: a chunk, or captured code, which is a value already. -/
inductive Compiled where
  | chunk (c : Chunk)
  | captured (code : List Node)

/-- Compiled code as the value that stands for it among the arguments of a call. -/
def Compiled.toValue : Compiled → Value
  | .chunk c => c.toValue
  | .captured code => .captured code

/-- The stages of a run. -/
inductive Stage where
  | code
  | unit
  | result
  deriving DecidableEq, Repr

/-- The name of a stage. -/
def Stage.label : Stage → String
  | .code => "code"
  | .unit => "unit"
  | .result => "result"

/-- What a stage produces. -/
def Stage.Product : Stage → Type
  | .code => Node
  | .unit => Compiled
  | .result => Outcome

/-- What some stage has produced. -/
inductive Artifact where
  | code (n : Node)
  | unit (u : Compiled)
  | result (r : Outcome)

/-- The product of a stage as an artifact. -/
def Artifact.of : (s : Stage) → s.Product → Artifact
  | .code, n => .code n
  | .unit, u => .unit u
  | .result, r => .result r

end FormLang
