import FormLang.Token.Lexer
import FormLang.Node.Atom

set_option autoImplicit false

/-! # Reading a row of tokens

A stream hands out the tokens of a text one by one, looks at most one token ahead, and reads
whole expressions. When cutting the text failed, the failure comes up once, in the place of the
first token that is missing; after that the stream is at its end.
-/

namespace FormLang

/-- What is left of a text: the tokens that were looked at already, those behind them, the failure
at their end, and the line of the last token that was handed out. -/
structure Stream where
  buffered : List Token
  rest : List Token
  failure : Option (ReadFault × Nat)
  line : Nat

namespace Stream

/-- A stream over tokens, before the first of them. -/
def ofLexed (l : Lexed) : Stream := ⟨[], l.tokens, l.failure, 1⟩

/-- The tokens that are left. -/
def pending (s : Stream) : List Token := s.buffered ++ s.rest

/-- The stream behind the failure at its end. -/
def exhausted (s : Stream) : Stream := { s with failure := none }

/-- The reading error with a reason. -/
def readError (reason : ReadFault) (line : Nat) : Failure := .error (.unreadable reason line)

/-- The failure of a stream that has no token left, and the stream after it; `none` at a regular
end. -/
def failAtEnd (s : Stream) : Option (Failure × Stream) :=
  s.failure.map fun (reason, line) => (readError reason line, s.exhausted)

/-! ## One token -/

/-- The next token, which stays; `none` at the end. It is taken from the tokens behind only when
none was looked at already. -/
def peek (s : Stream) : Except Failure (Option Token) × Stream :=
  match s.buffered, s.rest with
  | t :: _, _ => (.ok (some t), s)
  | [], t :: rest => (.ok (some t), { s with buffered := s.buffered ++ [t], rest := rest })
  | [], [] =>
    match s.failAtEnd with
    | some (f, s) => (.error f, s)
    | none => (.ok none, s)

/-- The next token, which is handed out; `none` at the end. -/
def advance (s : Stream) : Except Failure (Option Token) × Stream :=
  match s.buffered, s.rest with
  | t :: buffered, _ => (.ok (some t), { s with buffered := buffered, line := t.line })
  | [], t :: rest => (.ok (some t), { s with rest := rest, line := t.line })
  | [], [] =>
    match s.failAtEnd with
    | some (f, s) => (.error f, s)
    | none => (.ok none, s)

/-! ## One expression -/

/-- A bracket that is still open, with the nodes read inside it, last first. -/
structure Level where
  bracket : Bracket
  openedAt : Nat
  items : List Node

/-- The node of a level that has been closed. -/
def Level.node (l : Level) : Node :=
  match l.bracket with
  | .round => .form .fixed l.items.reverse
  | .square => .list l.items.reverse

/-- The node of a token that is one by itself. -/
def leaf (t : Token) : Except Fault Node :=
  if t.kind = .text then .ok (.text t.line (unescape t.text)) else Node.ofAtom t.text t.line

/-- What closing or reading a node leads to: the expression is complete, or the innermost open
bracket has one more node. -/
def deliver (node : Node) : List Level → Sum Node (List Level)
  | [] => .inl node
  | l :: outer => .inr ({ l with items := node :: l.items } :: outer)

/-- Reads the rest of an expression inside some open brackets, innermost first, from the tokens
behind a line. A bracket that closes nothing is handed out when it is the first token of the
expression; inside brackets it is only looked at. -/
def parseFrom (failure : Option (ReadFault × Nat)) (line : Nat) (levels : List Level) :
    List Token → Except Failure Node × Stream
  | [] =>
    let s : Stream := ⟨[], [], failure, line⟩
    match s.failAtEnd, levels with
    | some (f, s), _ => (.error f, s)
    | none, [] => (.error (readError .endOfInput line), s)
    | none, l :: _ => (.error (readError (.unbalanced l.openedAt) line), s)
  | t :: rest =>
    match t.kind with
    | .opening b => parseFrom failure t.line (⟨b, t.line, []⟩ :: levels) rest
    | .closing b =>
      match levels with
      | [] => (.error (readError (.unexpectedToken t.text) t.line), ⟨[], rest, failure, t.line⟩)
      | l :: outer =>
        if l.bracket = b then
          match deliver l.node outer with
          | .inl node => (.ok node, ⟨[], rest, failure, t.line⟩)
          | .inr levels => parseFrom failure t.line levels rest
        else
          (.error (readError (.unexpectedToken t.text) t.line), ⟨[t], rest, failure, line⟩)
    | _ =>
      match leaf t with
      | .error f => (.error (.fault f), ⟨[], rest, failure, t.line⟩)
      | .ok node =>
        match deliver node levels with
        | .inl node => (.ok node, ⟨[], rest, failure, t.line⟩)
        | .inr levels => parseFrom failure t.line levels rest

/-- The next expression. After an error the stream stands behind the tokens that were handed
out. -/
def parse (s : Stream) : Except Failure Node × Stream :=
  parseFrom s.failure s.line [] s.pending

end Stream

/-! ## A whole program -/

/-- Reads a program: one expression and nothing behind it. -/
def read (source : String) : Except Failure Node :=
  match (Stream.ofLexed (lex source)).peek with
  | (.error f, _) => .error f
  | (.ok none, s) => .error (Stream.readError .emptyProgram s.line)
  | (.ok (some _), s) =>
    match s.parse with
    | (.error f, _) => .error f
    | (.ok node, s) =>
      match s.peek with
      | (.error f, _) => .error f
      | (.ok (some t), _) => .error (Stream.readError (.trailing t.text) t.line)
      | (.ok none, _) => .ok node

end FormLang
