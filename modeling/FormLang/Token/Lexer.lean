import FormLang.Text.Blank
import FormLang.Token

set_option autoImplicit false

/-! # Cutting text into tokens

`lexeme` finds the piece at the head of a text: a token, or filler. The pieces of a text follow
one another without a gap, so the lines of tokens come from counting the line ends in the pieces
before them. Cutting stops at the first character that starts no piece; the tokens before it
are kept.
-/

namespace FormLang

/-! ## Classes of characters -/

/-- The blanks that separate tokens; a comma is one of them. White space outside this list
starts no token and is no filler either. -/
def isSeparator (c : Char) : Bool := [' ', '\t', '\r', '\x0c', '\x0b', ','].contains c

/-- The characters with a meaning of their own, which end an atom. -/
def isDelimiter (c : Char) : Bool := ['(', ')', '[', ']', '"', ',', ';'].contains c

/-- May the character stand in an atom? -/
def isAtomChar (c : Char) : Bool := !isBlank c && !isDelimiter c

/-! ## Pieces of text -/

/-- A piece at the head of a text, and what follows it. Filler has no kind. -/
structure Lexeme where
  kind? : Option TokenKind
  text : List Char
  rest : List Char

/-- The rest of a text literal behind its opening quote: the characters up to and with the
closing quote, last first on top of `seen`, and what follows. A backslash takes the next
character with it, but it cannot stand at the end of a line. -/
def closeText (seen : List Char) : List Char → Option (List Char × List Char)
  | [] => none
  | '"' :: rest => some ('"' :: seen, rest)
  | ['\\'] => none
  | '\\' :: c :: rest => if c = '\n' then none else closeText (c :: '\\' :: seen) rest
  | c :: rest => closeText (c :: seen) rest

/-- A closed text literal loses no character. -/
theorem closeText_append {cs seen text rest : List Char}
    (h : closeText seen cs = some (text, rest)) : text.reverse ++ rest = seen.reverse ++ cs := by
  fun_induction closeText seen cs with
  | case1 => simp at h
  | case2 seen tail =>
    obtain ⟨rfl, rfl⟩ := Prod.mk.inj (Option.some.inj h)
    simp
  | case3 => simp at h
  | case4 => simp_all
  | case5 seen c rest hc ih => simp_all
  | case6 seen c rest _ _ _ ih => simp_all

theorem closeText_length {cs seen text rest : List Char}
    (h : closeText seen cs = some (text, rest)) : rest.length < cs.length := by
  fun_induction closeText seen cs with
  | case1 => simp at h
  | case2 seen rest => simp_all
  | case3 => simp at h
  | case4 => simp_all
  | case5 seen c rest hc ih =>
    have := ih h
    simp only [List.length_cons]
    omega
  | case6 seen c rest _ _ _ ih =>
    have := ih h
    simp only [List.length_cons]
    omega

/-- The longest piece that starts with `c` and whose other characters satisfy `p`. -/
def Lexeme.run (kind? : Option TokenKind) (p : Char → Bool) (c : Char) (cs : List Char) : Lexeme :=
  ⟨kind?, c :: cs.takeWhile p, cs.dropWhile p⟩

/-- The piece at the head of the text `c :: cs`. -/
def lexeme (c : Char) (cs : List Char) : Except ReadFault Lexeme :=
  if c = ';' then .ok (.run none (· != '\n') c cs)
  else if c = '\n' then .ok ⟨none, [c], cs⟩
  else if isSeparator c then .ok (.run none isSeparator c cs)
  else if c = '(' then .ok ⟨some (.opening .round), [c], cs⟩
  else if c = ')' then .ok ⟨some (.closing .round), [c], cs⟩
  else if c = '[' then .ok ⟨some (.opening .square), [c], cs⟩
  else if c = ']' then .ok ⟨some (.closing .square), [c], cs⟩
  else if c = '"' then
    match closeText ['"'] cs with
    | some (text, rest) => .ok ⟨some .text, text.reverse, rest⟩
    | none => .error .unterminatedText
  else if isAtomChar c then .ok (.run (some .atom) isAtomChar c cs)
  else .error (.unexpectedCharacter c)

theorem Lexeme.run_append (kind? : Option TokenKind) (p : Char → Bool) (c : Char)
    (cs : List Char) : (run kind? p c cs).text ++ (run kind? p c cs).rest = c :: cs := by
  simp [run]

/-- A piece is not empty, and together with what follows it makes up the text. -/
theorem lexeme_append {c : Char} {cs : List Char} {l : Lexeme} (h : lexeme c cs = .ok l) :
    l.text ≠ [] ∧ l.text ++ l.rest = c :: cs := by
  have ofRun {k : Option TokenKind} {p : Char → Bool} (h : .run k p c cs = l) :
      l.text ≠ [] ∧ l.text ++ l.rest = c :: cs := by
    subst h
    exact ⟨List.cons_ne_nil _ _, Lexeme.run_append ..⟩
  have ofChar {k : Option TokenKind} (h : (⟨k, [c], cs⟩ : Lexeme) = l) :
      l.text ≠ [] ∧ l.text ++ l.rest = c :: cs := by
    subst h
    exact ⟨List.cons_ne_nil _ _, rfl⟩
  unfold lexeme at h
  split at h
  · exact ofRun (Except.ok.inj h)
  split at h
  · exact ofChar (Except.ok.inj h)
  split at h
  · exact ofRun (Except.ok.inj h)
  split at h
  · exact ofChar (Except.ok.inj h)
  split at h
  · exact ofChar (Except.ok.inj h)
  split at h
  · exact ofChar (Except.ok.inj h)
  split at h
  · exact ofChar (Except.ok.inj h)
  split at h
  · next hc =>
    split at h
    · next text rest hclose =>
      have happend := closeText_append hclose
      have hlength := closeText_length hclose
      obtain rfl := Except.ok.inj h
      refine ⟨fun hnil => ?_, by simpa [hc] using happend⟩
      have := congrArg List.length happend
      simp only [List.reverse_eq_nil_iff] at hnil
      simp [hnil] at this
      omega
    · cases h
  split at h
  · exact ofRun (Except.ok.inj h)
  · cases h

/-- What follows a piece is shorter than the text. -/
theorem lexeme_length {c : Char} {cs : List Char} {l : Lexeme} (h : lexeme c cs = .ok l) :
    l.rest.length < (c :: cs).length := by
  obtain ⟨hne, happend⟩ := lexeme_append h
  have hpos := List.length_pos_iff.2 hne
  rw [← happend, List.length_append]
  omega

/-! ## The tokens of a text -/

/-- The tokens of a text, and where and why cutting stopped, unless it reached the end. -/
structure Lexed where
  tokens : List Token
  failure : Option (ReadFault × Nat)

/-- How many lines a piece ends. -/
def lineEnds (cs : List Char) : Nat := cs.count '\n'

/-- The tokens of a text that starts on a line, behind tokens (last first) that are already
known. -/
def lexFrom (line : Nat) (seen : List Token) : List Char → Lexed
  | [] => ⟨seen.reverse, none⟩
  | c :: cs =>
    match _h : lexeme c cs with
    | .error reason => ⟨seen.reverse, some (reason, line)⟩
    | .ok l =>
      let seen := match l.kind? with
        | some kind => ⟨kind, String.ofList l.text, line⟩ :: seen
        | none => seen
      lexFrom (line + lineEnds l.text) seen l.rest
  termination_by cs => cs.length
  decreasing_by exact lexeme_length _h

/-- The tokens of a source text. -/
def lex (source : String) : Lexed := lexFrom 1 [] source.toList

end FormLang
