import FormLang.Node.Atom
import FormLang.Proofs.Reader.Cutting

set_option autoImplicit false

/-! # Text literals

Behind its opening quote, a text literal is a row of units, each a character that stands for itself
or a backslash with the character behind it, and the quote that closes it. Decoding takes the units
one by one (`unescape_literal`), whatever they are. The lexer takes the same units but for one: it
does not get over a backslash at the end of a line. So a quote is reported to be unterminated when
nothing closes it, and also when such a unit stands in front of the quote that does
(`unterminated_iff_not_closed`).
-/

namespace FormLang

/-! ## Units -/

/-- A unit of a text literal: a character that stands for itself, or a backslash and the character
behind it, whichever that is. -/
inductive TextUnit where
  | plain (c : Char) (hquote : c ≠ '"') (hbackslash : c ≠ '\\')
  | escape (c : Char)

namespace TextUnit

/-- How a unit is written. -/
def written : TextUnit → List Char
  | plain c _ _ => [c]
  | escape c => ['\\', c]

/-- The character that a unit stands for. -/
def decoded : TextUnit → Char
  | plain c _ _ => c
  | escape c => escaped c

/-- How some units are written, one after the other. -/
def writtenAll (units : List TextUnit) : List Char := units.flatMap written

/-- The backslash at the end of a line, with the line end. -/
def lineEscape : TextUnit := .escape '\n'

@[simp]
theorem writtenAll_nil : writtenAll [] = [] := rfl

@[simp]
theorem writtenAll_cons (u : TextUnit) (units : List TextUnit) :
    writtenAll (u :: units) = u.written ++ writtenAll units := rfl

end TextUnit

/-- Read from left to right behind an opening quote, does the text have some units up to the first
quote outside of them, and `behind` what follows that quote? -/
def ClosedBehind (units : List TextUnit) (cs behind : List Char) : Prop :=
  cs = TextUnit.writtenAll units ++ '"' :: behind

section

variable {units units' : List TextUnit} {cs behind behind' : List Char}

/-- There is one way to read units up to a closing quote. -/
theorem ClosedBehind.unique (h : ClosedBehind units cs behind)
    (h' : ClosedBehind units' cs behind') : units = units' ∧ behind = behind' := by
  -- The first character tells a closing quote, an escape and a plain character apart.
  induction units generalizing units' cs with
  | nil =>
      rw [ClosedBehind, TextUnit.writtenAll_nil, List.nil_append] at h
      rcases units' with _ | ⟨⟨c, hquote, hbackslash⟩ | c, units'⟩ <;> rw [ClosedBehind, h] at h'
      · exact ⟨rfl, (List.cons.inj h').2⟩
      · exact absurd (List.cons.inj h').1.symm hquote
      · exact absurd (List.cons.inj h').1 (by decide)
  | cons u units ih =>
      rcases u with ⟨c, hquote, hbackslash⟩ | c <;> rw [ClosedBehind] at h <;>
        rcases units' with _ | ⟨⟨d, hquote', hbackslash'⟩ | d, units'⟩ <;>
        rw [ClosedBehind, h] at h'
      · exact absurd (List.cons.inj h').1 hquote
      · obtain ⟨rfl, hrest⟩ := List.cons.inj h'
        obtain ⟨rfl, rfl⟩ := ih rfl hrest
        exact ⟨rfl, rfl⟩
      · exact absurd (List.cons.inj h').1 hbackslash
      · exact absurd (List.cons.inj h').1 (by decide)
      · exact absurd (List.cons.inj h').1.symm hbackslash'
      · obtain ⟨rfl, hrest⟩ := List.cons.inj (List.cons.inj h').2
        obtain ⟨rfl, rfl⟩ := ih rfl hrest
        exact ⟨rfl, rfl⟩

/-! ## Decoding -/

theorem unescapeFrom_writtenAll (units : List TextUnit) (done : List Char) :
    unescapeFrom done (TextUnit.writtenAll units) = done.reverse ++ units.map TextUnit.decoded := by
  induction units generalizing done with
  | nil => simp [unescapeFrom]
  | cons u units ih =>
      rw [TextUnit.writtenAll_cons]
      cases u with
      | plain c hquote hbackslash =>
          rw [TextUnit.written, List.singleton_append, unescapeFrom, ih]
          · simp [TextUnit.decoded]
          · simp [hbackslash]
      | escape c => simp [TextUnit.written, unescapeFrom, ih, TextUnit.decoded]

/-- A literal is decoded unit by unit. -/
theorem unescape_literal (units : List TextUnit) :
    unescape (String.ofList ('"' :: (TextUnit.writtenAll units ++ ['"']))) =
      String.ofList (units.map TextUnit.decoded) := by
  rw [unescape, String.toList_ofList, List.tail_cons, List.dropLast_concat,
    unescapeFrom_writtenAll]
  rfl

/-! ## Closing a literal -/

/-- The lexer gets over every unit but a backslash at the end of a line. -/
theorem literalRest_writtenAll (h : TextUnit.lineEscape ∉ units) :
    LiteralRest (TextUnit.writtenAll units ++ ['"']) := by
  induction units with
  | nil => exact .close
  | cons u units ih =>
      have hunits : TextUnit.lineEscape ∉ units := fun hmem => h (List.mem_cons_of_mem _ hmem)
      cases u with
      | plain c hquote hbackslash => exact .plain hquote hbackslash (ih hunits)
      | escape c =>
          have hc : c ≠ '\n' := by
            rintro rfl
            exact h List.mem_cons_self
          exact .escape hc (ih hunits)

/-- What the lexer takes for the rest of a literal is units and the closing quote. -/
theorem LiteralRest.exists_units {body : List Char} (h : LiteralRest body) :
    ∃ units, body = TextUnit.writtenAll units ++ ['"'] ∧ TextUnit.lineEscape ∉ units := by
  induction h with
  | close => exact ⟨[], rfl, by simp⟩
  | @escape c cs hc _ ih =>
      obtain ⟨units, rfl, hunits⟩ := ih
      refine ⟨.escape c :: units, rfl, fun hmem => ?_⟩
      rcases List.mem_cons.1 hmem with heq | hmem
      · exact hc (TextUnit.escape.inj heq).symm
      · exact hunits hmem
  | @plain c cs hquote hbackslash _ ih =>
      obtain ⟨units, rfl, hunits⟩ := ih
      refine ⟨.plain c hquote hbackslash :: units, rfl, fun hmem => ?_⟩
      rcases List.mem_cons.1 hmem with heq | hmem
      · cases heq
      · exact hunits hmem

/-- The token of a literal is found where it is closed. -/
theorem lexeme_of_closedBehind (h : ClosedBehind units cs behind)
    (hunits : TextUnit.lineEscape ∉ units) :
    lexeme '"' cs = .ok ⟨some .text, '"' :: (TextUnit.writtenAll units ++ ['"']), behind⟩ := by
  have hwrites : TokenKind.text.Writes ('"' :: (TextUnit.writtenAll units ++ ['"'])) :=
    ⟨_, rfl, literalRest_writtenAll hunits⟩
  have hfound : ∃ c cs', '"' :: (TextUnit.writtenAll units ++ ['"']) = c :: cs' ∧
      lexeme c (cs' ++ behind) =
        .ok ⟨some .text, '"' :: (TextUnit.writtenAll units ++ ['"']), behind⟩ :=
    lexeme_of_writes hwrites (by simp)
  obtain ⟨c, cs', htext, hlexeme⟩ := hfound
  obtain ⟨rfl, rfl⟩ := List.cons.inj htext
  have hcs : cs = TextUnit.writtenAll units ++ ['"'] ++ behind := by
    rw [h, List.append_assoc, List.singleton_append]
  rwa [hcs]

/-- No token is found if every closing quote has a backslash at the end of a line in front. -/
theorem lexeme_of_not_closedBehind
    (h : ∀ units behind, ClosedBehind units cs behind → TextUnit.lineEscape ∈ units) :
    lexeme '"' cs = .error .unterminatedText := by
  refine lexeme_obstacle (.quote fun text rest happend => ?_)
  rintro ⟨body, rfl, hbody⟩
  obtain ⟨units, rfl, hunits⟩ := hbody.exists_units
  have hcs : cs = TextUnit.writtenAll units ++ ['"'] ++ rest := (List.cons.inj happend).2
  rw [List.append_assoc, List.singleton_append] at hcs
  exact hunits (h units rest hcs)

end

/-! ## Places in a source -/

/-- From the beginning of a source the lexer comes, piece by piece, to the place between two texts,
and has found some tokens on the way. -/
inductive LexedTo (source : String) : List Char → List Token → List Char → Prop where
  | start : LexedTo source [] [] source.toList
  | piece {before cs : List Char} {ts : List Token} {c : Char} {l : Lexeme}
      (h : LexedTo source before ts (c :: cs)) (hl : lexeme c cs = .ok l) :
      LexedTo source (before ++ l.text) (ts ++ (l.token? (1 + lineEnds before)).toList) l.rest

section

variable {source : String} {before cs : List Char} {ts : List Token}

/-- What is behind a place has no influence on the tokens in front of it. -/
theorem LexedTo.lex_eq (h : LexedTo source before ts cs) :
    lex source = lexFrom (1 + lineEnds before) ts.reverse cs := by
  induction h with
  | start => rfl
  | @piece before cs ts c l _ hl ih =>
      rw [ih, lexFrom_piece hl, lineEnds_append, Nat.add_assoc]
      cases l.token? (1 + lineEnds before) <;> simp

/-- Tokens that have been found are the first ones of the source. -/
theorem LexedTo.prefix_tokens (h : LexedTo source before ts cs) : ts <+: (lex source).tokens := by
  rw [h.lex_eq, lexFrom_seen, List.reverse_reverse]
  exact List.prefix_append _ _

end

/-- Where the lexer comes to a double quote, it stops and reports an unterminated text just when no
quote closes it, or a backslash at the end of a line stands in front of the one that does. Otherwise
it goes on behind the closing quote, with one more token that ends there, and this is decoded unit
by unit. -/
theorem unterminated_iff_not_closed {source : String} {before cs : List Char} {ts : List Token}
    (h : LexedTo source before ts ('"' :: cs)) :
    (lex source = ⟨ts, some (.unterminatedText, 1 + lineEnds before)⟩ ↔
      ∀ units behind, ClosedBehind units cs behind → TextUnit.lineEscape ∈ units) ∧
    ∀ units behind, ClosedBehind units cs behind → TextUnit.lineEscape ∉ units →
      ∃ t : Token, t.kind = .text ∧ t.line = 1 + lineEnds before ∧
        t.text.toList = '"' :: (TextUnit.writtenAll units ++ ['"']) ∧
        LexedTo source (before ++ t.text.toList) (ts ++ [t]) behind ∧
        (ts ++ [t]) <+: (lex source).tokens ∧
        unescape t.text = String.ofList (units.map TextUnit.decoded) := by
  have hclosed : ∀ units behind, ClosedBehind units cs behind → TextUnit.lineEscape ∉ units →
      ∃ t : Token, t.kind = .text ∧ t.line = 1 + lineEnds before ∧
        t.text.toList = '"' :: (TextUnit.writtenAll units ++ ['"']) ∧
        LexedTo source (before ++ t.text.toList) (ts ++ [t]) behind ∧
        (ts ++ [t]) <+: (lex source).tokens ∧
        unescape t.text = String.ofList (units.map TextUnit.decoded) := by
    intro units behind hcs hunits
    have hbehind := LexedTo.piece h (lexeme_of_closedBehind hcs hunits)
    refine ⟨⟨.text, String.ofList ('"' :: (TextUnit.writtenAll units ++ ['"'])),
      1 + lineEnds before⟩, rfl, rfl, String.toList_ofList, ?_, hbehind.prefix_tokens,
      unescape_literal units⟩
    rw [String.toList_ofList]
    exact hbehind
  refine ⟨⟨fun hlex units behind hcs => ?_, fun hopen => ?_⟩, hclosed⟩
  · -- A token more than there are cannot have been found.
    by_contra hunits
    obtain ⟨t, -, -, -, -, hprefix, -⟩ := hclosed units behind hcs hunits
    have hlength : (ts ++ [t]).length ≤ ts.length := by
      rw [hlex] at hprefix
      exact hprefix.length_le
    rw [List.length_append, List.length_singleton] at hlength
    omega
  · rw [h.lex_eq, lexFrom_obstacle (lexeme_of_not_closedBehind hopen), List.reverse_reverse]

/-- Behind a literal that is an escaped backslash, one that is a backslash and a line end: it is
closed, and reported. -/
theorem unterminated_iff_not_closed_twice :
    let source := "\"\\\\\"\"\\\n\""
    let t : Token := ⟨.text, "\"\\\\\"", 1⟩
    LexedTo source t.text.toList [t] ['"', '\\', '\n', '"'] ∧ unescape t.text = "\\" ∧
      ClosedBehind [TextUnit.lineEscape] ['\\', '\n', '"'] [] ∧
      lex source = ⟨[t], some (.unterminatedText, 1)⟩ := by
  intro source t
  have hfirst : ClosedBehind [.escape '\\'] ['\\', '\\', '"', '"', '\\', '\n', '"']
      ['"', '\\', '\n', '"'] := rfl
  have hchars : source.toList = '"' :: ['\\', '\\', '"', '"', '\\', '\n', '"'] := by decide
  have hstart : LexedTo source [] [] ('"' :: ['\\', '\\', '"', '"', '\\', '\n', '"']) :=
    hchars ▸ .start
  obtain ⟨t', hkind, hline, htext, hbehind, -, hdecoded⟩ :=
    (unterminated_iff_not_closed hstart).2 _ _ hfirst (by simp [TextUnit.lineEscape])
  obtain rfl : t' = t := by
    obtain ⟨kind, text, line⟩ := t'
    obtain rfl : kind = .text := hkind
    obtain rfl : line = 1 := hline
    obtain rfl : text = "\"\\\\\"" := String.toList_inj.1 (htext.trans (by decide))
    rfl
  have hsecond : ClosedBehind [TextUnit.lineEscape] ['\\', '\n', '"'] [] := rfl
  have hreported := (unterminated_iff_not_closed hbehind).1.2 fun units behind hclosed =>
    (hsecond.unique hclosed).1 ▸ List.mem_singleton_self _
  have hline : 1 + lineEnds ([] ++ t.text.toList) = 1 := by decide
  rw [hline] at hreported
  exact ⟨hbehind, hdecoded, hsecond, hreported⟩

end FormLang
