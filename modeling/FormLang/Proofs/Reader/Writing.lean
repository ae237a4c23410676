import FormLang.Proofs.Reader.Literal
import FormLang.Proofs.Reader.Parsing

set_option autoImplicit false

/-! # Writing text literals

Every text can be written as a literal, and often in more than one way: a quote and a backslash need
an escape, a line end, a tab and a carriage return may have one, and all else stands for itself
(`TextUnit.Writes`). Whichever way is chosen for each character, the literal is read back as the text,
and what follows it in a source is cut as it would be by itself, further down by the line ends that
stand in the literal as they are (`read_literal`).
-/

namespace FormLang

/-! ## Ways to write a text -/

/-- The letter of the escape for a character that has one. -/
def escapeLetter? : Char → Option Char
  | '\n' => some 'n'
  | '\t' => some 't'
  | '\r' => some 'r'
  | '"' => some '"'
  | '\\' => some '\\'
  | _ => none

namespace TextUnit

/-- Is the unit a way to write the character: the character itself, or the escape for it? -/
inductive Writes : TextUnit → Char → Prop where
  | plain {c : Char} (hquote : c ≠ '"') (hbackslash : c ≠ '\\') :
      Writes (.plain c hquote hbackslash) c
  | escape {c letter : Char} (h : escapeLetter? c = some letter) : Writes (.escape letter) c

variable {u : TextUnit} {units : List TextUnit} {c letter : Char} {cs : List Char}

/-- A letter is read as the character that it is the letter for, and it is no line end. -/
theorem escaped_of_escapeLetter? (h : escapeLetter? c = some letter) :
    escaped letter = c ∧ letter ≠ '\n' := by
  unfold escapeLetter? at h
  split at h <;> cases h <;> decide

theorem Writes.decoded (h : u.Writes c) : u.decoded = c := by
  cases h with
  | plain hquote hbackslash => rfl
  | escape h => exact (escaped_of_escapeLetter? h).1

theorem Writes.ne_lineEscape (h : u.Writes c) : u ≠ lineEscape := by
  cases h with
  | plain hquote hbackslash => exact TextUnit.noConfusion
  | escape h => exact fun heq => (escaped_of_escapeLetter? h).2 (TextUnit.escape.inj heq)

theorem decoded_of_writes (h : List.Forall₂ Writes units cs) :
    units.map TextUnit.decoded = cs := by
  induction h with
  | nil => rfl
  | cons hu _ ih => rw [List.map_cons, hu.decoded, ih]

theorem lineEscape_not_mem (h : List.Forall₂ Writes units cs) : lineEscape ∉ units := by
  induction h with
  | nil => simp
  | cons hu _ ih =>
      rw [List.mem_cons, not_or]
      exact ⟨hu.ne_lineEscape.symm, ih⟩

/-- Some units between quotes. -/
def literal (units : List TextUnit) : List Char := '"' :: (writtenAll units ++ ['"'])

/-- The line ends of a literal are those of its units. -/
theorem lineEnds_literal (units : List TextUnit) :
    lineEnds (literal units) = lineEnds (writtenAll units) := by
  simp [lineEnds, literal]

end TextUnit

/-! ## Further down -/

/-- The same tokens, and the same failure, some lines further down. -/
def Lexed.below (l : Lexed) (lines : Nat) : Lexed where
  tokens := l.tokens.map fun t => { t with line := t.line + lines }
  failure := l.failure.map fun (reason, line) => (reason, line + lines)

theorem Lexed.below_cons (t : Token) (l : Lexed) (lines : Nat) :
    (l.cons t).below lines = (l.below lines).cons { t with line := t.line + lines } := rfl

/-- Text is cut in the same way wherever it starts. -/
theorem lexFrom_below (line lines : Nat) (cs : List Char) :
    lexFrom (line + lines) [] cs = (lexFrom line [] cs).below lines := by
  induction hlength : cs.length using Nat.strong_induction_on generalizing line cs with
  | h length ih =>
  cases cs with
  | nil => simp [lexFrom_nil, Lexed.below]
  | cons c cs =>
      cases h : lexeme c cs with
      | error reason => simp [lexFrom_obstacle h, Lexed.below]
      | ok l =>
          have hless : l.rest.length < length := hlength ▸ lexeme_length h
          have hrest := ih _ hless (line + lineEnds l.text) l.rest rfl
          rw [Nat.add_right_comm] at hrest
          cases hkind : l.kind? with
          | none => rw [lexFrom_filler h hkind, lexFrom_filler h hkind, hrest]
          | some kind =>
              rw [lexFrom_token h hkind, lexFrom_token h hkind, hrest, Lexed.below_cons]

/-! ## Reading a literal back -/

/-- A literal at the head of a source is its first token, and what follows is cut by itself. -/
theorem lex_literal {units : List TextUnit} (h : TextUnit.lineEscape ∉ units)
    (behind : List Char) :
    lex (String.ofList (TextUnit.literal units ++ behind)) =
      ((lex (String.ofList behind)).below (lineEnds (TextUnit.literal units))).cons
        ⟨.text, String.ofList (TextUnit.literal units), 1⟩ := by
  have hclosed : ClosedBehind units (TextUnit.writtenAll units ++ ['"'] ++ behind) behind := by
    rw [ClosedBehind, List.append_assoc, List.singleton_append]
  have htoken : lexFrom 1 [] (TextUnit.literal units ++ behind) =
      (lexFrom (1 + lineEnds (TextUnit.literal units)) [] behind).cons
        ⟨.text, String.ofList (TextUnit.literal units), 1⟩ :=
    lexFrom_token (lexeme_of_closedBehind hclosed h) rfl
  rw [lex, lex, String.toList_ofList, String.toList_ofList, ← lexFrom_below]
  exact htoken

/-- The token of a literal is read as the text that it writes. -/
theorem spells_literal {t : String} {units : List TextUnit} (line : Nat)
    (h : List.Forall₂ TextUnit.Writes units t.toList) :
    Token.Spells ⟨.text, String.ofList (TextUnit.literal units), line⟩ (.leaf (.text line t)) := by
  have hdecoded : unescape (String.ofList (TextUnit.literal units)) = t := by
    rw [TextUnit.literal, unescape_literal, TextUnit.decoded_of_writes h, String.ofList_toList]
  refine .inr ⟨rfl, ?_⟩
  show Node.text line t = Node.text line _
  rw [hdecoded]

/-- The first token of a source stands behind filler, on the line that the filler ends in. -/
theorem exists_gap_of_head {source : String} {t : Token} (h : t ∈ (lex source).tokens.head?) :
    ∃ gap rest, source.toList = gap ++ (t.text.toList ++ rest) ∧
      Filler gap (t.text.toList ++ rest) ∧ t.line = 1 + lineEnds gap := by
  have hcut := cut_lex source
  generalize source.toList = cs at hcut ⊢
  generalize lex source = l at h hcut
  cases hcut with
  | finished hgap => cases h
  | stuck hgap hreason hline => cases h
  | @token _ gap rest u ts failure hgap hu _ =>
      obtain rfl : u = t := Option.some.inj h
      exact ⟨gap, rest, rfl, hgap, hu.line⟩

/-- A text that is written as a literal, each of its characters in a way of its own, is read back from
line 1. At the head of a source the literal is the first token, whatever follows it; and what follows
has the tokens that it has by itself, on lines that are further down by as many line ends as stand in
the literal as they are. The next token is therefore on the line that the line ends in the literal
and those in the filler behind it lead to. -/
theorem read_literal {t : String} {units : List TextUnit}
    (h : List.Forall₂ TextUnit.Writes units t.toList) :
    read (String.ofList (TextUnit.literal units)) = .ok (.text 1 t) ∧
    ∀ behind : List Char,
      let lexed := lex (String.ofList (TextUnit.literal units ++ behind))
      lexed = ((lex (String.ofList behind)).below (lineEnds (TextUnit.writtenAll units))).cons
        ⟨.text, String.ofList (TextUnit.literal units), 1⟩ ∧
      ∀ next ∈ lexed.tokens[1]?, ∃ gap rest, behind = gap ++ (next.text.toList ++ rest) ∧
        Filler gap (next.text.toList ++ rest) ∧
        next.line = 1 + lineEnds (TextUnit.writtenAll units) + lineEnds gap := by
  have hlex := lex_literal (TextUnit.lineEscape_not_mem h)
  rw [TextUnit.lineEnds_literal] at hlex
  refine ⟨?_, fun behind => ⟨hlex behind, fun next hnext => ?_⟩⟩
  · have hliteral := hlex []
    have hnone : lex (String.ofList []) = ⟨[], none⟩ := by
      rw [lex, String.toList_ofList, lexFrom_nil]
      rfl
    rw [List.append_nil, hnone] at hliteral
    have hfailure : (lex (String.ofList (TextUnit.literal units))).failure = none := by
      rw [hliteral]
      rfl
    refine (read_eq_ok_iff_spelledBy hfailure).2 ?_
    rw [hliteral]
    exact (spells_literal 1 h).spelledBy
  · -- The next token is the first one of the text behind the literal, further down.
    rw [hlex behind] at hnext
    have hnext : next ∈ ((lex (String.ofList behind)).below _).tokens[0]? := hnext
    rw [Lexed.below, List.getElem?_map] at hnext
    obtain ⟨u, hu, rfl⟩ := Option.map_eq_some_iff.1 hnext
    rw [← List.head?_eq_getElem?] at hu
    obtain ⟨gap, rest, hbehind, hgap, hline⟩ := exists_gap_of_head hu
    rw [String.toList_ofList] at hbehind
    refine ⟨gap, rest, hbehind, hgap, ?_⟩
    show u.line + _ = _
    omega

/-- A line end, once as it is and once escaped, a quote and a backslash; and behind the literal a word
on the line after the next. -/
theorem read_literal_line_ends :
    let t := "a\n\n\"\\"
    let units : List TextUnit := [.plain 'a' (by decide) (by decide),
      .plain '\n' (by decide) (by decide), .escape 'n', .escape '"', .escape '\\']
    let behind := ['\n', 'b']
    List.Forall₂ TextUnit.Writes units t.toList ∧
      TextUnit.literal units = "\"a\n\\n\\\"\\\\\"".toList ∧
      read (String.ofList (TextUnit.literal units)) = .ok (.text 1 t) ∧
      (lex (String.ofList (TextUnit.literal units ++ behind))).tokens =
        [⟨.text, String.ofList (TextUnit.literal units), 1⟩, ⟨.atom, "b", 3⟩] := by
  intro t units behind
  have hplain : ∀ c (hquote : c ≠ '"') (hbackslash : c ≠ '\\'),
      (TextUnit.plain c hquote hbackslash).Writes c := fun _ _ _ => .plain _ _
  have hescape : ∀ c letter, escapeLetter? c = some letter → (TextUnit.escape letter).Writes c :=
    fun _ _ => .escape
  have hchars : t.toList = ['a', '\n', '\n', '"', '\\'] := by decide
  have hwrites : List.Forall₂ TextUnit.Writes units t.toList := by
    rw [hchars]
    exact .cons (hplain _ _ _) (.cons (hplain _ _ _) (.cons (hescape _ _ rfl)
      (.cons (hescape _ _ rfl) (.cons (hescape _ _ rfl) .nil))))
  obtain ⟨hread, hbehind⟩ := read_literal hwrites
  refine ⟨hwrites, by decide, hread, ?_⟩
  rw [(hbehind behind).1]
  have hword : lex (String.ofList behind) = ⟨[⟨.atom, "b", 2⟩], none⟩ := by
    unfold behind
    cbv
  rw [hword]
  rfl

end FormLang
