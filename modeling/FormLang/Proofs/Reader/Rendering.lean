import FormLang.Proofs.Reader.Integers
import FormLang.Proofs.Reader.Writing

set_option autoImplicit false

/-! # Texts that render trees

A text renders a tree when it has the pieces of the tree one after the other, with blanks and line
ends between them, at least one of these between two atoms (`Renders`). Where the blanks are and where
the lines end does not matter to the reader, but for the lines of the leaves: it reads the tree back,
with the lines that the leaves are on in the text (`read_of_renders`).
-/

namespace FormLang

/-! ## On one line -/

mutual
/-- The node with all of its leaves on a line. -/
def Node.onLine (line : Int) : Node → Node
  | .symbol _ name => .symbol line name
  | .number _ value => .number line value
  | .truth _ value => .truth line value
  | .text _ value => .text line value
  | .list elements => .list (Node.allOnLine line elements)
  | .form style items => .form style (Node.allOnLine line items)
  | .foreign value => .foreign value

/-- Some nodes with all of their leaves on a line. -/
def Node.allOnLine (line : Int) : List Node → List Node
  | [] => []
  | n :: rest => n.onLine line :: Node.allOnLine line rest
end

/-- The piece on a line, if it is a leaf. -/
def Piece.onLine (line : Int) : Piece → Piece
  | .opening b => .opening b
  | .closing b => .closing b
  | .leaf n => .leaf (n.onLine line)

/-- The token on a line. -/
def Token.onLine (line : Nat) (t : Token) : Token := { t with line := line }

section

variable {t : Token} {ts : List Token} {p : Piece} {ps : List Piece} {n m : Node}

mutual
theorem Node.pieces_onLine (line : Int) : ∀ n : Node,
    (n.onLine line).pieces = n.pieces.map (Piece.onLine line)
  | .symbol _ _ => rfl
  | .number _ _ => rfl
  | .truth _ _ => rfl
  | .text _ _ => rfl
  | .list elements => by
      rw [Node.onLine, Node.pieces, Node.piecesOfAll_allOnLine, Node.pieces]
      simp [Piece.onLine]
  | .form .fixed items => by
      rw [Node.onLine, Node.pieces, Node.piecesOfAll_allOnLine, Node.pieces]
      simp [Piece.onLine]
  | .form .growable _ => rfl
  | .foreign _ => rfl

theorem Node.piecesOfAll_allOnLine (line : Int) : ∀ ns : List Node,
    Node.piecesOfAll (Node.allOnLine line ns) = (Node.piecesOfAll ns).map (Piece.onLine line)
  | [] => rfl
  | n :: rest => by
      rw [Node.allOnLine, Node.piecesOfAll, Node.pieces_onLine, Node.piecesOfAll_allOnLine,
        Node.piecesOfAll, List.map_append]
end

/-- The line of an atom has no influence on what it is read as. -/
theorem ofAtom_onLine {text : String} {line : Int} (h : Node.ofAtom text line = .ok n)
    (line' : Int) : Node.ofAtom text line' = .ok (n.onLine line') := by
  revert h
  rw [Node.ofAtom.eq_def, Node.ofAtom.eq_def]
  cases signedDigits? text.toList with
  | some found =>
      obtain ⟨negative, digits⟩ := found
      dsimp only
      intro h
      cases hread : readInteger negative digits with
      | ok k =>
          rw [hread] at h
          cases h
          rfl
      | error f =>
          rw [hread] at h
          cases h
  | none =>
      dsimp only
      intro h
      cases hread : decimal? text.toList with
      | some _ =>
          rw [hread] at h
          cases h
          rfl
      | none =>
          rw [hread] at h
          cases h
          rfl

theorem Token.Spells.onLine (h : t.Spells p) (line : Nat) :
    (t.onLine line).Spells (p.onLine line) := by
  cases p with
  | opening b => exact h
  | closing b => exact h
  | leaf n =>
      rcases h with ⟨hkind, hatom⟩ | ⟨hkind, rfl⟩
      · exact .inl ⟨hkind, ofAtom_onLine hatom line⟩
      · exact .inr ⟨hkind, rfl⟩

theorem Spelled.onLine (h : Spelled ts ps) (line : Nat) :
    Spelled (ts.map (Token.onLine line)) (ps.map (Piece.onLine line)) := by
  rw [Spelled, List.forall₂_map_left_iff, List.forall₂_map_right_iff]
  exact h.imp fun _ _ ht => ht.onLine line

theorem Node.SpelledBy.onLine (h : n.SpelledBy ts) (line : Nat) :
    (n.onLine line).SpelledBy (ts.map (Token.onLine line)) := by
  rw [Node.SpelledBy, Node.pieces_onLine]
  exact Spelled.onLine h line

/-- Tokens spell no more than one tree. -/
theorem Node.SpelledBy.unique (h : n.SpelledBy ts) (h' : m.SpelledBy ts) : n = m := by
  have hn := Stream.parseFrom_node none h 1 [] []
  rw [Stream.parseFrom_node none h' 1 [] []] at hn
  exact (Except.ok.inj (Prod.mk.inj hn).1).symm

/-- A token that spells something is not too long to be read. -/
theorem Token.Spells.isShort (h : t.Spells p) : t.IsShort := by
  intro hkind negative digits hdigits
  cases p with
  | opening b => cases hkind.symm.trans h
  | closing b => cases hkind.symm.trans h
  | leaf n =>
      rcases h with ⟨-, hatom⟩ | ⟨htext, -⟩
      · rw [Node.ofAtom, hdigits] at hatom
        dsimp only at hatom
        by_contra hlong
        rw [readInteger, if_pos (by omega)] at hatom
        cases hatom
      · cases hkind.symm.trans htext

theorem Spelled.isShort (h : Spelled ts ps) (ht : t ∈ ts) : t.IsShort := by
  induction h with
  | nil => cases ht
  | cons hspells _ ih =>
      rcases List.mem_cons.1 ht with rfl | ht
      · exact hspells.isShort
      · exact ih ht

end

/-! ## Renderings -/

/-- Is this how a piece is written, as a token of a kind? The line of a leaf does not matter. -/
def Piece.WrittenAs (p : Piece) (kind : TokenKind) (text : List Char) : Prop :=
  kind.Writes text ∧ (⟨kind, String.ofList text, 1⟩ : Token).Spells (p.onLine 1)

/-- Does the text have the pieces one after the other, with blanks and line ends between them? What
follows an atom in the text must not go on with it. -/
inductive Renders : List Char → List Piece → Prop where
  | nil : Renders [] []
  | blank {c : Char} {cs : List Char} {ps : List Piece} (hc : isSeparator c = true ∨ c = '\n')
      (h : Renders cs ps) : Renders (c :: cs) ps
  | piece {kind : TokenKind} {text cs : List Char} {p : Piece} {ps : List Piece}
      (hp : p.WrittenAs kind text) (hend : kind = .atom → ∀ c ∈ cs.head?, isAtomChar c = false)
      (h : Renders cs ps) : Renders (text ++ cs) (p :: ps)

/-- The character of an opening bracket. -/
def Bracket.left : Bracket → Char
  | .round => '('
  | .square => '['

/-- The character of a closing bracket. -/
def Bracket.right : Bracket → Char
  | .round => ')'
  | .square => ']'

section

variable {cs ds text : List Char} {kind : TokenKind} {p : Piece} {ps qs : List Piece}

theorem Piece.WrittenAs.renders (h : p.WrittenAs kind text) : Renders text [p] := by
  have hpiece : Renders (text ++ []) [p] := .piece h (by simp) .nil
  rwa [List.append_nil] at hpiece

/-- Two renderings, one behind the other, unless an atom at the end of the first goes on. -/
theorem Renders.append (h : Renders cs ps) (h' : Renders ds qs)
    (hstop : ∀ c ∈ ds.head?, isAtomChar c = false) : Renders (cs ++ ds) (ps ++ qs) := by
  induction h with
  | nil => exact h'
  | blank hc _ ih => exact .blank hc ih
  | @piece kind text cs p ps hp hend _ ih =>
      rw [List.append_assoc]
      refine .piece hp (fun hatom c hc => ?_) ih
      cases cs with
      | nil => exact hstop c hc
      | cons d cs => exact hend hatom c hc

theorem Bracket.writtenAs_left (b : Bracket) :
    (Piece.opening b).WrittenAs (.opening b) [b.left] := by
  cases b <;> exact ⟨rfl, rfl⟩

theorem Bracket.renders_right (b : Bracket) : Renders [b.right] [.closing b] := by
  have hwritten : (Piece.closing b).WrittenAs (.closing b) [b.right] := by
    cases b <;> exact ⟨rfl, rfl⟩
  exact hwritten.renders

theorem Bracket.right_stops (b : Bracket) : isAtomChar b.right = false := by
  cases b <;> decide

/-- Brackets around a rendering render the brackets too. -/
theorem Renders.bracketed (b : Bracket) (h : Renders cs ps) :
    Renders (b.left :: (cs ++ [b.right])) (.opening b :: (ps ++ [.closing b])) := by
  have hinside : Renders (cs ++ [b.right]) (ps ++ [.closing b]) :=
    h.append b.renders_right fun c hc => by
      obtain rfl : b.right = c := by simpa using hc
      exact b.right_stops
  exact Renders.piece b.writtenAs_left (fun hatom => by cases hatom) hinside

theorem Renders.blanks {gap : List Char} (hgap : ∀ c ∈ gap, isSeparator c = true ∨ c = '\n')
    (h : Renders cs ps) : Renders (gap ++ cs) ps := by
  induction gap with
  | nil => exact h
  | cons c gap ih => exact .blank (hgap c (by simp)) (ih fun d hd => hgap d (by simp [hd]))

theorem isAtomChar_blank {c : Char} (hc : isSeparator c = true ∨ c = '\n') :
    isAtomChar c = false := by
  rcases hc with hc | rfl
  · exact isAtomChar_separator hc
  · decide

/-- Renderings of some trees, with blanks or line ends between them. -/
theorem renders_intercalate {gap : List Char} {texts : List (List Char)} {ns : List Node}
    (hne : gap ≠ []) (hgap : ∀ c ∈ gap, isSeparator c = true ∨ c = '\n')
    (h : List.Forall₂ (fun text (n : Node) => Renders text n.pieces) texts ns) :
    Renders (gap.intercalate texts) (Node.piecesOfAll ns) := by
  induction h with
  | nil => exact .nil
  | @cons text n texts ns hn hrest ih =>
      cases hrest with
      | nil => simpa [List.intercalate_singleton, Node.piecesOfAll] using hn
      | @cons next m texts ns hm hmore =>
          rw [List.intercalate_cons_cons, List.append_assoc, Node.piecesOfAll]
          refine hn.append (ih.blanks hgap) fun c hc => ?_
          obtain ⟨d, gap, rfl⟩ := List.exists_cons_of_ne_nil hne
          obtain rfl : d = c := by simpa using hc
          exact isAtomChar_blank (hgap d (by simp))

end

/-! ## Leaves -/

/-- Is the name a word: one atom, and none that is taken for a number? -/
def IsWord (name : String) : Prop :=
  TokenKind.atom.Writes name.toList ∧ ∀ line, Node.ofAtom name line = .ok (.symbol line name)

section

variable {name s : String} {k : Int}

theorem renders_symbol (h : IsWord name) (line : Int) :
    Renders name.toList (Node.symbol line name).pieces := by
  have hwritten : (Piece.leaf (.symbol line name)).WrittenAs .atom name.toList := by
    refine ⟨h.1, .inl ⟨rfl, ?_⟩⟩
    rw [String.ofList_toList]
    exact h.2 1
  exact hwritten.renders

theorem renders_int (h : (Numeral.int k).writable = true) (line : Int) :
    Renders (toString k).toList (Node.number line (.int k)).pieces := by
  have hwritten : (Piece.leaf (.number line (.int k))).WrittenAs .atom (toString k).toList := by
    refine ⟨writes_int k, .inl ⟨rfl, ?_⟩⟩
    rw [String.ofList_toList]
    exact ofAtom_int h 1
  exact hwritten.renders

/-- A text without quotes and backslashes can be written as it is. -/
theorem exists_plain_units {cs : List Char} (hquote : '"' ∉ cs) (hbackslash : '\\' ∉ cs) :
    ∃ units, TextUnit.writtenAll units = cs ∧ List.Forall₂ TextUnit.Writes units cs := by
  induction cs with
  | nil => exact ⟨[], rfl, .nil⟩
  | cons c cs ih =>
      rw [List.mem_cons, not_or] at hquote hbackslash
      obtain ⟨units, hwritten, hwrites⟩ := ih hquote.2 hbackslash.2
      refine ⟨.plain c (Ne.symm hquote.1) (Ne.symm hbackslash.1) :: units, ?_,
        .cons (.plain _ _) hwrites⟩
      rw [TextUnit.writtenAll_cons, hwritten]
      rfl

theorem renders_text (hquote : '"' ∉ s.toList) (hbackslash : '\\' ∉ s.toList) (line : Int) :
    Renders ('"' :: (s.toList ++ ['"'])) (Node.text line s).pieces := by
  obtain ⟨units, hunits, hwrites⟩ := exists_plain_units hquote hbackslash
  have hwritten : (Piece.leaf (.text line s)).WrittenAs .text (TextUnit.literal units) :=
    ⟨⟨_, rfl, literalRest_writtenAll (TextUnit.lineEscape_not_mem hwrites)⟩,
      spells_literal 1 hwrites⟩
  rw [← hunits]
  exact hwritten.renders

end

/-! ## Reading a rendering -/

section

variable {cs : List Char} {ps : List Piece} {n : Node} {source : String}

/-- A rendering has the tokens of its pieces, on the lines that it has. -/
theorem lexFrom_of_renders (h : Renders cs ps) (line : Nat) :
    ∃ ts, lexFrom line [] cs = ⟨ts, none⟩ ∧
      Spelled (ts.map (Token.onLine 1)) (ps.map (Piece.onLine 1)) ∧
      ∀ t ∈ ts, line ≤ t.line ∧ t.line ≤ line + lineEnds cs := by
  induction h generalizing line with
  | nil => exact ⟨[], by rw [lexFrom_nil]; rfl, .nil, by simp⟩
  | @blank c cs ps hc _ ih =>
      obtain ⟨ts, hlex, hspelled, hlines⟩ := ih (line + lineEnds [c])
      have hgap : Filler [c] cs := .blank hc (.nil cs)
      have hends : lineEnds (c :: cs) = lineEnds [c] + lineEnds cs := lineEnds_append [c] cs
      refine ⟨ts, (lexFrom_of_filler hgap line).trans hlex, hspelled, fun t ht => ?_⟩
      have := hlines t ht
      omega
  | @piece kind text cs p ps hp hend _ ih =>
      obtain ⟨hwrites, hspells⟩ := hp
      obtain ⟨ts, hlex, hspelled, hlines⟩ := ih (line + lineEnds text)
      obtain ⟨c, text', htext, hlexeme⟩ := lexeme_of_writes hwrites hend
      have hcons : lexFrom line [] (text ++ cs) =
          (lexFrom (line + lineEnds text) [] cs).cons ⟨kind, String.ofList text, line⟩ := by
        rw [htext, List.cons_append]
        rw [htext] at hlexeme
        exact lexFrom_token hlexeme rfl
      rw [hlex] at hcons
      refine ⟨_, hcons, .cons hspells hspelled, fun t ht => ?_⟩
      rw [lineEnds_append]
      rcases List.mem_cons.1 ht with rfl | ht
      · dsimp only
        omega
      · have := hlines t ht
        omega

/-- The tree that a text renders is read from it, up to the lines of its leaves. -/
theorem read_of_renders (h : Renders source.toList n.pieces) :
    ∃ m, read source = .ok m ∧ m.onLine 1 = n.onLine 1 := by
  obtain ⟨ts, hlex, hspelled, -⟩ := lexFrom_of_renders h 1
  have hlex : lex source = ⟨ts, none⟩ := hlex
  have hn : (n.onLine 1).SpelledBy (ts.map (Token.onLine 1)) := by
    rw [Node.SpelledBy, Node.pieces_onLine]
    exact hspelled
  -- Neither the kinds of the tokens nor their lengths depend on the lines.
  have hsentence : Sentence (ts.map (·.kind)) := by
    have hkinds := hn.sentence
    rwa [List.map_map] at hkinds
  have hshort : ∀ t ∈ ts, t.IsShort := fun t ht =>
    (hspelled.isShort (List.mem_map_of_mem ht) : (t.onLine 1).IsShort)
  have hfailure : (lex source).failure = none := by rw [hlex]
  have htokens : (lex source).tokens = ts := by rw [hlex]
  obtain ⟨m, hm⟩ := hsentence.exists_node ts rfl hshort
  refine ⟨m, (read_eq_ok_iff_spelledBy hfailure).2 (htokens ▸ hm), ?_⟩
  exact (hm.onLine 1).unique hn

/-- If the text is a single line, all leaves are on line 1. -/
theorem read_of_renders_line (h : Renders source.toList n.pieces) (hline : '\n' ∉ source.toList) :
    read source = .ok (n.onLine 1) := by
  obtain ⟨ts, hlex, hspelled, hlines⟩ := lexFrom_of_renders h 1
  have hlex : lex source = ⟨ts, none⟩ := hlex
  have hends : lineEnds source.toList = 0 := List.count_eq_zero.2 hline
  have hts : ts.map (Token.onLine 1) = ts := by
    refine (List.map_congr_left fun t ht => ?_).trans (List.map_id ts)
    have := hlines t ht
    have hone : t.line = 1 := by omega
    show ({ t with line := 1 } : Token) = t
    rw [← hone]
  have hfailure : (lex source).failure = none := by rw [hlex]
  refine (read_eq_ok_iff_spelledBy hfailure).2 ?_
  rw [hlex, Node.SpelledBy, Node.pieces_onLine]
  rwa [hts] at hspelled

end

end FormLang
