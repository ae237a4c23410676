import FormLang.Proofs.Reader.Grammar
import Mathlib

set_option autoImplicit false

/-! # Reading is parsing

Reading follows the pieces of a tree to the letter: a node that is spelled at the head of the
tokens is read from them, whatever brackets are open (`Stream.parseFrom_node`), and whatever is
read is spelled by what has been taken (`Stream.spelled_of_parseFrom`). So the reader accepts the
sentences of the grammar and nothing else, and what it builds is the only tree that fits
(`read_accepts_sentences`).
-/

namespace FormLang

/-! ## Reading what is spelled -/

namespace Stream

/-- The line of the last of some tokens, or the one before them. -/
def lineBehind (line : Nat) (ts : List Token) : Nat := ts.foldl (fun _ t => t.line) line

/-- How reading goes on when a node has been read. -/
def goOn (failure : Option (ReadFault × Nat)) (line : Nat) (n : Node) (levels : List Level)
    (rest : List Token) : Except Failure Node × Stream :=
  match deliver n levels with
  | .inl node => (.ok node, ⟨[], rest, failure, line⟩)
  | .inr levels => parseFrom failure line levels rest

theorem Level.node_eq_wrap (l : Level) : l.node = l.bracket.wrap l.items.reverse := by
  rw [node.eq_def]
  cases l.bracket <;> rfl

section

variable {failure : Option (ReadFault × Nat)} {line : Nat} {levels outer : List Level} {l : Level}
  {t : Token} {ts rest : List Token} {b : Bracket} {n : Node}

theorem lineBehind_append (line : Nat) (ts us : List Token) :
    lineBehind line (ts ++ us) = lineBehind (lineBehind line ts) us :=
  List.foldl_append

theorem parseFrom_opening (h : t.kind = .opening b) :
    parseFrom failure line levels (t :: rest) =
      parseFrom failure t.line (⟨b, t.line, []⟩ :: levels) rest := by
  rw [parseFrom.eq_def]
  dsimp only
  rw [h]

theorem parseFrom_closing (h : t.kind = .closing l.bracket) :
    parseFrom failure line (l :: outer) (t :: rest) = goOn failure t.line l.node outer rest := by
  rw [parseFrom.eq_def]
  dsimp only
  rw [h]
  dsimp only
  rw [if_pos rfl]
  rfl

theorem parseFrom_leaf (h : t.Spells (.leaf n)) :
    parseFrom failure line levels (t :: rest) = goOn failure t.line n levels rest := by
  rw [parseFrom.eq_def]
  rcases h with ⟨hkind, hatom⟩ | ⟨hkind, rfl⟩
  · have hleaf : leaf t = .ok n := by
      rw [leaf, if_neg (by rw [hkind]; decide)]
      exact hatom
    dsimp only
    rw [hkind, hleaf]
    rfl
  · have hleaf : leaf t = .ok (.text t.line (unescape t.text)) := by
      rw [leaf, if_pos hkind]
    dsimp only
    rw [hkind, hleaf]
    rfl

/-- What stands between brackets is read, and then the node that the brackets make. -/
theorem parseFrom_brackets {ns : List Node}
    (h : Spelled ts (.opening b :: (Node.piecesOfAll ns ++ [.closing b])))
    (hinside : ∀ us, Spelled us (Node.piecesOfAll ns) → ∀ line l rest,
      parseFrom failure line (l :: levels) (us ++ rest) =
        parseFrom failure (lineBehind line us)
          ({ l with items := ns.reverse ++ l.items } :: levels) rest) :
    parseFrom failure line levels (ts ++ rest) =
      goOn failure (lineBehind line ts) (b.wrap ns) levels rest := by
  obtain ⟨opening, inside, closing, rfl, hopening, hspelled, hclosing⟩ := of_spelled_brackets h
  have hnode : (⟨b, opening.line, ns.reverse ++ []⟩ : Level).node = b.wrap ns := by
    rw [Level.node_eq_wrap]
    simp
  have hline : lineBehind line (opening :: (inside ++ [closing])) = closing.line := by
    simp [lineBehind]
  calc
    parseFrom failure line levels (opening :: (inside ++ [closing]) ++ rest)
    _ = parseFrom failure opening.line (⟨b, opening.line, []⟩ :: levels)
          (inside ++ closing :: rest) := by
      rw [List.cons_append, parseFrom_opening hopening, List.append_assoc]
      rfl
    _ = parseFrom failure (lineBehind opening.line inside)
          (⟨b, opening.line, ns.reverse ++ []⟩ :: levels) (closing :: rest) :=
      hinside inside hspelled _ _ _
    _ = goOn failure closing.line (b.wrap ns) levels rest := by
      rw [parseFrom_closing hclosing, hnode]
    _ = _ := by rw [hline]

theorem parseFrom_piece (failure : Option (ReadFault × Nat)) (h : Spelled ts [.leaf n]) :
    ∀ line levels rest, parseFrom failure line levels (ts ++ rest) =
      goOn failure (lineBehind line ts) n levels rest := by
  obtain ⟨t, rfl, ht⟩ := of_spelled_singleton h
  exact fun _ _ _ => parseFrom_leaf ht

mutual
/-- A node that is spelled at the head of the tokens is read from them, whatever brackets are
open. -/
theorem parseFrom_node (failure : Option (ReadFault × Nat)) : ∀ {n : Node} {ts : List Token},
    n.SpelledBy ts → ∀ line levels rest,
      parseFrom failure line levels (ts ++ rest) =
        goOn failure (lineBehind line ts) n levels rest
  | .list _, _, h => fun _ levels _ =>
      parseFrom_brackets (b := .square) h fun _ hus => parseFrom_nodes failure hus levels
  | .form .fixed _, _, h => fun _ levels _ =>
      parseFrom_brackets (b := .round) h fun _ hus => parseFrom_nodes failure hus levels
  | .form .growable _, _, h => parseFrom_piece failure h
  | .symbol _ _, _, h => parseFrom_piece failure h
  | .number _ _, _, h => parseFrom_piece failure h
  | .truth _ _, _, h => parseFrom_piece failure h
  | .text _ _, _, h => parseFrom_piece failure h
  | .foreign _, _, h => parseFrom_piece failure h

/-- Nodes that are spelled inside brackets are read one after the other. -/
theorem parseFrom_nodes (failure : Option (ReadFault × Nat)) : ∀ {ns : List Node}
    {ts : List Token}, Spelled ts (Node.piecesOfAll ns) → ∀ levels line l rest,
      parseFrom failure line (l :: levels) (ts ++ rest) =
        parseFrom failure (lineBehind line ts)
          ({ l with items := ns.reverse ++ l.items } :: levels) rest
  | [], _, h => fun _ _ _ _ => by
      cases h
      rfl
  | n :: more, _, h => fun levels line l rest => by
      obtain ⟨us, vs, rfl, hn, hmore⟩ := of_spelled_append h
      have hfirst : n.SpelledBy us := hn
      rw [List.append_assoc, parseFrom_node failure hfirst, lineBehind_append]
      have hrest := parseFrom_nodes failure hmore levels (lineBehind line us)
        { l with items := n :: l.items } rest
      simpa [goOn, deliver] using hrest
end

/-! ## What has been read is spelled -/

/-- The pieces of the brackets that are still open, with what stands in them so far. -/
def openPieces : List Level → List Piece
  | [] => []
  | l :: outer => openPieces outer ++ .opening l.bracket :: Node.piecesOfAll l.items.reverse

theorem Level.pieces_node (l : Level) :
    l.node.pieces =
      .opening l.bracket :: (Node.piecesOfAll l.items.reverse ++ [.closing l.bracket]) := by
  rw [node_eq_wrap, Bracket.pieces_wrap]

/-- A node that is delivered adds its pieces to those of the open brackets. -/
theorem deliver_pieces (n : Node) (levels : List Level) :
    match deliver n levels with
    | .inl node => node.pieces = openPieces levels ++ n.pieces
    | .inr levels' => openPieces levels' = openPieces levels ++ n.pieces := by
  cases levels with
  | nil => rfl
  | cons l outer =>
      show openPieces outer ++ .opening l.bracket :: Node.piecesOfAll (n :: l.items).reverse = _
      rw [List.reverse_cons, Node.piecesOfAll_append, openPieces]
      simp [Node.piecesOfAll]

/-- A bracket that is closed delivers its node to the brackets around it. -/
theorem spelled_closing (hspelled : Spelled ts (openPieces (l :: outer)))
    (h : t.kind = .closing l.bracket) :
    Spelled (ts ++ [t]) (openPieces outer ++ l.node.pieces) := by
  have hall := hspelled.append (spelled_singleton (p := .closing l.bracket) h)
  rw [openPieces] at hall
  rw [Level.pieces_node]
  simpa using hall

/-- Reading ends with an expression that the tokens taken spell, those before included, and leaves
the others as they are. -/
def Reads (failure : Option (ReadFault × Nat)) (before ts : List Token) (n : Node) (s : Stream) :
    Prop :=
  ∃ used, ts = used ++ s.rest ∧ s.buffered = [] ∧ s.failure = failure ∧
    n.SpelledBy (before ++ used)

theorem Reads.cons {before rest : List Token} {t : Token} {s : Stream}
    (h : Reads failure (before ++ [t]) rest n s) : Reads failure before (t :: rest) n s := by
  obtain ⟨used, rfl, hbuffered, hfailure, hspelled⟩ := h
  rw [List.append_assoc] at hspelled
  exact ⟨t :: used, rfl, hbuffered, hfailure, hspelled⟩

/-- If going on after a node leads to an expression, then either it is the node or reading has
gone on inside the open brackets. -/
theorem reads_of_goOn {before : List Token} {m : Node} {s : Stream}
    (hspelled : Spelled before (openPieces levels ++ m.pieces))
    (ih : ∀ levels', Spelled before (openPieces levels') →
      parseFrom failure line levels' rest = (.ok n, s) → Reads failure before rest n s)
    (h : goOn failure line m levels rest = (.ok n, s)) : Reads failure before rest n s := by
  have hpieces := deliver_pieces m levels
  rw [goOn.eq_def] at h
  split at h
  · next node hdeliver =>
    rw [hdeliver] at hpieces
    cases h
    refine ⟨[], rfl, rfl, rfl, ?_⟩
    rw [List.append_nil, Node.SpelledBy, hpieces]
    exact hspelled
  · next levels' hdeliver =>
    rw [hdeliver] at hpieces
    refine ih levels' ?_ h
    rw [hpieces]
    exact hspelled

/-- A token that is no bracket is read only if it spells a leaf. -/
theorem exists_leaf_of_parseFrom {s : Stream} (hkind : t.kind = .atom ∨ t.kind = .text)
    (h : parseFrom failure line levels (t :: rest) = (.ok n, s)) :
    ∃ m, t.Spells (.leaf m) := by
  cases hleaf : leaf t with
  | error f =>
      rw [parseFrom.eq_def] at h
      rcases hkind with hkind | hkind
      · dsimp only at h
        rw [hkind, hleaf] at h
        cases h
      · dsimp only at h
        rw [hkind, hleaf] at h
        cases h
  | ok m =>
      refine ⟨m, ?_⟩
      rw [leaf] at hleaf
      split at hleaf
      · next htext => exact .inr ⟨htext, (Except.ok.inj hleaf).symm⟩
      · next htext => exact .inl ⟨hkind.resolve_right htext, hleaf⟩

/-- Whatever is read is spelled by the tokens that have been taken. -/
theorem spelled_of_parseFrom {before ts : List Token} {s : Stream}
    (hspelled : Spelled before (openPieces levels))
    (h : parseFrom failure line levels ts = (.ok n, s)) : Reads failure before ts n s := by
  induction ts generalizing before line levels with
  | nil =>
      rw [parseFrom.eq_def] at h
      dsimp only at h
      split at h <;> cases h
  | cons t rest ih =>
      cases hkind : t.kind with
      | opening b =>
          rw [parseFrom_opening hkind] at h
          refine Reads.cons (ih ?_ h)
          exact hspelled.append (spelled_singleton hkind)
      | closing b =>
          cases levels with
          | nil =>
              rw [parseFrom.eq_def] at h
              dsimp only at h
              rw [hkind] at h
              cases h
          | cons l outer =>
              by_cases hb : l.bracket = b
              · have hclosing : t.kind = .closing l.bracket := by rw [hkind, hb]
                rw [parseFrom_closing hclosing] at h
                have hall := spelled_closing hspelled hclosing
                exact Reads.cons (reads_of_goOn hall (fun levels' hl h' => ih hl h') h)
              · rw [parseFrom.eq_def] at h
                dsimp only at h
                rw [hkind] at h
                dsimp only at h
                rw [if_neg hb] at h
                cases h
      | text =>
          obtain ⟨m, hm⟩ := exists_leaf_of_parseFrom (.inr hkind) h
          rw [parseFrom_leaf hm] at h
          have hall := hspelled.append hm.spelledBy
          exact Reads.cons (reads_of_goOn hall (fun levels' hl h' => ih hl h') h)
      | atom =>
          obtain ⟨m, hm⟩ := exists_leaf_of_parseFrom (.inl hkind) h
          rw [parseFrom_leaf hm] at h
          have hall := hspelled.append hm.spelledBy
          exact Reads.cons (reads_of_goOn hall (fun levels' hl h' => ih hl h') h)

end

end Stream

/-! ## Whole programs -/

section

variable {source : String} {n : Node}

/-- What a program comes to behind its first expression, where no token should be left. -/
def Stream.finish (node : Node) (s : Stream) : Except Failure Node :=
  match s.peek with
  | (.error f, _) => .error f
  | (.ok (some t), _) => .error (readError (.trailing t.text) t.line)
  | (.ok none, _) => .ok node

/-- A program that has tokens is read from the first of them. -/
theorem read_of_tokens (hne : (lex source).tokens ≠ []) :
    read source =
      match Stream.parseFrom (lex source).failure 1 [] (lex source).tokens with
      | (.error f, _) => .error f
      | (.ok node, s) => s.finish node := by
  rw [read.eq_def]
  generalize lex source = l at hne ⊢
  obtain ⟨tokens, failure⟩ := l
  cases tokens with
  | nil => exact absurd rfl hne
  | cons t rest =>
      -- The first token is looked at, and is still the first that is read.
      have hpeek : (Stream.ofLexed ⟨t :: rest, failure⟩).peek =
          (.ok (some t), ⟨[t], rest, failure, 1⟩) := rfl
      have hparse : Stream.parse ⟨[t], rest, failure, 1⟩ =
          Stream.parseFrom failure 1 [] (t :: rest) := rfl
      rw [hpeek]
      dsimp only
      rw [hparse]
      rfl

/-- Without tokens there is no program. -/
theorem read_of_no_tokens (h : (lex source).tokens = []) :
    read source = .error (match (lex source).failure with
      | some (reason, line) => Stream.readError reason line
      | none => Stream.readError .emptyProgram 1) := by
  rw [read.eq_def]
  generalize lex source = l at h ⊢
  obtain ⟨tokens, failure⟩ := l
  obtain rfl : tokens = [] := h
  cases failure <;> rfl

theorem finish_eq_ok {s : Stream} {m : Node} :
    s.finish n = .ok m ↔ n = m ∧ s.peek.1 = .ok none := by
  rw [Stream.finish]
  rcases s.peek with ⟨f | found, left⟩
  · simp
  · cases found <;> simp

/-- A program is read when one expression is and nothing is left. -/
theorem read_eq_ok_iff_parseFrom :
    read source = .ok n ↔
      ∃ s, Stream.parseFrom (lex source).failure 1 [] (lex source).tokens = (.ok n, s) ∧
        s.peek.1 = .ok none := by
  by_cases hne : (lex source).tokens = []
  · -- Without tokens there is no expression, on either side.
    rw [read_of_no_tokens hne, hne, Stream.parseFrom.eq_def]
    dsimp only
    cases Stream.failAtEnd ⟨[], [], (lex source).failure, 1⟩ <;> simp
  · rw [read_of_tokens hne]
    rcases Stream.parseFrom (lex source).failure 1 [] (lex source).tokens with ⟨f | m, s⟩
    · simp
    · simp only [finish_eq_ok, Prod.mk.injEq, Except.ok.injEq]
      exact ⟨fun ⟨hm, hend⟩ => ⟨s, ⟨hm, rfl⟩, hend⟩, fun ⟨_, ⟨hm, hs⟩, hend⟩ => ⟨hm, hs ▸ hend⟩⟩

theorem Stream.rest_of_peek {s : Stream} (hbuffered : s.buffered = [])
    (h : s.peek.1 = .ok none) : s.rest = [] := by
  obtain ⟨buffered, rest, failure, line⟩ := s
  obtain rfl : buffered = [] := hbuffered
  cases rest with
  | nil => rfl
  | cons t rest => cases h

/-- A program without parts is a single token. -/
theorem exists_spells_of_read (h : read source = .ok n) (hleaf : n.pieces = [.leaf n]) :
    ∃ t : Token, t.Spells (.leaf n) := by
  obtain ⟨s, hparse, -⟩ := read_eq_ok_iff_parseFrom.1 h
  have hstart : Spelled [] (Stream.openPieces []) := .nil
  obtain ⟨used, -, -, -, hspelled⟩ := Stream.spelled_of_parseFrom hstart hparse
  rw [Node.SpelledBy, hleaf] at hspelled
  obtain ⟨t, -, ht⟩ := of_spelled_singleton hspelled
  exact ⟨t, ht⟩

/-- What is read is exactly what all of the tokens spell, when the source can be cut into tokens. -/
theorem read_eq_ok_iff_spelledBy (hlex : (lex source).failure = none) :
    read source = .ok n ↔ n.SpelledBy (lex source).tokens := by
  rw [read_eq_ok_iff_parseFrom, hlex]
  constructor
  · rintro ⟨s, hparse, hpeek⟩
    have hstart : Spelled [] (Stream.openPieces []) := .nil
    obtain ⟨used, htokens, hbuffered, -, hspelled⟩ := Stream.spelled_of_parseFrom hstart hparse
    have hrest : s.rest = [] := Stream.rest_of_peek hbuffered hpeek
    rw [htokens, hrest, List.append_nil]
    exact hspelled
  · intro hspelled
    have hparse := Stream.parseFrom_node none hspelled 1 [] []
    rw [List.append_nil] at hparse
    exact ⟨_, hparse, rfl⟩

end

/-- A source that can be cut into tokens, none of them an integer that is too long to be read, is
read just when the tokens are a sentence. What is read is then spelled by the tokens, each of them
one piece of it and in the same order, and nothing else is. -/
theorem read_accepts_sentences {source : String} (hlex : (lex source).failure = none)
    (hshort : ∀ t ∈ (lex source).tokens, t.IsShort) :
    ((∃ n, read source = .ok n) ↔ Sentence ((lex source).tokens.map (·.kind))) ∧
      ∀ n, read source = .ok n →
        n.SpelledBy (lex source).tokens ∧ ∀ m : Node, m.SpelledBy (lex source).tokens → m = n := by
  refine ⟨⟨?_, ?_⟩, ?_⟩
  · rintro ⟨n, hn⟩
    have hspelled : n.SpelledBy (lex source).tokens := (read_eq_ok_iff_spelledBy hlex).1 hn
    exact hspelled.sentence
  · intro hsentence
    obtain ⟨n, hspelled⟩ := hsentence.exists_node _ rfl hshort
    exact ⟨n, (read_eq_ok_iff_spelledBy hlex).2 hspelled⟩
  · intro n hn
    refine ⟨(read_eq_ok_iff_spelledBy hlex).1 hn, fun m hm => ?_⟩
    have hread : read source = .ok m := (read_eq_ok_iff_spelledBy hlex).2 hm
    rw [hn] at hread
    exact (Except.ok.inj hread).symm

/-- A form with an empty list, a text and a number on a second line. -/
theorem read_accepts_sentences_nested :
    let source := "(f []\n \"a\" -7)"
    let kinds : List TokenKind :=
      [.opening .round, .atom, .opening .square, .closing .square, .text, .atom, .closing .round]
    let n : Node := .form .fixed [.symbol 1 "f", .list [], .text 2 "a", .number 2 (.int (-7))]
    (lex source).failure = none ∧ (∀ t ∈ (lex source).tokens, t.IsShort) ∧
      (lex source).tokens.map (·.kind) = kinds ∧ Sentence kinds ∧ read source = .ok n ∧
      n.SpelledBy (lex source).tokens ∧ ∀ m : Node, m.SpelledBy (lex source).tokens → m = n := by
  intro source kinds n
  have htokens : lex source = ⟨[⟨.opening .round, "(", 1⟩, ⟨.atom, "f", 1⟩,
      ⟨.opening .square, "[", 1⟩, ⟨.closing .square, "]", 1⟩, ⟨.text, "\"a\"", 2⟩, ⟨.atom, "-7", 2⟩,
      ⟨.closing .round, ")", 2⟩], none⟩ := by
    unfold source
    cbv
  have hshort : ∀ t ∈ (lex source).tokens, t.IsShort := by
    have hdigits : ∀ t ∈ (lex source).tokens, ∀ p ∈ signedDigits? t.text.toList,
        p.2.length ≤ digitLimit := by
      rw [htokens]
      decide
    exact fun t ht _ negative digits h => hdigits t ht (negative, digits) h
  have hread : read source = .ok n := by
    unfold source n
    cbv
  have hlex : (lex source).failure = none := by rw [htokens]
  have hkinds : (lex source).tokens.map (·.kind) = kinds := by
    rw [htokens]
    rfl
  obtain ⟨haccepts, hunique⟩ := read_accepts_sentences hlex hshort
  have hsentence : Sentence kinds := hkinds ▸ haccepts.1 ⟨n, hread⟩
  obtain ⟨hspelled, honly⟩ := hunique n hread
  exact ⟨hlex, hshort, hkinds, hsentence, hread, hspelled, honly⟩

end FormLang
