import FormLang.Token.Stream
import Mathlib.Data.List.Forall2

set_option autoImplicit false

/-! # The grammar of programs

An expression is an atom, a text, or some expressions between brackets that match. This is said
twice here: by the kinds of the tokens alone (`Sentence`), and by the tree that the tokens spell,
piece by piece (`Node.SpelledBy`). The two agree: tokens that spell a tree are a sentence
(`Node.SpelledBy.sentence`), and a sentence of tokens that can be read spells some tree
(`Sentence.exists_node`). Nothing is said of the reader yet.
-/

namespace FormLang

/-! ## Sentences -/

mutual
/-- The kinds of the tokens of one expression. -/
inductive Sentence : List TokenKind → Prop where
  | atom : Sentence [.atom]
  | text : Sentence [.text]
  | bracketed (b : Bracket) {kinds : List TokenKind} (h : Sentences kinds) :
      Sentence (.opening b :: (kinds ++ [.closing b]))

/-- The kinds of the tokens of some expressions in a row. -/
inductive Sentences : List TokenKind → Prop where
  | nil : Sentences []
  | cons {kinds more : List TokenKind} (h : Sentence kinds) (hmore : Sentences more) :
      Sentences (kinds ++ more)
end

/-! ## Trees and the tokens that spell them -/

/-- What one token says of a tree. -/
inductive Piece where
  | opening (b : Bracket)
  | closing (b : Bracket)
  | leaf (n : Node)

mutual
/-- A tree from left to right. What no reader builds counts as a leaf, which no token spells. -/
def Node.pieces : Node → List Piece
  | .list elements => .opening .square :: (Node.piecesOfAll elements ++ [.closing .square])
  | .form .fixed items => .opening .round :: (Node.piecesOfAll items ++ [.closing .round])
  | n => [.leaf n]

/-- Some trees from left to right. -/
def Node.piecesOfAll : List Node → List Piece
  | [] => []
  | n :: rest => n.pieces ++ Node.piecesOfAll rest
end

/-- Is the token this piece of a tree? An atom is the node that it is read as, and a text has its
escapes resolved. -/
def Token.Spells (t : Token) : Piece → Prop
  | .opening b => t.kind = .opening b
  | .closing b => t.kind = .closing b
  | .leaf n =>
    t.kind = .atom ∧ Node.ofAtom t.text t.line = .ok n ∨
      t.kind = .text ∧ n = .text t.line (unescape t.text)

/-- Do the tokens spell the pieces, one by one? -/
abbrev Spelled : List Token → List Piece → Prop := List.Forall₂ Token.Spells

/-- Do the tokens spell the tree, each of its pieces once and in order? -/
def Node.SpelledBy (n : Node) (ts : List Token) : Prop := Spelled ts n.pieces

/-- Is the token no integer of more digits than can be read? -/
def Token.IsShort (t : Token) : Prop :=
  t.kind = .atom → ∀ negative digits, signedDigits? t.text.toList = some (negative, digits) →
    digits.length ≤ digitLimit

theorem Node.piecesOfAll_append (ms ns : List Node) :
    piecesOfAll (ms ++ ns) = piecesOfAll ms ++ piecesOfAll ns := by
  induction ms with
  | nil => rfl
  | cons m ms ih => simp [piecesOfAll, ih]

section

variable {t : Token} {ts us : List Token} {p : Piece} {ps qs : List Piece} {b : Bracket} {n : Node}

theorem Spelled.append (h : Spelled ts ps) (h' : Spelled us qs) :
    Spelled (ts ++ us) (ps ++ qs) :=
  List.rel_append h h'

/-- Tokens that spell two rows of pieces fall into two parts. -/
theorem of_spelled_append (h : Spelled ts (ps ++ qs)) :
    ∃ us vs, ts = us ++ vs ∧ Spelled us ps ∧ Spelled vs qs := by
  refine ⟨ts.take ps.length, ts.drop ps.length, (List.take_append_drop _ _).symm, ?_, ?_⟩
  · exact List.forall₂_take_append ts ps qs h
  · exact List.forall₂_drop_append ts ps qs h

theorem spelled_singleton (h : t.Spells p) : Spelled [t] [p] := .cons h .nil

theorem of_spelled_singleton (h : Spelled ts [p]) : ∃ t, ts = [t] ∧ t.Spells p := by
  cases h with
  | cons ht hnil =>
      cases hnil
      exact ⟨_, rfl, ht⟩

/-- Tokens of something in brackets are the brackets and what stands between them. -/
theorem of_spelled_brackets (h : Spelled ts (.opening b :: (ps ++ [.closing b]))) :
    ∃ opening inside closing, ts = opening :: (inside ++ [closing]) ∧
      opening.kind = .opening b ∧ Spelled inside ps ∧ closing.kind = .closing b := by
  cases h with
  | cons hopening hrest =>
      obtain ⟨inside, last, rfl, hinside, hlast⟩ := of_spelled_append hrest
      obtain ⟨closing, rfl, hclosing⟩ := of_spelled_singleton hlast
      exact ⟨_, inside, closing, rfl, hopening, hinside, hclosing⟩

/-! ## Trees and sentences -/

theorem sentence_of_leaf (h : Spelled ts [.leaf n]) : Sentence (ts.map (·.kind)) := by
  obtain ⟨t, rfl, ht⟩ := of_spelled_singleton h
  rcases ht with ⟨hkind, -⟩ | ⟨hkind, -⟩
  · rw [List.map_singleton, hkind]
    exact .atom
  · rw [List.map_singleton, hkind]
    exact .text

theorem sentence_of_brackets (h : Spelled ts (.opening b :: (ps ++ [.closing b])))
    (hinside : ∀ us, Spelled us ps → Sentences (us.map (·.kind))) :
    Sentence (ts.map (·.kind)) := by
  obtain ⟨opening, inside, closing, rfl, hopening, hspelled, hclosing⟩ := of_spelled_brackets h
  have hkinds : (opening :: (inside ++ [closing])).map (·.kind) =
      .opening b :: (inside.map (·.kind) ++ [.closing b]) := by
    simp [hopening, hclosing]
  rw [hkinds]
  exact .bracketed b (hinside inside hspelled)

mutual
/-- Tokens that spell a tree are a sentence. -/
theorem Node.SpelledBy.sentence : ∀ {n : Node} {ts : List Token}, n.SpelledBy ts →
    Sentence (ts.map (·.kind))
  | .list elements, ts, h => by
      rw [Node.SpelledBy, Node.pieces] at h
      exact sentence_of_brackets h fun us hus => sentences_of_spelled hus
  | .form .fixed items, ts, h => by
      rw [Node.SpelledBy, Node.pieces] at h
      exact sentence_of_brackets h fun us hus => sentences_of_spelled hus
  | .form .growable items, ts, h => sentence_of_leaf h
  | .symbol line name, ts, h => sentence_of_leaf h
  | .number line k, ts, h => sentence_of_leaf h
  | .truth line b, ts, h => sentence_of_leaf h
  | .text line s, ts, h => sentence_of_leaf h
  | .foreign v, ts, h => sentence_of_leaf h

theorem sentences_of_spelled : ∀ {ns : List Node} {ts : List Token},
    Spelled ts (Node.piecesOfAll ns) → Sentences (ts.map (·.kind))
  | [], ts, h => by
      cases h
      exact .nil
  | n :: rest, ts, h => by
      rw [Node.piecesOfAll] at h
      obtain ⟨us, vs, rfl, hn, hrest⟩ := of_spelled_append h
      have hfirst : n.SpelledBy us := hn
      rw [List.map_append]
      exact .cons hfirst.sentence (sentences_of_spelled hrest)
end

/-- A short atom is read as some node. -/
theorem exists_ofAtom (hkind : t.kind = .atom) (h : t.IsShort) :
    ∃ n, Node.ofAtom t.text t.line = .ok n := by
  rw [Node.ofAtom.eq_def]
  split
  · next negative digits hdigits =>
    have hle : digits.length ≤ digitLimit := h hkind negative digits hdigits
    rw [readInteger, if_neg (by omega)]
    exact ⟨_, rfl⟩
  · split
    · exact ⟨_, rfl⟩
    · exact ⟨_, rfl⟩

/-- An atom is a number or a bare word, and so a leaf. -/
theorem pieces_of_ofAtom {text : String} {line : Int} (h : Node.ofAtom text line = .ok n) :
    n.pieces = [.leaf n] := by
  rw [Node.ofAtom.eq_def] at h
  split at h
  · next negative digits _ =>
    cases hread : readInteger negative digits with
    | ok k =>
        rw [hread] at h
        cases h
        rfl
    | error f =>
        rw [hread] at h
        cases h
  · split at h
    · cases h
      rfl
    · cases h
      rfl

theorem pieces_of_spells (h : t.Spells (.leaf n)) : n.pieces = [.leaf n] := by
  rcases h with ⟨-, hatom⟩ | ⟨-, rfl⟩
  · exact pieces_of_ofAtom hatom
  · rfl

theorem Token.Spells.spelledBy (h : t.Spells (.leaf n)) : n.SpelledBy [t] := by
  rw [Node.SpelledBy, pieces_of_spells h]
  exact spelled_singleton h

end

/-- Some nodes between brackets of a kind. -/
def Bracket.wrap : Bracket → List Node → Node
  | .round, ns => .form .fixed ns
  | .square, ns => .list ns

theorem Bracket.pieces_wrap (b : Bracket) (ns : List Node) :
    (b.wrap ns).pieces = .opening b :: (Node.piecesOfAll ns ++ [.closing b]) := by
  cases b <;> rfl

mutual
/-- A sentence of short tokens spells some tree. -/
theorem Sentence.exists_node : ∀ {kinds : List TokenKind}, Sentence kinds →
    ∀ ts : List Token, ts.map (·.kind) = kinds → (∀ t ∈ ts, t.IsShort) → ∃ n : Node, n.SpelledBy ts
  | _, .atom, ts, hkinds, hshort => by
      obtain ⟨t, rfl, hkind⟩ := List.map_eq_singleton_iff.1 hkinds
      obtain ⟨n, hn⟩ := exists_ofAtom hkind (hshort t (by simp))
      have hspells : t.Spells (.leaf n) := .inl ⟨hkind, hn⟩
      exact ⟨n, hspells.spelledBy⟩
  | _, .text, ts, hkinds, _ => by
      obtain ⟨t, rfl, hkind⟩ := List.map_eq_singleton_iff.1 hkinds
      have hspells : t.Spells (.leaf (.text t.line (unescape t.text))) := .inr ⟨hkind, rfl⟩
      exact ⟨_, hspells.spelledBy⟩
  | _, .bracketed b h, ts, hkinds, hshort => by
      obtain ⟨opening, behind, rfl, hopening, hbehind⟩ := List.map_eq_cons_iff.1 hkinds
      obtain ⟨inside, last, rfl, hinside, hlast⟩ := List.map_eq_append_iff.1 hbehind
      obtain ⟨closing, rfl, hclosing⟩ := List.map_eq_singleton_iff.1 hlast
      obtain ⟨ns, hns⟩ := h.exists_nodes inside hinside fun t ht => hshort t (by simp [ht])
      refine ⟨b.wrap ns, ?_⟩
      rw [Node.SpelledBy, b.pieces_wrap]
      exact .cons hopening (hns.append (spelled_singleton hclosing))

theorem Sentences.exists_nodes : ∀ {kinds : List TokenKind}, Sentences kinds →
    ∀ ts : List Token, ts.map (·.kind) = kinds → (∀ t ∈ ts, t.IsShort) →
      ∃ ns : List Node, Spelled ts (Node.piecesOfAll ns)
  | _, .nil, ts, hkinds, _ => by
      obtain rfl : ts = [] := by simpa using hkinds
      exact ⟨[], .nil⟩
  | _, .cons h hmore, ts, hkinds, hshort => by
      obtain ⟨us, vs, rfl, hus, hvs⟩ := List.map_eq_append_iff.1 hkinds
      obtain ⟨n, hn⟩ := h.exists_node us hus fun t ht => hshort t (by simp [ht])
      obtain ⟨ns, hns⟩ := hmore.exists_nodes vs hvs fun t ht => hshort t (by simp [ht])
      exact ⟨n :: ns, hn.append hns⟩
end

end FormLang
