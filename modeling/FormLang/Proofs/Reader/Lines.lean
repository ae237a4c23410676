import FormLang.Proofs.Compile.Quotes
import FormLang.Proofs.Reader.Cutting
import FormLang.Proofs.Reader.Parsing

set_option autoImplicit false

/-! # Lines of nodes

Leaves carry the lines of their tokens, and these are counted from one. The line of a node that was
read is therefore the line of its first leaf, and 0 only if it has none (`line_of_read`).
-/

namespace FormLang

mutual
/-- The lines of the leaves of a node, from left to right. -/
def Node.leafLines : Node → List Int
  | .symbol line _ => [line]
  | .number line _ => [line]
  | .truth line _ => [line]
  | .text line _ => [line]
  | .list elements => Node.leafLinesOfAll elements
  | .form _ items => Node.leafLinesOfAll items
  | .foreign _ => []

/-- The lines of the leaves of some nodes, from left to right. -/
def Node.leafLinesOfAll : List Node → List Int
  | [] => []
  | n :: rest => n.leafLines ++ Node.leafLinesOfAll rest
end

/-- The line of the first leaf of a node, or 0 if it has none. -/
def Node.firstLeafLine (n : Node) : Int := n.leafLines.headD 0

namespace Node

variable {n m : Node}

theorem leafLinesOfAll_eq_flatMap (ns : List Node) :
    leafLinesOfAll ns = ns.flatMap leafLines := by
  induction ns with
  | nil => rfl
  | cons n ns ih => simp [leafLinesOfAll, ih]

/-! ## Lines other than 0 -/

/-- The first line other than 0, else 0. -/
def firstLine (lines : List Int) : Int := (lines.find? (· != 0)).getD 0

theorem firstLine_singleton (l : Int) : firstLine [l] = l := by
  by_cases hl : l = 0 <;> simp [firstLine, hl]

theorem firstLine_append (ls ms : List Int) :
    firstLine (ls ++ ms) = if firstLine ls != 0 then firstLine ls else firstLine ms := by
  rw [firstLine, List.find?_append]
  cases h : ls.find? (· != 0) with
  | none => simp [firstLine, h]
  | some l =>
      have hl : l ≠ 0 := by simpa using List.find?_some h
      simp [firstLine, h, hl]

theorem firstLine_of_ne_zero {lines : List Int} (h : ∀ l ∈ lines, l ≠ 0) :
    firstLine lines = lines.headD 0 := by
  cases lines with
  | nil => rfl
  | cons l lines => simp [firstLine, h l (by simp)]

mutual
/-- The line of a node is the first line other than 0 that a leaf carries. -/
theorem line_eq_firstLine : ∀ n : Node, n.line = firstLine n.leafLines
  | .symbol l _ => (firstLine_singleton l).symm
  | .number l _ => (firstLine_singleton l).symm
  | .truth l _ => (firstLine_singleton l).symm
  | .text l _ => (firstLine_singleton l).symm
  | .list elements => lineOf_eq_firstLine elements
  | .form _ items => lineOf_eq_firstLine items
  | .foreign _ => rfl

theorem lineOf_eq_firstLine : ∀ ns : List Node, lineOf ns = firstLine (leafLinesOfAll ns)
  | [] => rfl
  | n :: rest => by
      rw [leafLinesOfAll, firstLine_append, ← line_eq_firstLine, ← lineOf_eq_firstLine]
      rfl
end

theorem Part.leafLines (h : n.Part m) : ∀ l ∈ m.leafLines, l ∈ n.leafLines := by
  induction h with
  | refl => exact fun l hl => hl
  | list hn _ ih =>
      intro l hl
      rw [Node.leafLines, leafLinesOfAll_eq_flatMap]
      exact List.mem_flatMap.2 ⟨_, hn, ih l hl⟩
  | form hn _ ih =>
      intro l hl
      rw [Node.leafLines, leafLinesOfAll_eq_flatMap]
      exact List.mem_flatMap.2 ⟨_, hn, ih l hl⟩

end Node

/-! ## Lines of tokens -/

section

variable {t : Token} {n m : Node} {source : String}

theorem leafLines_of_ofAtom {text : String} {line : Int} (h : Node.ofAtom text line = .ok n) :
    n.leafLines = [line] := by
  rw [Node.ofAtom.eq_def] at h
  split at h
  · next negative digits _ =>
    cases hread : readInteger negative digits with
    | ok k =>
        rw [hread] at h
        cases h
        rfl
    | error f =>
        rw [hread] at h
        cases h
  · split at h
    · cases h
      rfl
    · cases h
      rfl

theorem leafLines_of_spells (h : t.Spells (.leaf n)) : n.leafLines = [(t.line : Int)] := by
  rcases h with ⟨-, hatom⟩ | ⟨-, rfl⟩
  · exact leafLines_of_ofAtom hatom
  · rfl

theorem mem_leafLines_of_leaf {ts : List Token} (h : Spelled ts [.leaf n]) :
    ∀ l ∈ n.leafLines, ∃ t ∈ ts, l = t.line := by
  obtain ⟨t, rfl, ht⟩ := of_spelled_singleton h
  intro l hl
  rw [leafLines_of_spells ht] at hl
  exact ⟨t, List.mem_singleton_self t, List.mem_singleton.1 hl⟩

mutual
/-- The lines of a node are lines of the tokens that spell it. -/
theorem Node.SpelledBy.mem_leafLines : ∀ {n : Node} {ts : List Token}, n.SpelledBy ts →
    ∀ l ∈ n.leafLines, ∃ t ∈ ts, l = t.line
  | .list elements, _, h => by
      obtain ⟨opening, inside, closing, rfl, -, hinside, -⟩ := of_spelled_brackets h
      intro l hl
      obtain ⟨t, ht, rfl⟩ := mem_leafLinesOfAll_of_spelled hinside l hl
      exact ⟨t, by simp [ht], rfl⟩
  | .form .fixed items, _, h => by
      obtain ⟨opening, inside, closing, rfl, -, hinside, -⟩ := of_spelled_brackets h
      intro l hl
      obtain ⟨t, ht, rfl⟩ := mem_leafLinesOfAll_of_spelled hinside l hl
      exact ⟨t, by simp [ht], rfl⟩
  | .form .growable _, _, h => mem_leafLines_of_leaf h
  | .symbol _ _, _, h => mem_leafLines_of_leaf h
  | .number _ _, _, h => mem_leafLines_of_leaf h
  | .truth _ _, _, h => mem_leafLines_of_leaf h
  | .text _ _, _, h => mem_leafLines_of_leaf h
  | .foreign _, _, h => mem_leafLines_of_leaf h

theorem mem_leafLinesOfAll_of_spelled : ∀ {ns : List Node} {ts : List Token},
    Spelled ts (Node.piecesOfAll ns) → ∀ l ∈ Node.leafLinesOfAll ns, ∃ t ∈ ts, l = t.line
  | [], _, _ => fun l hl => by cases hl
  | n :: rest, _, h => by
      obtain ⟨us, vs, rfl, hn, hrest⟩ := of_spelled_append h
      have hfirst : n.SpelledBy us := hn
      intro l hl
      rcases List.mem_append.1 hl with hl | hl
      · obtain ⟨t, ht, rfl⟩ := hfirst.mem_leafLines l hl
        exact ⟨t, List.mem_append_left _ ht, rfl⟩
      · obtain ⟨t, ht, rfl⟩ := mem_leafLinesOfAll_of_spelled hrest l hl
        exact ⟨t, List.mem_append_right _ ht, rfl⟩
end

theorem Cut.line_pos {before cs : List Char} {l : Lexed} (h : Cut before cs l) :
    ∀ t ∈ l.tokens, 0 < t.line := by
  induction h with
  | finished => simp
  | stuck => simp
  | token _ ht _ ih =>
      intro u hu
      rcases List.mem_cons.1 hu with rfl | hu
      · rw [ht.line]
        omega
      · exact ih u hu

/-- Leaves that were read are on lines that are counted from one. -/
theorem leafLines_pos_of_read (h : read source = .ok n) : ∀ l ∈ n.leafLines, 0 < l := by
  obtain ⟨s, hparse, -⟩ := read_eq_ok_iff_parseFrom.1 h
  have hstart : Spelled [] (Stream.openPieces []) := .nil
  obtain ⟨used, htokens, -, -, hspelled⟩ := Stream.spelled_of_parseFrom hstart hparse
  have hused : n.SpelledBy used := hspelled
  intro l hl
  obtain ⟨t, ht, rfl⟩ := hused.mem_leafLines l hl
  have hpos : 0 < t.line := (cut_lex source).line_pos t (by simp [htokens, ht])
  omega

/-- The line of a node in a program that was read is the line of its first leaf. -/
theorem line_of_read (h : read source = .ok n) (hm : n.Part m) : m.line = m.firstLeafLine := by
  have hpos : ∀ l ∈ m.leafLines, l ≠ 0 := fun l hl => by
    have := leafLines_pos_of_read h l (hm.leafLines l hl)
    omega
  rw [Node.line_eq_firstLine, Node.firstLine_of_ne_zero hpos, Node.firstLeafLine]

end

end FormLang
