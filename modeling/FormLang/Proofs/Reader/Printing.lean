import FormLang.Layout
import FormLang.Proofs.Reader.Rendering

set_option autoImplicit false

/-! # Reading what was printed

Code is printed in two ways: as source text, with one space between two parts, and in a layout that
puts the parts of a form on lines of their own where the line would be too long. Which lines are too
long depends on the layouts of the parts, but the reader does not care: all that is needed of a layout
is that it renders the code (`Node.layout_renders`), and the same holds of source text without texts
(`Node.shown_renders`).
-/

namespace FormLang

/-! ## Code that can be read back -/

/-- Is the node a leaf that is read back from what is printed for it? -/
def Node.PrintableLeaf : Node → Prop
  | .symbol _ name => IsWord name
  | .number _ (.int k) => (Numeral.int k).writable = true
  | .text _ s => '"' ∉ s.toList ∧ '\\' ∉ s.toList
  | _ => False

/-- Is the node made of forms, literal lists and leaves that are read back? -/
def Node.Printable (n : Node) : Prop := ∀ m, Piece.leaf m ∈ n.pieces → m.PrintableLeaf

/-- Is there a text in the node? -/
def Node.HasText (n : Node) : Prop := ∃ line s, Piece.leaf (.text line s) ∈ n.pieces

mutual
/-- How deep the deepest parts of a node are in it. -/
def Node.height : Node → Nat
  | .list elements => Node.heightOfAll elements
  | .form _ items => Node.heightOfAll items
  | _ => 0

/-- How deep the deepest parts of some nodes are in the node that has them as its parts. -/
def Node.heightOfAll : List Node → Nat
  | [] => 0
  | n :: rest => max (n.height + 1) (Node.heightOfAll rest)
end

section

variable {n : Node} {ns : List Node} {style : FormStyle}

theorem Node.height_lt_of_mem (h : n ∈ ns) : n.height < Node.heightOfAll ns := by
  induction ns with
  | nil => cases h
  | cons m ns ih =>
      rw [Node.heightOfAll]
      rcases List.mem_cons.1 h with rfl | h
      · omega
      · have := ih h
        omega

theorem Node.mem_piecesOfAll_iff {p : Piece} :
    p ∈ Node.piecesOfAll ns ↔ ∃ n ∈ ns, p ∈ n.pieces := by
  induction ns with
  | nil => simp [Node.piecesOfAll]
  | cons m ns ih => simp [Node.piecesOfAll, ih]

theorem Bracket.leaf_mem_wrap_iff (b : Bracket) {m : Node} :
    Piece.leaf m ∈ (b.wrap ns).pieces ↔ ∃ n ∈ ns, Piece.leaf m ∈ n.pieces := by
  simp [b.pieces_wrap, Node.mem_piecesOfAll_iff]

theorem Bracket.printable_wrap_iff (b : Bracket) :
    (b.wrap ns).Printable ↔ ∀ n ∈ ns, n.Printable :=
  ⟨fun h n hn m hm => h m (b.leaf_mem_wrap_iff.2 ⟨n, hn, hm⟩), fun h m hm =>
    let ⟨n, hn, hmem⟩ := b.leaf_mem_wrap_iff.1 hm
    h n hn m hmem⟩

theorem Bracket.not_hasText_of_mem (b : Bracket) (h : ¬(b.wrap ns).HasText) (hn : n ∈ ns) :
    ¬n.HasText := by
  rintro ⟨line, s, hs⟩
  exact h ⟨line, s, b.leaf_mem_wrap_iff.2 ⟨n, hn, hs⟩⟩

theorem Node.printable_leaf_iff (h : n.pieces = [.leaf n]) : n.Printable ↔ n.PrintableLeaf := by
  simp [Node.Printable, h]

/-- A growable form is not what the reader builds. -/
theorem Node.not_printable_growable : ¬(Node.form .growable ns).Printable :=
  fun h => h _ (List.mem_singleton.2 rfl)

theorem Node.not_printable_foreign {v : Value} : ¬(Node.foreign v).Printable :=
  fun h => h _ (List.mem_singleton.2 rfl)

theorem Node.not_printable_float {line : Int} {x : Binary64} :
    ¬(Node.number line (.float x)).Printable :=
  fun h => h _ (List.mem_singleton.2 rfl)

theorem Node.not_printable_truth {line : Int} {b : Bool} : ¬(Node.truth line b).Printable :=
  fun h => h _ (List.mem_singleton.2 rfl)

end

/-! ## Parts between brackets -/

section

variable {gap : String} {parts : List String} {ns : List Node}

/-- Parts between brackets, with blanks or line ends between them, render the parts and the
brackets. -/
theorem renders_between (b : Bracket) (hne : gap.toList ≠ [])
    (hgap : ∀ c ∈ gap.toList, isSeparator c = true ∨ c = '\n')
    (h : List.Forall₂ (fun part (n : Node) => Renders part.toList n.pieces) parts ns) :
    Renders (b.left :: ((gap.intercalate parts).toList ++ [b.right]))
      (.opening b :: (Node.piecesOfAll ns ++ [.closing b])) := by
  have hparts : List.Forall₂ (fun text (n : Node) => Renders text n.pieces)
      (parts.map String.toList) ns := List.forall₂_map_left_iff.2 h
  rw [String.toList_intercalate]
  exact (renders_intercalate hne hgap hparts).bracketed b

theorem blank_space : ∀ c ∈ " ".toList, isSeparator c = true ∨ c = '\n' := fun c hc => by
  obtain rfl : c = ' ' := by simpa using hc
  exact .inl (by decide)

theorem renders_spaced_list
    (h : List.Forall₂ (fun part (n : Node) => Renders part.toList n.pieces) parts ns) :
    Renders (Node.spaced "[" parts "]").toList (Node.list ns).pieces := by
  rw [Node.spaced, String.toList_append, String.toList_append, Node.pieces, List.append_assoc]
  exact renders_between .square (by decide) blank_space h

theorem renders_spaced_form
    (h : List.Forall₂ (fun part (n : Node) => Renders part.toList n.pieces) parts ns) :
    Renders (Node.spaced "(" parts ")").toList (Node.form .fixed ns).pieces := by
  rw [Node.spaced, String.toList_append, String.toList_append, Node.pieces, List.append_assoc]
  exact renders_between .round (by decide) blank_space h

/-- A form is rendered on one line or with each parameter on a line of its own. -/
theorem renders_arrange (o : LayoutOptions) (indent : Int)
    (h : List.Forall₂ (fun part (n : Node) => Renders part.toList n.pieces) parts ns) :
    Renders (o.arrange indent parts).toList (Node.form .fixed ns).pieces := by
  rw [LayoutOptions.arrange]
  split
  · exact renders_spaced_form h
  · have hgap : ("\n" ++ indentation (indent + 1)).toList =
        '\n' :: List.replicate (2 * (indent + 1)).toNat ' ' := by
      rw [String.toList_append, indentation, String.toList_ofList, String.toList_ofList]
      rfl
    rw [String.toList_append, String.toList_append, Node.pieces, List.append_assoc]
    refine renders_between .round (by rw [hgap]; simp) (fun c hc => ?_) h
    rw [hgap] at hc
    rcases List.mem_cons.1 hc with rfl | hc
    · exact .inr rfl
    · rw [List.eq_of_mem_replicate hc]
      exact .inl (by decide)

end

/-! ## Layouts -/

section

variable {o : LayoutOptions}

mutual
/-- Without colours, and if nothing lies too deep, the layout of code renders it. -/
theorem Node.layout_renders (hcolour : o.colour = false) : ∀ (n : Node) (indent depth : Int),
    n.Printable → depth + n.height < o.maxDepth →
      ∃ text, n.layout o indent depth = .ok text ∧ Renders text.toList n.pieces
  | .symbol line name, indent, depth, hn, hdepth => by
      have hword : IsWord name := hn _ (List.mem_singleton.2 rfl)
      refine ⟨name, ?_, renders_symbol hword line⟩
      rw [Node.layout, if_neg (by omega), LayoutOptions.paint, hcolour]
      rfl
  | .number line (.int k), indent, depth, hn, hdepth => by
      have hk : (Numeral.int k).writable = true := hn _ (List.mem_singleton.2 rfl)
      refine ⟨toString k, ?_, renders_int hk line⟩
      rw [Node.layout, if_neg (by omega), Value.written, Value.writable, if_pos hk]
      dsimp only [Bind.bind, Except.bind, Pure.pure, Except.pure]
      rw [LayoutOptions.paint, hcolour]
      rfl
  | .number _ (.float _), _, _, hn, _ => absurd hn Node.not_printable_float
  | .truth _ _, _, _, hn, _ => absurd hn Node.not_printable_truth
  | .text line s, indent, depth, hn, hdepth => by
      obtain ⟨hquote, hbackslash⟩ := hn (.text line s) (List.mem_singleton.2 rfl)
      refine ⟨"\"" ++ s ++ "\"", ?_, ?_⟩
      · rw [Node.layout, if_neg (by omega), LayoutOptions.paint, hcolour]
        rfl
      · rw [String.toList_append, String.toList_append, List.append_assoc]
        exact renders_text hquote hbackslash line
  | .list elements, indent, depth, hn, hdepth => by
      rw [Node.height] at hdepth
      obtain ⟨texts, htexts, hrenders⟩ := Node.layoutFrom_renders hcolour elements (indent + 1)
        (depth + 1) [] (Bracket.square.printable_wrap_iff.1 hn) (fun m hm => by
          have := Node.height_lt_of_mem hm
          omega)
      refine ⟨Node.spaced "[" texts "]", ?_, renders_spaced_list hrenders⟩
      rw [Node.layout, if_neg (by omega), htexts]
      rfl
  | .form .fixed [], indent, depth, _, hdepth => by
      have hempty : Renders (Node.spaced "(" [] ")").toList (Node.form .fixed []).pieces :=
        renders_spaced_form .nil
      refine ⟨"()", ?_, hempty⟩
      rw [Node.layout, if_neg (by omega)]
  | .form .fixed (first :: rest), indent, depth, hn, hdepth => by
      rw [Node.height] at hdepth
      obtain ⟨texts, htexts, hrenders⟩ := Node.layoutFrom_renders hcolour (first :: rest)
        (indent + 1) (depth + 1) [] (Bracket.round.printable_wrap_iff.1 hn) (fun m hm => by
          have := Node.height_lt_of_mem hm
          omega)
      refine ⟨o.arrange indent texts, ?_, renders_arrange o indent hrenders⟩
      rw [Node.layout, if_neg (by omega), htexts]
      · rfl
      · simp
  | .form .growable _, _, _, hn, _ => absurd hn Node.not_printable_growable
  | .foreign _, _, _, hn, _ => absurd hn Node.not_printable_foreign

theorem Node.layoutFrom_renders (hcolour : o.colour = false) :
    ∀ (ns : List Node) (indent depth : Int) (done : List String), (∀ n ∈ ns, n.Printable) →
      (∀ n ∈ ns, depth + n.height < o.maxDepth) →
        ∃ texts, Node.layoutFrom o indent depth done ns = .ok (done.reverse ++ texts) ∧
          List.Forall₂ (fun text (n : Node) => Renders text.toList n.pieces) texts ns
  | [], _, _, done, _, _ => ⟨[], by rw [Node.layoutFrom, List.append_nil], .nil⟩
  | n :: rest, indent, depth, done, hns, hdepth => by
      obtain ⟨text, htext, hrenders⟩ := Node.layout_renders hcolour n indent depth
        (hns n List.mem_cons_self) (hdepth n List.mem_cons_self)
      obtain ⟨texts, htexts, hmore⟩ := Node.layoutFrom_renders hcolour rest indent depth
        (text :: done) (fun m hm => hns m (List.mem_cons_of_mem _ hm))
        (fun m hm => hdepth m (List.mem_cons_of_mem _ hm))
      refine ⟨text :: texts, ?_, .cons hrenders hmore⟩
      rw [Node.layoutFrom, htext]
      dsimp only [Bind.bind, Except.bind]
      rw [htexts, List.reverse_cons, List.append_assoc]
      rfl
end

end

/-! ## Source text -/

section

variable {cs : List Char}

theorem lineEnd_not_mem_atom (h : TokenKind.atom.Writes cs) : '\n' ∉ cs := fun hmem =>
  absurd (h.2 _ hmem) (by decide)

theorem lineEnd_not_mem_intercalate {gap : List Char} {texts : List (List Char)}
    (hgap : '\n' ∉ gap) (h : ∀ text ∈ texts, '\n' ∉ text) : '\n' ∉ gap.intercalate texts := by
  induction texts with
  | nil => simp
  | cons text texts ih =>
      cases texts with
      | nil => simpa [List.intercalate_singleton] using h
      | cons next texts =>
          rw [List.intercalate_cons_cons, List.mem_append, List.mem_append, not_or, not_or]
          exact ⟨⟨h text List.mem_cons_self, hgap⟩,
            ih fun text' htext' => h text' (List.mem_cons_of_mem _ htext')⟩

theorem lineEnd_not_mem_spaced {opening closing : String} {parts : List String}
    (hopening : '\n' ∉ opening.toList) (hclosing : '\n' ∉ closing.toList)
    (h : ∀ part ∈ parts, '\n' ∉ part.toList) :
    '\n' ∉ (Node.spaced opening parts closing).toList := by
  rw [Node.spaced, String.toList_append, String.toList_append, String.toList_intercalate,
    List.mem_append, List.mem_append, not_or, not_or]
  refine ⟨⟨hopening, lineEnd_not_mem_intercalate (by decide) fun text htext => ?_⟩, hclosing⟩
  obtain ⟨part, hpart, rfl⟩ := List.mem_map.1 htext
  exact h part hpart

end

mutual
/-- The source text of code without texts renders it, on one line. -/
theorem Node.shown_renders : ∀ n : Node, n.Printable → ¬n.HasText →
    Renders n.shown.toList n.pieces ∧ '\n' ∉ n.shown.toList
  | .symbol line name, hn, _ => by
      have hword : IsWord name := hn _ (List.mem_singleton.2 rfl)
      exact ⟨renders_symbol hword line, lineEnd_not_mem_atom hword.1⟩
  | .number line (.int k), hn, _ => by
      have hk : (Numeral.int k).writable = true := hn _ (List.mem_singleton.2 rfl)
      exact ⟨renders_int hk line, lineEnd_not_mem_atom (writes_int k)⟩
  | .number _ (.float _), hn, _ => absurd hn Node.not_printable_float
  | .truth _ _, hn, _ => absurd hn Node.not_printable_truth
  | .text line s, _, htext => absurd ⟨line, s, List.mem_singleton.2 rfl⟩ htext
  | .list elements, hn, htext => by
      obtain ⟨hrenders, hline⟩ := Node.shownAll_renders elements
        (Bracket.square.printable_wrap_iff.1 hn)
        (fun m hm => Bracket.square.not_hasText_of_mem htext hm)
      rw [Node.shown]
      exact ⟨renders_spaced_list hrenders,
        lineEnd_not_mem_spaced (by decide) (by decide) hline⟩
  | .form .fixed items, hn, htext => by
      obtain ⟨hrenders, hline⟩ := Node.shownAll_renders items
        (Bracket.round.printable_wrap_iff.1 hn)
        (fun m hm => Bracket.round.not_hasText_of_mem htext hm)
      rw [Node.shown]
      exact ⟨renders_spaced_form hrenders,
        lineEnd_not_mem_spaced (by decide) (by decide) hline⟩
  | .form .growable _, hn, _ => absurd hn Node.not_printable_growable
  | .foreign _, hn, _ => absurd hn Node.not_printable_foreign

theorem Node.shownAll_renders : ∀ ns : List Node, (∀ n ∈ ns, n.Printable) →
    (∀ n ∈ ns, ¬n.HasText) →
      List.Forall₂ (fun part (n : Node) => Renders part.toList n.pieces) (Node.shownAll ns) ns ∧
        ∀ part ∈ Node.shownAll ns, '\n' ∉ part.toList
  | [], _, _ => ⟨.nil, by simp [Node.shownAll]⟩
  | n :: rest, hns, htexts => by
      obtain ⟨hn, hline⟩ := Node.shown_renders n (hns n List.mem_cons_self)
        (htexts n List.mem_cons_self)
      obtain ⟨hrest, hlines⟩ := Node.shownAll_renders rest
        (fun m hm => hns m (List.mem_cons_of_mem _ hm))
        (fun m hm => htexts m (List.mem_cons_of_mem _ hm))
      rw [Node.shownAll]
      exact ⟨.cons hn hrest, List.forall_mem_cons.2 ⟨hline, hlines⟩⟩
end

/-! ## Read back -/

/-- Printed code is read back. From any layout without colours that leaves nothing out, the same tree
is read, up to the lines of its leaves; from source text without texts, the same tree on line 1. -/
theorem read_printed {n : Node} (hn : n.Printable) :
    (∀ (o : LayoutOptions) (indent depth : Int), o.colour = false →
      depth + n.height < o.maxDepth →
        ∃ text m, n.layout o indent depth = .ok text ∧ read text = .ok m ∧
          m.onLine 1 = n.onLine 1) ∧
    (¬n.HasText → read n.shown = .ok (n.onLine 1)) := by
  refine ⟨fun o indent depth hcolour hdepth => ?_, fun htext => ?_⟩
  · obtain ⟨text, htext, hrenders⟩ := n.layout_renders hcolour indent depth hn hdepth
    obtain ⟨m, hm, hlines⟩ := read_of_renders hrenders
    exact ⟨text, m, htext, hm, hlines⟩
  · obtain ⟨hrenders, hline⟩ := n.shown_renders hn htext
    exact read_of_renders_line hrenders hline

/-- Integers in a list. Then an inner form and a text that has a bracket and ends a line; on lines of
18 characters both forms are broken up. -/
theorem read_printed_broken_up :
    let numbers : Node := .list [.number 1 (.int 1), .number 1 (.int (-20))]
    let code : Node := .form .fixed [.symbol 1 "def", numbers,
      .form .fixed [.symbol 1 "sum", .text 1 "a)\n;b", .symbol 3 "wide"]]
    let text := "(def\n    [1 -20]\n    (sum\n      \"a)\n;b\"\n      wide))"
    read numbers.shown = .ok (numbers.onLine 1) ∧
      code.layout ⟨false, 3, 18⟩ 1 0 = .ok text ∧
      ∃ m, read text = .ok m ∧ m.onLine 1 = code.onLine 1 := by
  intro numbers code text
  have hword : ∀ name ∈ ["def", "sum", "wide"], ∀ line, (Node.symbol line name).Printable := by
    intro name hname line
    have hatom : TokenKind.atom.Writes name.toList := by
      fin_cases hname <;> exact ⟨by decide, List.all_eq_true.1 (by decide)⟩
    refine (Node.printable_leaf_iff rfl).2 ⟨hatom, fun line' => ?_⟩
    fin_cases hname <;> rfl
  have hnumbers : numbers.Printable := by
    have hone : (Numeral.int 1).writable = true := by decide +kernel
    have hminus : (Numeral.int (-20)).writable = true := by decide +kernel
    refine Bracket.square.printable_wrap_iff.2 fun n hn => ?_
    fin_cases hn
    · exact (Node.printable_leaf_iff rfl).2 hone
    · exact (Node.printable_leaf_iff rfl).2 hminus
  have hcode : code.Printable := by
    have htext : (Node.text 1 "a)\n;b").Printable :=
      (Node.printable_leaf_iff rfl).2 ⟨by decide, by decide⟩
    refine Bracket.round.printable_wrap_iff.2 fun n hn => ?_
    fin_cases hn
    · exact hword "def" (by decide) 1
    · exact hnumbers
    · refine Bracket.round.printable_wrap_iff.2 fun n hn => ?_
      fin_cases hn
      · exact hword "sum" (by decide) 1
      · exact htext
      · exact hword "wide" (by decide) 3
  have hplain : ¬numbers.HasText := by
    rintro ⟨line, s, hs⟩
    simp [numbers, Node.pieces, Node.piecesOfAll] at hs
  have hlayout : code.layout ⟨false, 3, 18⟩ 1 0 = .ok text := by decide +kernel
  obtain ⟨text', m, htext', hread, hm⟩ := (read_printed hcode).1 ⟨false, 3, 18⟩ 1 0 rfl (by decide)
  obtain rfl : text = text' := Except.ok.inj (hlayout.symm.trans htext')
  exact ⟨(read_printed hnumbers).2 hplain, hlayout, m, hread, hm⟩

end FormLang
