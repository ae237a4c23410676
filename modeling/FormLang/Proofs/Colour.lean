import FormLang.Layout
import FormLang.Proofs.Reader.Integers
import Mathlib.Data.List.Forall2

set_option autoImplicit false

/-! # Colours take no room

In a layout with colours every coloured word stands between two escape sequences. When the code
itself has none of the characters that escape sequences start with, the sequences of a layout can be
told from everything else, and removing one kind of them after the other leaves what can be seen
(`Painted.stripColours`). So a line takes the same room with colours and without, it is broken in the
same places, and the layout without its colours is the layout that was made without any
(`stripColours_layout`).
-/

namespace FormLang

/-! ## Escape sequences -/

/-- The character that escape sequences start with. -/
def escapeStart : Char := '\x1b'

/-- Is the text an escape sequence? Only its first character may start one. -/
def IsEscapeSequence (code : List Char) : Prop :=
  ∃ body, code = escapeStart :: body ∧ escapeStart ∉ body

/-- Is neither of the two texts the beginning of the other? -/
def Diverge (code code' : List Char) : Prop := ¬code <+: code' ∧ ¬code' <+: code

/-- Is the first text what can be seen of it, the second text, with some escape sequences in between?
Nothing else in it may look like one. -/
inductive Painted (codes : List String) : List Char → List Char → Prop where
  | nil : Painted codes [] []
  | seen {c : Char} {text seen : List Char} (hc : c ≠ escapeStart)
      (h : Painted codes text seen) : Painted codes (c :: text) (c :: seen)
  | code {code : String} {text seen : List Char} (hcode : code ∈ codes)
      (h : Painted codes text seen) : Painted codes (code.toList ++ text) seen

namespace Painted

variable {codes : List String} {text text' seen seen' : List Char}

theorem append (h : Painted codes text seen) (h' : Painted codes text' seen') :
    Painted codes (text ++ text') (seen ++ seen') := by
  induction h with
  | nil => exact h'
  | seen hc _ ih => exact .seen hc ih
  | code hcode _ ih =>
      rw [List.append_assoc]
      exact .code hcode ih

/-- Text that no escape sequence starts in is seen as it is. -/
theorem of_plain (h : escapeStart ∉ text) : Painted codes text text := by
  induction text with
  | nil => exact .nil
  | cons c text ih =>
      rw [List.mem_cons, not_or] at h
      exact .seen (Ne.symm h.1) (ih h.2)

end Painted

/-! ## Removing one kind of escape sequence -/

section

variable {word code front behind : List Char} {c : Char}

/-- What stays in front has no influence on what is removed behind it. -/
theorem removeFrom_kept (word kept : List Char) (skip : Nat) (cs : List Char) :
    removeFrom word kept skip cs = kept.reverse ++ removeFrom word [] skip cs := by
  induction cs generalizing kept skip with
  | nil => simp [removeFrom]
  | cons c cs ih =>
      cases skip with
      | succ skip =>
          rw [removeFrom, removeFrom]
          exact ih kept skip
      | zero =>
          rw [removeFrom, removeFrom]
          split
          · exact ih kept _
          · rw [ih (c :: kept), ih [c]]
            simp

/-- The characters that are to be passed are passed. -/
theorem removeFrom_skip (word front behind : List Char) :
    removeFrom word [] front.length (front ++ behind) = removeFrom word [] 0 behind := by
  induction front with
  | nil => rfl
  | cons c front ih =>
      rw [List.length_cons, List.cons_append, removeFrom]
      exact ih

theorem removeFrom_word (h : IsEscapeSequence word) (behind : List Char) :
    removeFrom word [] 0 (word ++ behind) = removeFrom word [] 0 behind := by
  obtain ⟨body, rfl, -⟩ := h
  rw [List.cons_append, removeFrom, if_pos (by simp)]
  exact removeFrom_skip _ body behind

/-- A character stays when the word does not start with it. -/
theorem removeFrom_cons (h : ¬word <+: c :: behind) :
    removeFrom word [] 0 (c :: behind) = c :: removeFrom word [] 0 behind := by
  rw [removeFrom, if_neg (by simpa using h), removeFrom_kept]
  rfl

theorem removeFrom_seen (h : IsEscapeSequence word) (hc : c ≠ escapeStart) (behind : List Char) :
    removeFrom word [] 0 (c :: behind) = c :: removeFrom word [] 0 behind := by
  obtain ⟨body, rfl, -⟩ := h
  refine removeFrom_cons fun hprefix => ?_
  exact hc (List.cons_prefix_cons.1 hprefix).1.symm

theorem removeFrom_plain (h : IsEscapeSequence word) (hfront : escapeStart ∉ front)
    (behind : List Char) :
    removeFrom word [] 0 (front ++ behind) = front ++ removeFrom word [] 0 behind := by
  induction front with
  | nil => rfl
  | cons c front ih =>
      rw [List.mem_cons, not_or] at hfront
      rw [List.cons_append, removeFrom_seen h (Ne.symm hfront.1), ih hfront.2, List.cons_append]

/-- Another escape sequence stays as it is. -/
theorem removeFrom_code (hword : IsEscapeSequence word) (hcode : IsEscapeSequence code)
    (hdiverge : Diverge word code) (behind : List Char) :
    removeFrom word [] 0 (code ++ behind) = code ++ removeFrom word [] 0 behind := by
  have hnone : ¬word <+: code ++ behind := by
    intro h
    rcases List.prefix_or_prefix_of_prefix h (List.prefix_append code behind) with h | h
    · exact hdiverge.1 h
    · exact hdiverge.2 h
  obtain ⟨body, rfl, hbody⟩ := hcode
  rw [List.cons_append] at hnone ⊢
  rw [removeFrom_cons hnone, removeFrom_plain hword hbody, List.cons_append]

/-- Removing one of the escape sequences leaves the others, and what can be seen. -/
theorem Painted.remove {word : String} {codes : List String} {text seen : List Char}
    (h : Painted (word :: codes) text seen) (hword : IsEscapeSequence word.toList)
    (hcodes : ∀ code ∈ codes, IsEscapeSequence code.toList)
    (hdiverge : ∀ code ∈ codes, Diverge word.toList code.toList) :
    Painted codes (removeFrom word.toList [] 0 text) seen := by
  induction h with
  | nil => exact .nil
  | seen hc _ ih =>
      rw [removeFrom_seen hword hc]
      exact .seen hc ih
  | code hcode _ ih =>
      rcases List.mem_cons.1 hcode with rfl | hcode
      · rw [removeFrom_word hword]
        exact ih
      · rw [removeFrom_code hword (hcodes _ hcode) (hdiverge _ hcode)]
        exact .code hcode ih

end

/-! ## Removing all of them -/

theorem Painted.eq_of_nil {text seen : List Char} (h : Painted [] text seen) : text = seen := by
  induction h with
  | nil => rfl
  | seen _ _ ih => rw [ih]
  | code hcode => cases hcode

/-- Removing escape sequences one after the other leaves what can be seen. -/
theorem Painted.foldl {codes : List String} {text seen : List Char} (h : Painted codes text seen)
    (hcodes : ∀ code ∈ codes, IsEscapeSequence code.toList)
    (hdiverge : codes.Pairwise fun code code' => Diverge code.toList code'.toList) :
    codes.foldl (fun text code => removeFrom code.toList [] 0 text) text = seen := by
  induction codes generalizing text with
  | nil => exact h.eq_of_nil
  | cons word codes ih =>
      rw [List.forall_mem_cons] at hcodes
      rw [List.pairwise_cons] at hdiverge
      rw [List.foldl_cons]
      exact ih (h.remove hcodes.1 hcodes.2 hdiverge.1) hcodes.2 hdiverge.2

/-- The escape sequences in layouts of code. -/
def layoutCodes : List String :=
  plainCode :: [Colour.symbol, .number, .text, .reserved].map Colour.code

theorem isEscapeSequence_layoutCodes : ∀ code ∈ layoutCodes, IsEscapeSequence code.toList := by
  have htail : ∀ code ∈ layoutCodes,
      code.toList.head? = some escapeStart ∧ escapeStart ∉ code.toList.tail := by decide
  intro code hcode
  obtain ⟨hhead, hbody⟩ := htail code hcode
  obtain ⟨body, hcons⟩ := List.head?_eq_some_iff.1 hhead
  rw [hcons] at hbody ⊢
  exact ⟨body, rfl, hbody⟩

theorem pairwise_diverge_layoutCodes :
    layoutCodes.Pairwise fun code code' => Diverge code.toList code'.toList := by
  unfold Diverge
  decide

/-- Without its colours, a text is what can be seen of it. -/
theorem Painted.stripColours {text seen : List Char} (h : Painted layoutCodes text seen) :
    stripColours text = seen :=
  h.foldl isEscapeSequence_layoutCodes pairwise_diverge_layoutCodes

/-! ## Texts without escape sequences -/

/-- Does no escape sequence start in the text? -/
def Unescaped (s : String) : Prop := escapeStart ∉ s.toList

instance (s : String) : Decidable (Unescaped s) :=
  inferInstanceAs (Decidable (escapeStart ∉ s.toList))

namespace Unescaped

variable {s t : String} {cs : List Char}

theorem append (hs : Unescaped s) (ht : Unescaped t) : Unescaped (s ++ t) := by
  rw [Unescaped, String.toList_append, List.mem_append, not_or]
  exact ⟨hs, ht⟩

theorem ofList (h : escapeStart ∉ cs) : Unescaped (String.ofList cs) := by
  rwa [Unescaped, String.toList_ofList]

theorem replicate (n : Nat) {c : Char} (hc : c ≠ escapeStart) :
    Unescaped (String.ofList (List.replicate n c)) :=
  ofList fun h => hc (List.eq_of_mem_replicate h).symm

theorem repr (n : Nat) : Unescaped (Nat.repr n) := by
  intro h
  rw [Nat.toList_repr] at h
  exact absurd (isDigit_toDigits n _ h) (by decide)

end Unescaped

/-! ## Texts of numbers -/

section

variable {d : Digits}

theorem escapeStart_not_mem_shortest (a : Magnitude) : escapeStart ∉ a.shortest.digits := by
  have hdigits : ∀ n : Nat,
      escapeStart ∉ ((Nat.repr n).toList.reverse.dropWhile (· == '0')).reverse := by
    intro n h
    -- Without the zeros at its end
    have h := (List.dropWhile_sublist _).subset (List.mem_reverse.1 h)
    exact Unescaped.repr n (List.mem_reverse.1 h)
  unfold Magnitude.shortest
  dsimp only
  generalize (List.range 17).findSome? _ = found
  match found with
  | some (n, _) => exact hdigits n
  | none =>
      show escapeStart ∉ ['0']
      decide

theorem unescaped_positional (h : escapeStart ∉ d.digits) : Unescaped d.positional := by
  have hzeros : ∀ k, escapeStart ∉ List.replicate k '0' := fun k hmem =>
    absurd (List.eq_of_mem_replicate hmem) (by decide)
  have htake : ∀ k, escapeStart ∉ d.digits.take k := fun k hmem => h (List.mem_of_mem_take hmem)
  have hdrop : ∀ k, escapeStart ∉ d.digits.drop k := fun k hmem => h (List.mem_of_mem_drop hmem)
  have happend : ∀ {cs ds : List Char}, escapeStart ∉ cs → escapeStart ∉ ds →
      escapeStart ∉ cs ++ ds := fun hcs hds hmem => (List.mem_append.1 hmem).elim hcs hds
  rw [Digits.positional]
  dsimp only
  split
  · exact .append (by decide) (.ofList (happend (hzeros _) h))
  split
  · exact .append (.ofList (happend h (hzeros _))) (by decide)
  · exact .append (.append (.ofList (htake _)) (by decide)) (.ofList (hdrop _))

theorem unescaped_scientific (h : escapeStart ∉ d.digits) (width : Nat) :
    Unescaped (d.scientific width) := by
  have hhead : Unescaped (String.ofList (d.digits.take 1)) :=
    .ofList fun hmem => h (List.mem_of_mem_take hmem)
  have hfraction : Unescaped (if (d.digits.drop 1).isEmpty then ""
      else "." ++ String.ofList (d.digits.drop 1)) := by
    split
    · decide
    · exact .append (by decide) (.ofList fun hmem => h (List.mem_of_mem_drop hmem))
  have hsign : Unescaped (if d.point - 1 < 0 then "-" else "+") := by
    split <;> decide
  have hexponent : Unescaped (padZeros width (Nat.repr (d.point - 1).natAbs)) :=
    .append (.replicate _ (by decide)) (.repr _)
  exact (((hhead.append hfraction).append (by decide)).append hsign).append hexponent

theorem unescaped_float (x : Binary64) : Unescaped x.text := by
  have hsign : ∀ negative : Bool, Unescaped (if negative then "-" else "") := by decide
  rw [Binary64.text]
  cases x with
  | nan mark =>
      show Unescaped "nan"
      decide
  | infinite negative => exact (hsign negative).append (by decide)
  | finite negative a =>
      refine (hsign negative).append ?_
      split
      · decide
      · rw [Digits.text]
        split
        · exact unescaped_positional (escapeStart_not_mem_shortest a)
        · exact unescaped_scientific (escapeStart_not_mem_shortest a) _

/-- No escape sequence starts in the text of a number. -/
theorem Numeral.unescaped_text (n : Numeral) : Unescaped n.text := by
  cases n with
  | int k =>
      rw [Numeral.text, Unescaped, toList_toString_int, List.mem_append, not_or]
      refine ⟨?_, fun h => absurd (isDigit_toDigits _ _ h) (by decide)⟩
      split <;> decide
  | float x => exact unescaped_float x

end

/-! ## Layouts with colours and without -/

/-- Have two computations related results, or the same failure? -/
inductive Parallel {ε α β : Type} (R : α → β → Prop) : Except ε α → Except ε β → Prop where
  | ok {a : α} {b : β} (h : R a b) : Parallel R (.ok a) (.ok b)
  | error (e : ε) : Parallel R (.error e) (.error e)

theorem Parallel.bind {ε α β α' β' : Type} {R : α → β → Prop} {S : α' → β' → Prop}
    {x : Except ε α} {y : Except ε β} {g : α → Except ε α'} {g' : β → Except ε β'}
    (h : Parallel R x y) (hg : ∀ a b, R a b → Parallel S (g a) (g' b)) :
    Parallel S (x >>= g) (y >>= g') := by
  cases h with
  | ok h => exact hg _ _ h
  | error e => exact .error e

/-- Is the second text what can be seen of the first, which may have colours? -/
def PaintedText (text seen : String) : Prop := Painted layoutCodes text.toList seen.toList

section

variable {text seen : String} {parts plain : List String}

theorem PaintedText.of_plain (h : Unescaped text) : PaintedText text text :=
  Painted.of_plain h

theorem PaintedText.append {text' seen' : String} (h : PaintedText text seen)
    (h' : PaintedText text' seen') : PaintedText (text ++ text') (seen ++ seen') := by
  rw [PaintedText, String.toList_append, String.toList_append]
  exact Painted.append h h'

/-- A word between its colour and the sequence that goes back to none is seen without them. -/
theorem paintedText_paint {c : Colour} (hc : c.code ∈ layoutCodes) (o : LayoutOptions)
    (h : Unescaped text) :
    PaintedText ({ o with colour := true }.paint c text) ({ o with colour := false }.paint c text) := by
  have hback : Painted layoutCodes (plainCode.toList ++ []) [] :=
    .code List.mem_cons_self .nil
  have hword := (Painted.of_plain h).append hback
  have hpainted := Painted.code hc hword
  rw [LayoutOptions.paint, LayoutOptions.paint, if_pos rfl, if_neg (by simp), PaintedText]
  simpa only [String.toList_append, List.append_assoc, List.append_nil] using hpainted

theorem paintedText_intercalate {gap : String} (hgap : Unescaped gap)
    (h : List.Forall₂ PaintedText parts plain) :
    PaintedText (gap.intercalate parts) (gap.intercalate plain) := by
  have hlist : ∀ {ts ss : List String}, List.Forall₂ PaintedText ts ss →
      Painted layoutCodes (gap.toList.intercalate (ts.map String.toList))
        (gap.toList.intercalate (ss.map String.toList)) := by
    intro ts ss h
    induction h with
    | nil => exact .nil
    | @cons t s ts ss hfirst hrest ih =>
        cases hrest with
        | nil =>
            have hfirst : Painted layoutCodes t.toList s.toList := hfirst
            simpa using hfirst
        | cons _ _ =>
            simp only [List.map_cons, List.intercalate_cons_cons] at ih ⊢
            exact (Painted.append hfirst (Painted.of_plain hgap)).append ih
  rw [PaintedText, String.toList_intercalate, String.toList_intercalate]
  exact hlist h

theorem paintedText_between {opening gap closing : String} (hopening : Unescaped opening)
    (hgap : Unescaped gap) (hclosing : Unescaped closing)
    (h : List.Forall₂ PaintedText parts plain) :
    PaintedText (opening ++ gap.intercalate parts ++ closing)
      (opening ++ gap.intercalate plain ++ closing) :=
  ((PaintedText.of_plain hopening).append (paintedText_intercalate hgap h)).append
    (.of_plain hclosing)

/-- Colours take no room. -/
theorem visibleLength_of_painted (o : LayoutOptions) (h : PaintedText text seen) :
    { o with colour := true }.visibleLength text =
      { o with colour := false }.visibleLength seen := by
  rw [LayoutOptions.visibleLength, LayoutOptions.visibleLength, if_pos rfl, if_neg (by simp),
    h.stripColours, String.length_toList]

/-- A form is broken into lines with colours if it is without. -/
theorem paintedText_arrange (o : LayoutOptions) (indent : Int)
    (h : List.Forall₂ PaintedText parts plain) :
    PaintedText ({ o with colour := true }.arrange indent parts)
      ({ o with colour := false }.arrange indent plain) := by
  have hline : PaintedText (Node.spaced "(" parts ")") (Node.spaced "(" plain ")") :=
    paintedText_between (by decide) (by decide) (by decide) h
  have hgap : Unescaped ("\n" ++ indentation (indent + 1)) :=
    .append (by decide) (.replicate _ (by decide))
  rw [LayoutOptions.arrange, LayoutOptions.arrange, visibleLength_of_painted o hline]
  dsimp only
  split
  · exact hline
  · exact paintedText_between (by decide) hgap (by decide) h

end

mutual
/-- Does no escape sequence start in the words and texts of a node, nor in the written forms of the
values in it? -/
def Node.EscapeFree : Node → Prop
  | .symbol _ name => Unescaped name
  | .number _ _ => True
  | .truth _ _ => True
  | .text _ s => Unescaped s
  | .list elements => Node.AllEscapeFree elements
  | .form _ items => Node.AllEscapeFree items
  | .foreign v => Unescaped v.write

/-- Does no escape sequence start in the words, texts and values of some nodes? -/
def Node.AllEscapeFree : List Node → Prop
  | [] => True
  | n :: rest => n.EscapeFree ∧ Node.AllEscapeFree rest
end

section

variable {o : LayoutOptions}

/-- A value has its written form with colours and without, or none. -/
theorem parallel_written {R : String → String → Prop} {v : Value} (h : R v.write v.write) :
    Parallel R v.written v.written := by
  rw [Value.written]
  split
  · exact .ok h
  · exact .error _

mutual
/-- The layout of a node with colours is the one without, with colours in between. -/
theorem Node.layout_painted : ∀ (n : Node) (indent depth : Int), n.EscapeFree →
    Parallel PaintedText (n.layout { o with colour := true } indent depth)
      (n.layout { o with colour := false } indent depth)
  | n, indent, depth, hn => by
      by_cases hdepth : o.maxDepth ≤ depth
      · -- What lies too deep is left out in both.
        rw [Node.layout.eq_def, Node.layout.eq_def, if_pos hdepth, if_pos hdepth]
        exact .ok (.of_plain (by decide))
      match n with
      | .symbol line name =>
          rw [Node.layout, Node.layout, if_neg hdepth, if_neg hdepth]
          refine .ok (paintedText_paint ?_ o hn)
          split <;> decide
      | .number line k =>
          rw [Node.layout, Node.layout, if_neg hdepth, if_neg hdepth]
          have hwritten : Parallel (fun text seen => text = seen ∧ Unescaped text)
              (Value.number k).written (Value.number k).written :=
            parallel_written ⟨rfl, k.unescaped_text⟩
          refine hwritten.bind fun text seen h => ?_
          obtain ⟨rfl, htext⟩ := h
          exact .ok (paintedText_paint (by decide) o htext)
      | .truth line b =>
          rw [Node.layout, Node.layout, if_neg hdepth, if_neg hdepth]
          have hword : Unescaped (truthText b) := by cases b <;> decide
          exact .ok (paintedText_paint (by decide) o hword)
      | .text line s =>
          rw [Node.layout, Node.layout, if_neg hdepth, if_neg hdepth]
          have hquoted : Unescaped ("\"" ++ s ++ "\"") := .append (.append (by decide) hn) (by decide)
          exact .ok (paintedText_paint (by decide) o hquoted)
      | .list elements =>
          rw [Node.layout, Node.layout, if_neg hdepth, if_neg hdepth]
          refine (Node.layoutFrom_painted elements _ _ .nil hn).bind fun parts plain h => ?_
          exact .ok (paintedText_between (by decide) (by decide) (by decide) h)
      | .form style [] =>
          rw [Node.layout, Node.layout, if_neg hdepth]
          exact .ok (.of_plain (by decide))
      | .form style (first :: rest) =>
          rw [Node.layout.eq_def, Node.layout.eq_def, if_neg hdepth, if_neg hdepth]
          refine (Node.layoutFrom_painted (first :: rest) _ _ .nil hn).bind fun parts plain h => ?_
          exact .ok (paintedText_arrange o indent h)
      | .foreign v =>
          rw [Node.layout, Node.layout, if_neg hdepth]
          exact parallel_written (.of_plain hn)

theorem Node.layoutFrom_painted : ∀ (ns : List Node) (indent depth : Int)
    {done done' : List String}, List.Forall₂ PaintedText done done' → Node.AllEscapeFree ns →
    Parallel (List.Forall₂ PaintedText)
      (Node.layoutFrom { o with colour := true } indent depth done ns)
      (Node.layoutFrom { o with colour := false } indent depth done' ns)
  | [], _, _, _, _, hdone, _ => by
      rw [Node.layoutFrom, Node.layoutFrom]
      exact .ok (List.forall₂_reverse_iff.2 hdone)
  | n :: rest, indent, depth, _, _, hdone, hns => by
      rw [Node.layoutFrom, Node.layoutFrom]
      exact (Node.layout_painted n indent depth hns.1).bind fun text seen h =>
        Node.layoutFrom_painted rest indent depth (.cons h hdone) hns.2
end

end

/-- Removing the colours from the layout of code leaves exactly the layout without colours, whatever
the indentation, the depth and the other choices are: lines are broken in the same places, the same
nodes are left out, and what cannot be written has a layout in neither way. The code may have no
character in its words and texts, and in the written forms of its values, that escape sequences start
with. -/
theorem stripColours_layout {n : Node} (hn : n.EscapeFree) (o : LayoutOptions)
    (indent depth : Int) :
    (n.layout { o with colour := true } indent depth).map
        (fun text => String.ofList (stripColours text.toList)) =
      n.layout { o with colour := false } indent depth := by
  have h := Node.layout_painted (o := o) n indent depth hn
  generalize n.layout { o with colour := true } indent depth = coloured at h ⊢
  generalize n.layout { o with colour := false } indent depth = plain at h ⊢
  cases h with
  | ok h =>
      rw [Except.map, h.stripColours, String.ofList_toList]
  | error e => rfl

/-- A form that has to be broken, around one that fits on its line if colours take no room, and a
value where a node belongs. -/
theorem stripColours_layout_broken :
    let n : Node := .form .fixed [.symbol 1 "eval",
      .form .fixed [.symbol 1 "f", .symbol 1 "x", .text 1 "ab"],
      .list [.symbol 2 "y", .foreign .nothing]]
    let o : LayoutOptions := ⟨true, 8, 12⟩
    n.EscapeFree ∧
      n.layout { o with colour := false } 0 0 =
        .ok "(eval\n  (f x \"ab\")\n  [y None])" ∧
      (n.layout { o with colour := true } 0 0).map
          (fun text => String.ofList (stripColours text.toList)) =
        .ok "(eval\n  (f x \"ab\")\n  [y None])" := by
  intro n o
  have hn : n.EscapeFree := by
    have hwords : Unescaped "eval" ∧ Unescaped "f" ∧ Unescaped "x" ∧ Unescaped "ab" ∧
        Unescaped "y" ∧ Unescaped "None" := by decide
    obtain ⟨heval, hf, hx, hab, hy, hnone⟩ := hwords
    exact ⟨heval, ⟨hf, hx, hab, trivial⟩, ⟨hy, hnone, trivial⟩, trivial⟩
  have hplain : n.layout { o with colour := false } 0 0 =
      .ok "(eval\n  (f x \"ab\")\n  [y None])" := by
    unfold n o
    rfl
  exact ⟨hn, hplain, (stripColours_layout hn o 0 0).trans hplain⟩

end FormLang
