import FormLang.Proofs.Reader.Writing

set_option autoImplicit false

/-! # Texts one below the other

A line end closes whatever may go on: a comment, a run of blanks, an atom. A text literal may go on
over a line end, but then the text in front of it has not been cut to its end. So when a text is cut
to its end, another one below it is cut as it would be by itself, only that its lines are counted
on (`lex_below`).
-/

namespace FormLang

/-! ## What may stand behind a line end -/

section

variable {before cs gap behind : List Char} {t : Token} {l : Lexed}

/-- Filler stays filler when a line end, and anything behind it, is put at the end of all text: the
line end closes a comment that went on to there. -/
theorem Filler.above (h : Filler gap behind) (more : List Char) :
    Filler gap (behind ++ '\n' :: more) := by
  induction h with
  | nil => exact .nil _
  | blank hc _ ih => exact .blank hc ih
  | @comment body cs behind hbody hend _ ih =>
      refine .comment hbody ?_ ih
      intro c hc
      rw [← List.append_assoc] at hc
      cases hall : cs ++ behind with
      | nil =>
          rw [hall] at hc
          exact (Option.some.inj hc).symm
      | cons d rest =>
          rw [hall] at hc hend
          exact hend c hc

/-- A token stays where it is: a line end adds to no atom. -/
theorem Token.StandsBetween.above (h : t.StandsBetween before behind) (more : List Char) :
    t.StandsBetween before (behind ++ '\n' :: more) := by
  refine ⟨h.writes, h.line, fun hatom => ⟨(h.maximal hatom).1, ?_⟩⟩
  intro c hc
  cases behind with
  | nil =>
      obtain rfl : '\n' = c := Option.some.inj hc
      decide
  | cons d behind => exact (h.maximal hatom).2 c hc

/-- A text that is cut to its end is cut in the same way above another one, the pieces of which
follow. -/
theorem Cut.above {more : List Char} {m : Lexed} (h : Cut before cs l) (hend : l.failure = none)
    (hmore : Cut (before ++ cs ++ ['\n']) more m) :
    Cut before (cs ++ '\n' :: more) ⟨l.tokens ++ m.tokens, m.failure⟩ := by
  induction h with
  | @finished before gap hgap =>
      -- The last filler, the line end and the first filler below are one gap.
      have hline : Filler ['\n'] more := .blank (.inr rfl) (.nil more)
      have hpiece : Filler (gap ++ ['\n']) more := (hgap.above more).append rfl hline
      have hcut := Cut.filler hpiece (by rwa [← List.append_assoc])
      rwa [List.append_assoc] at hcut
  | stuck => cases hend
  | @token before gap behind t ts failure hgap ht _ ih =>
      have hbehind : Cut (before ++ gap ++ t.text.toList) (behind ++ '\n' :: more)
          ⟨ts ++ m.tokens, m.failure⟩ := by
        refine ih hend ?_
        simpa only [List.append_assoc] using hmore
      have hgap' : Filler gap (t.text.toList ++ (behind ++ '\n' :: more)) := by
        rw [← List.append_assoc]
        exact hgap.above more
      have hcut := Cut.token hgap' (ht.above more) hbehind
      simpa only [List.append_assoc, List.cons_append] using hcut

end

/-! ## Whole texts -/

/-- When a text is cut to its end, a line end and another text behind it add the tokens of that text,
on lines that are further down by one more than the line ends in the first; and cutting stops
exactly when it does in the second text, behind the same tokens of it, for the same reason and on
a line that is further down by as much. -/
theorem lex_below {a : String} (h : (lex a).failure = none) (b : String) :
    let lines := lineEnds a.toList + 1
    (lex (a ++ "\n" ++ b)).tokens =
      (lex a).tokens ++ (lex b).tokens.map (fun t => { t with line := t.line + lines }) ∧
    (lex (a ++ "\n" ++ b)).failure =
      (lex b).failure.map fun (reason, line) => (reason, line + lines) := by
  intro lines
  have hlines : 1 + lineEnds ([] ++ a.toList ++ ['\n']) = 1 + lines := by
    rw [List.nil_append, lineEnds_append]
    rfl
  have hbelow : Cut ([] ++ a.toList ++ ['\n']) b.toList ((lex b).below lines) := by
    have hapart : Apart ([] ++ a.toList ++ ['\n']) b.toList :=
      Apart.of_last (c := '\n') (by simp) (by decide)
    have hcut := cut_lexFrom _ _ hapart
    rw [hlines, lexFrom_below] at hcut
    exact hcut
  have hjoined := (cut_lex a).above h hbelow
  have htext : (a ++ "\n" ++ b).toList = a.toList ++ '\n' :: b.toList := by
    simp [String.toList_append]
  have hlex := (lex_eq_iff_cut (a ++ "\n" ++ b) _).2 (htext ▸ hjoined)
  rw [hlex]
  exact ⟨rfl, rfl⟩

/-- Above: a literal over two lines, an atom that ends in a backslash, and a comment with a quote.
Below: an atom, and a quote that nothing closes. -/
theorem lex_below_comment :
    let a := "\"x\n\\\"\" f\\ ;\""
    let b := "g\n\""
    (lex a).failure = none ∧
      (lex (a ++ "\n" ++ b)).tokens =
        [⟨.text, "\"x\n\\\"\"", 1⟩, ⟨.atom, "f\\", 2⟩, ⟨.atom, "g", 3⟩] ∧
      (lex (a ++ "\n" ++ b)).failure = some (.unterminatedText, 4) := by
  intro a b
  have ha : lex a = ⟨[⟨.text, "\"x\n\\\"\"", 1⟩, ⟨.atom, "f\\", 2⟩], none⟩ := by
    unfold a
    cbv
  have hb : lex b = ⟨[⟨.atom, "g", 1⟩], some (.unterminatedText, 2)⟩ := by
    unfold b
    cbv
  have hend : (lex a).failure = none := by rw [ha]
  obtain ⟨htokens, hfailure⟩ := lex_below hend b
  refine ⟨hend, ?_, ?_⟩
  · rw [htokens, ha, hb]
    decide
  · rw [hfailure, hb]
    decide

end FormLang
