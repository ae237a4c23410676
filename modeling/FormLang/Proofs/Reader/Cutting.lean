import FormLang.Token.Lexer
import Mathlib.Data.List.TakeWhile

set_option autoImplicit false

/-! # Cutting text without loss

A text is filler and tokens by turns, up to its end or to a character that nothing can start with.
What filler and tokens look like is said here without the lexer (`Filler`, `TokenKind.Writes`), and so
is how they make up a text (`Cut`). There is only one way to cut a text, and it is what the lexer
finds (`lex_eq_iff_cut`).
-/

namespace FormLang

/-! ## Filler -/

/-- Is the text filler in front of some other text? It has blanks, line ends and comments in it. A
comment goes on to the end of its line, which is a line end or the end of all text. -/
inductive Filler : List Char → List Char → Prop where
  | nil (behind : List Char) : Filler [] behind
  | blank {c : Char} {cs behind : List Char} (hc : isSeparator c = true ∨ c = '\n')
      (h : Filler cs behind) : Filler (c :: cs) behind
  | comment {body cs behind : List Char} (hbody : '\n' ∉ body)
      (hend : ∀ c ∈ (cs ++ behind).head?, c = '\n') (h : Filler cs behind) :
      Filler (';' :: (body ++ cs)) behind

/-! ## Tokens -/

/-- Is this the rest of a text literal, behind its opening quote? A backslash takes the next
character with it, which is no line end, and the first quote that is not taken is the last
character. -/
inductive LiteralRest : List Char → Prop where
  | close : LiteralRest ['"']
  | escape {c : Char} {cs : List Char} (hc : c ≠ '\n') (h : LiteralRest cs) :
      LiteralRest ('\\' :: c :: cs)
  | plain {c : Char} {cs : List Char} (hquote : c ≠ '"') (hbackslash : c ≠ '\\')
      (h : LiteralRest cs) : LiteralRest (c :: cs)

/-- Is this how a token of a kind is written? -/
def TokenKind.Writes : TokenKind → List Char → Prop
  | .opening .round, cs => cs = ['(']
  | .closing .round, cs => cs = [')']
  | .opening .square, cs => cs = ['[']
  | .closing .square, cs => cs = [']']
  | .text, cs => ∃ rest, cs = '"' :: rest ∧ LiteralRest rest
  | .atom, cs => cs ≠ [] ∧ ∀ c ∈ cs, isAtomChar c = true

/-- Does the token stand between two texts? It is on the line that the first of them ends in; and if
it is an atom, neither text could add to it. -/
structure Token.StandsBetween (t : Token) (before behind : List Char) : Prop where
  writes : t.kind.Writes t.text.toList
  line : t.line = 1 + lineEnds before
  maximal : t.kind = .atom → (∀ c ∈ before.getLast?, isAtomChar c = false) ∧
    ∀ c ∈ behind.head?, isAtomChar c = false

/-! ## Texts -/

/-- The reason why no token starts with a character that is no filler, given what follows it. -/
inductive Obstacle : ReadFault → Char → List Char → Prop where
  /-- A quote that no literal starts with. -/
  | quote {behind : List Char}
      (h : ∀ text rest, '"' :: behind = text ++ rest → ¬TokenKind.text.Writes text) :
      Obstacle .unterminatedText '"' behind
  /-- White space that is no separator. -/
  | blank {c : Char} {behind : List Char} (hblank : isBlank c = true)
      (hseparator : isSeparator c = false) (hline : c ≠ '\n') :
      Obstacle (.unexpectedCharacter c) c behind

/-- How the text behind some other text falls into filler and tokens, to the end or to an
obstacle. -/
inductive Cut : List Char → List Char → Lexed → Prop where
  | finished {before gap : List Char} (hgap : Filler gap []) : Cut before gap ⟨[], none⟩
  | stuck {before gap behind : List Char} {c : Char} {reason : ReadFault} {line : Nat}
      (hgap : Filler gap (c :: behind)) (hreason : Obstacle reason c behind)
      (hline : line = 1 + lineEnds (before ++ gap)) :
      Cut before (gap ++ c :: behind) ⟨[], some (reason, line)⟩
  | token {before gap behind : List Char} {t : Token} {ts : List Token}
      {failure : Option (ReadFault × Nat)} (hgap : Filler gap (t.text.toList ++ behind))
      (ht : t.StandsBetween (before ++ gap) behind)
      (h : Cut (before ++ gap ++ t.text.toList) behind ⟨ts, failure⟩) :
      Cut before (gap ++ (t.text.toList ++ behind)) ⟨t :: ts, failure⟩

/-! ## Text literals -/

/-- A literal that is found to be closed is one. -/
theorem literalRest_of_closeText {seen cs text rest : List Char}
    (h : closeText seen cs = some (text, rest)) :
    ∃ body, LiteralRest body ∧ cs = body ++ rest ∧ text = body.reverse ++ seen := by
  fun_induction closeText seen cs with
  | case1 => cases h
  | case2 seen rest =>
      cases h
      exact ⟨['"'], .close, rfl, rfl⟩
  | case3 => cases h
  | case4 => cases h
  | case5 seen c rest hc ih =>
      obtain ⟨body, hbody, rfl, rfl⟩ := ih h
      exact ⟨'\\' :: c :: body, .escape hc hbody, rfl, by simp⟩
  | case6 seen c rest hquote hlast hescape ih =>
      -- A backslash is followed by nothing or by something, and both cases are gone.
      have hbackslash : c ≠ '\\' := by
        rintro rfl
        cases rest with
        | nil => exact hlast rfl rfl
        | cons d rest => exact hescape d rest rfl rfl
      obtain ⟨body, hbody, rfl, rfl⟩ := ih h
      exact ⟨c :: body, .plain hquote hbackslash hbody, rfl, by simp⟩

/-- A literal is found to be closed, whatever follows it. -/
theorem closeText_of_literalRest {body : List Char} (h : LiteralRest body)
    (seen rest : List Char) :
    closeText seen (body ++ rest) = some (body.reverse ++ seen, rest) := by
  induction h generalizing seen with
  | close => simp [closeText]
  | @escape c cs hc _ ih => simp [closeText, hc, ih]
  | @plain c cs hquote hbackslash _ ih =>
      rw [List.cons_append, closeText]
      · simp [ih]
      · exact hquote
      · simp [hbackslash]
      · simp [hbackslash]

/-- No literal starts with a quote that is not found to be closed. -/
theorem not_writes_text_of_closeText {cs text rest : List Char} (h : closeText ['"'] cs = none)
    (happend : '"' :: cs = text ++ rest) : ¬TokenKind.text.Writes text := by
  rintro ⟨body, rfl, hbody⟩
  obtain rfl : cs = body ++ rest := (List.cons.inj happend).2
  rw [closeText_of_literalRest hbody] at h
  cases h

/-! ## Single pieces -/

/-- Is a piece filler or a token in the place where it stands? -/
def Lexeme.Fits (l : Lexeme) : Prop :=
  match l.kind? with
  | none => Filler l.text l.rest
  | some kind => kind.Writes l.text ∧ (kind = .atom → ∀ c ∈ l.rest.head?, isAtomChar c = false)

theorem Filler.blanks {cs behind : List Char} (h : ∀ c ∈ cs, isSeparator c = true) :
    Filler cs behind := by
  induction cs with
  | nil => exact .nil behind
  | cons c cs ih => exact .blank (.inl (h c (by simp))) (ih fun d hd => h d (by simp [hd]))

/-- What follows the longest run of some characters starts with none of them. -/
theorem head?_dropWhile {p : Char → Bool} {cs : List Char} :
    ∀ c ∈ (cs.dropWhile p).head?, p c = false := by
  intro c hc
  have h := List.head?_dropWhile_not p cs
  rw [hc] at h
  simpa using h

/-- Is this the right answer to what stands at the head of a text? -/
def Answers (c : Char) (cs : List Char) : Except ReadFault Lexeme → Prop
  | .ok l => l.Fits
  | .error reason => Obstacle reason c cs

theorem Lexeme.forall_run {kind? : Option TokenKind} {p : Char → Bool} {c : Char} (cs : List Char)
    (h : p c = true) : ∀ d ∈ (run kind? p c cs).text, p d = true := by
  intro d hd
  rcases List.mem_cons.1 hd with rfl | hd
  · exact h
  · exact List.mem_takeWhile_imp hd

/-- A comment goes on to the first line end. -/
theorem filler_comment (cs : List Char) :
    Filler (';' :: cs.takeWhile (· != '\n')) (cs.dropWhile (· != '\n')) := by
  have hbody : '\n' ∉ cs.takeWhile (· != '\n') := fun h => by
    have := List.mem_takeWhile_imp h
    simp at this
  have hend : ∀ c ∈ ([] ++ cs.dropWhile (· != '\n')).head?, c = '\n' := fun c hc => by
    have := head?_dropWhile c hc
    simpa using this
  have h := Filler.comment hbody hend (.nil _)
  rwa [List.append_nil] at h

/-- A character that starts nothing else and stands in no atom is white space. -/
theorem isBlank_of_not_isAtomChar {c : Char} (hatom : isAtomChar c = false)
    (hdelimiter : isDelimiter c = false) : isBlank c = true := by
  simpa [isAtomChar, hdelimiter] using hatom

/-- What is found at the head of a text fits there; and if nothing is, there is a reason. -/
theorem answers_lexeme (c : Char) (cs : List Char) : Answers c cs (lexeme c cs) := by
  unfold lexeme
  split
  · next hc =>
    subst hc
    exact filler_comment cs
  split
  · next hc => exact .blank (.inr hc) (.nil cs)
  split
  · next hc => exact Filler.blanks (Lexeme.forall_run cs hc)
  split
  · next hc => exact ⟨by rw [hc]; rfl, by simp⟩
  split
  · next hc => exact ⟨by rw [hc]; rfl, by simp⟩
  split
  · next hc => exact ⟨by rw [hc]; rfl, by simp⟩
  split
  · next hc => exact ⟨by rw [hc]; rfl, by simp⟩
  split
  · next hc =>
    subst hc
    cases hclose : closeText ['"'] cs with
    | some closed =>
        obtain ⟨text, rest⟩ := closed
        obtain ⟨body, hbody, rfl, rfl⟩ := literalRest_of_closeText hclose
        exact ⟨⟨body, by simp, hbody⟩, by simp⟩
    | none => exact .quote fun text rest happend => not_writes_text_of_closeText hclose happend
  split
  · next hc => exact ⟨⟨by simp [Lexeme.run], Lexeme.forall_run cs hc⟩, fun _ => head?_dropWhile⟩
  · next hsemicolon hline hseparator _ _ _ _ _ hatom =>
    have hseparator : isSeparator c = false := by simpa using hseparator
    have hdelimiter : isDelimiter c = false := by
      simp_all [isDelimiter, isSeparator]
    exact .blank (isBlank_of_not_isAtomChar (by simpa using hatom) hdelimiter) hseparator hline

/-! ## Where one piece ends and the next begins -/

/-- No atom goes on from one text to the other. -/
def Apart (before behind : List Char) : Prop :=
  ∀ c ∈ before.getLast?, isAtomChar c = true → ∀ d ∈ behind.head?, isAtomChar d = false

theorem isAtomChar_separator {c : Char} (h : isSeparator c = true) : isAtomChar c = false := by
  simp only [isSeparator, List.contains_eq_mem, List.mem_cons, List.not_mem_nil, or_false,
    decide_eq_true_eq] at h
  rcases h with rfl | rfl | rfl | rfl | rfl | rfl <;> decide

theorem Apart.of_last {before behind : List Char} {c : Char} (h : before.getLast? = some c)
    (hc : isAtomChar c = false) : Apart before behind := by
  intro d hd hatom
  rw [h] at hd
  cases hd
  rw [hc] at hatom
  cases hatom

theorem Apart.append {text behind : List Char} (h : Apart text behind) (before : List Char)
    (hne : text ≠ []) : Apart (before ++ text) behind := by
  intro c hc
  have hlast : (before ++ text).getLast? = text.getLast? := by
    rw [List.getLast?_append, List.getLast?_eq_some_getLast hne]
    rfl
  rw [hlast] at hc
  exact h c hc

theorem Filler.apart {gap behind : List Char} (h : Filler gap behind) : Apart gap behind := by
  induction h with
  | nil => intro c hc; cases hc
  | @blank c cs behind hc _ ih =>
      cases cs with
      | nil =>
          refine Apart.of_last rfl ?_
          rcases hc with hc | rfl
          · exact isAtomChar_separator hc
          · decide
      | cons d cs =>
          have h := ih.append [c] (by simp)
          exact h
  | @comment body cs behind _ hend _ ih =>
      cases cs with
      | nil =>
          -- Whatever the comment says, a line end follows it, or nothing.
          intro c _ _ d hd
          obtain rfl := hend d hd
          decide
      | cons d cs =>
          have h := ih.append (';' :: body) (by simp)
          exact h

theorem LiteralRest.getLast? {cs : List Char} (h : LiteralRest cs) : cs.getLast? = some '"' := by
  induction h with
  | close => rfl
  | escape _ _ ih => simp [List.getLast?_cons, ih]
  | plain _ _ _ ih => simp [List.getLast?_cons, ih]

/-- A token that is no atom ends in a character of its own. -/
theorem TokenKind.Writes.apart {kind : TokenKind} {cs behind : List Char} (h : kind.Writes cs)
    (hkind : kind ≠ .atom) : Apart cs behind := by
  match kind, h with
  | .opening .round, h => exact .of_last (by rw [h]; rfl) (c := '(') (by decide)
  | .closing .round, h => exact .of_last (by rw [h]; rfl) (c := ')') (by decide)
  | .opening .square, h => exact .of_last (by rw [h]; rfl) (c := '[') (by decide)
  | .closing .square, h => exact .of_last (by rw [h]; rfl) (c := ']') (by decide)
  | .text, h =>
      obtain ⟨rest, rfl, hrest⟩ := h
      have hlast : ('"' :: rest).getLast? = some '"' := by
        simp [List.getLast?_cons, hrest.getLast?]
      exact .of_last hlast (by decide)
  | .atom, _ => exact absurd rfl hkind

theorem Lexeme.Fits.apart {l : Lexeme} (h : l.Fits) : Apart l.text l.rest := by
  unfold Fits at h
  split at h
  · exact h.apart
  · next kind _ =>
    by_cases hkind : kind = .atom
    · exact fun _ _ _ => h.2 hkind
    · exact h.1.apart hkind

/-! ## Cutting off one piece -/

/-- The tokens of a text with one more in front. -/
def Lexed.cons (t : Token) (l : Lexed) : Lexed := ⟨t :: l.tokens, l.failure⟩

/-- The piece as a token, if it is one. -/
def Lexeme.token? (l : Lexeme) (line : Nat) : Option Token :=
  l.kind?.map fun kind => ⟨kind, String.ofList l.text, line⟩

section

variable {line : Nat} {seen : List Token} {c : Char} {cs : List Char} {l : Lexeme}

theorem lexFrom_nil : lexFrom line seen [] = ⟨seen.reverse, none⟩ := by rw [lexFrom]

theorem lexFrom_obstacle {reason : ReadFault} (h : lexeme c cs = .error reason) :
    lexFrom line seen (c :: cs) = ⟨seen.reverse, some (reason, line)⟩ := by
  rw [lexFrom]
  split <;> simp_all

theorem lexFrom_piece (h : lexeme c cs = .ok l) :
    lexFrom line seen (c :: cs) =
      lexFrom (line + lineEnds l.text) ((l.token? line).toList ++ seen) l.rest := by
  rw [lexFrom]
  split
  · simp_all
  · next l' h' =>
    obtain rfl : l = l' := by simp_all
    cases hkind : l.kind? <;> simp [Lexeme.token?, hkind]

/-- Tokens that are known already are the first ones. -/
theorem lexFrom_seen (line : Nat) (seen : List Token) (cs : List Char) :
    lexFrom line seen cs =
      ⟨seen.reverse ++ (lexFrom line [] cs).tokens, (lexFrom line [] cs).failure⟩ := by
  induction hlength : cs.length using Nat.strong_induction_on generalizing line seen cs with
  | h length ih =>
  cases cs with
  | nil => simp [lexFrom_nil]
  | cons c cs =>
      cases h : lexeme c cs with
      | error reason => simp [lexFrom_obstacle h]
      | ok l =>
          have hless : l.rest.length < length := hlength ▸ lexeme_length h
          rw [lexFrom_piece h, lexFrom_piece h, ih _ hless _ _ _ rfl,
            ih _ hless _ ((l.token? line).toList ++ []) _ rfl]
          simp

theorem lexFrom_filler (h : lexeme c cs = .ok l) (hkind : l.kind? = none) :
    lexFrom line [] (c :: cs) = lexFrom (line + lineEnds l.text) [] l.rest := by
  rw [lexFrom_piece h, Lexeme.token?, hkind]
  rfl

theorem lexFrom_token {kind : TokenKind} (h : lexeme c cs = .ok l) (hkind : l.kind? = some kind) :
    lexFrom line [] (c :: cs) =
      (lexFrom (line + lineEnds l.text) [] l.rest).cons ⟨kind, String.ofList l.text, line⟩ := by
  rw [lexFrom_piece h, Lexeme.token?, hkind, lexFrom_seen]
  rfl

end

/-! ## The lexer cuts -/

theorem lineEnds_append (cs ds : List Char) : lineEnds (cs ++ ds) = lineEnds cs + lineEnds ds :=
  List.count_append

theorem Filler.append {piece gap behind rest : List Char} (h : Filler piece rest)
    (hrest : rest = gap ++ behind) (hgap : Filler gap behind) : Filler (piece ++ gap) behind := by
  induction h with
  | nil => exact hgap
  | blank hc _ ih => exact .blank hc (ih hrest)
  | @comment body cs _ hbody hend _ ih =>
      subst hrest
      rw [List.cons_append, List.append_assoc]
      exact .comment hbody (by simpa using hend) (ih rfl)

/-- Filler in front of a text that is cut goes to the first gap. -/
theorem Cut.filler {before piece rest : List Char} {l : Lexed} (hpiece : Filler piece rest)
    (h : Cut (before ++ piece) rest l) : Cut before (piece ++ rest) l := by
  cases h with
  | finished hgap => exact .finished (hpiece.append (by simp) hgap)
  | @stuck _ gap behind c reason line hgap hreason hline =>
      rw [← List.append_assoc]
      exact .stuck (hpiece.append rfl hgap) hreason (by rwa [← List.append_assoc])
  | @token _ gap behind t ts failure hgap ht h =>
      rw [← List.append_assoc]
      exact .token (hpiece.append rfl hgap) (by rwa [← List.append_assoc])
        (by rwa [← List.append_assoc])

/-- A token in front of a text that is cut is the first one. -/
theorem Cut.cons {before behind : List Char} {t : Token} {l : Lexed}
    (ht : t.StandsBetween before behind) (h : Cut (before ++ t.text.toList) behind l) :
    Cut before (t.text.toList ++ behind) (l.cons t) := by
  rw [← List.append_nil before] at ht h
  exact .token (.nil _) ht h

theorem Cut.obstacle {before behind : List Char} {c : Char} {reason : ReadFault}
    (h : Obstacle reason c behind) :
    Cut before (c :: behind) ⟨[], some (reason, 1 + lineEnds before)⟩ :=
  .stuck (.nil _) h (by rw [List.append_nil])

/-- A token that was found at the head of a text stands there. -/
theorem Lexeme.Fits.standsBetween {l : Lexeme} {kind : TokenKind} {before : List Char}
    (h : l.Fits) (hkind : l.kind? = some kind) (hapart : Apart before (l.text ++ l.rest)) :
    (⟨kind, String.ofList l.text, 1 + lineEnds before⟩ : Token).StandsBetween before l.rest := by
  unfold Fits at h
  rw [hkind] at h
  obtain ⟨hwrites, hrest⟩ := h
  refine ⟨by simpa using hwrites, rfl, fun hatom => ⟨fun c hc => ?_, hrest hatom⟩⟩
  -- The atom would go on from the text before if this ended in a character for atoms.
  obtain rfl : kind = .atom := hatom
  by_contra hc'
  obtain ⟨d, text, htext⟩ := List.exists_cons_of_ne_nil hwrites.1
  have hd := hapart c hc (by simpa using hc') d (by simp [htext])
  rw [hwrites.2 d (by simp [htext])] at hd
  cases hd

/-- The lexer cuts the text behind some other text, on the line in which that ends. -/
theorem cut_lexFrom (before cs : List Char) (hapart : Apart before cs) :
    Cut before cs (lexFrom (1 + lineEnds before) [] cs) := by
  induction hlength : cs.length using Nat.strong_induction_on generalizing before cs with
  | h length ih =>
  cases cs with
  | nil =>
      rw [lexFrom_nil]
      exact .finished (.nil [])
  | cons c cs =>
      have hanswer := answers_lexeme c cs
      cases h : lexeme c cs with
      | error reason =>
          rw [h] at hanswer
          rw [lexFrom_obstacle h]
          exact .obstacle hanswer
      | ok l =>
          rw [h] at hanswer
          have hfits : l.Fits := hanswer
          obtain ⟨hne, happend⟩ := lexeme_append h
          have hless : l.rest.length < length := hlength ▸ lexeme_length h
          have hcut := ih _ hless (before ++ l.text) l.rest (hfits.apart.append before hne) rfl
          rw [lineEnds_append, ← Nat.add_assoc] at hcut
          cases hkind : l.kind? with
          | none =>
              have hfiller : Filler l.text l.rest := by
                unfold Lexeme.Fits at hfits
                rwa [hkind] at hfits
              rw [lexFrom_filler h hkind, ← happend]
              exact hcut.filler hfiller
          | some kind =>
              have hstands := hfits.standsBetween hkind (by rwa [happend])
              rw [lexFrom_token h hkind, ← happend]
              have htext : (String.ofList l.text).toList = l.text := String.toList_ofList
              have hbehind : Cut (before ++ (String.ofList l.text).toList) l.rest
                  (lexFrom (1 + lineEnds before + lineEnds l.text) [] l.rest) := by rwa [htext]
              have hcons := Cut.cons hstands hbehind
              rwa [htext] at hcons

/-! ## There is no other way to cut -/

theorem Lexeme.run_eq {kind? : Option TokenKind} {p : Char → Bool} {c : Char} {cs behind : List Char}
    (hcs : ∀ d ∈ cs, p d = true) (hbehind : ∀ d ∈ behind.head?, p d = false) :
    run kind? p c (cs ++ behind) = ⟨kind?, c :: cs, behind⟩ := by
  have hstop : behind.takeWhile p = [] ∧ behind.dropWhile p = behind := by
    cases behind with
    | nil => exact ⟨rfl, rfl⟩
    | cons d ds => simp [hbehind d rfl]
  rw [run, List.takeWhile_append_of_pos hcs, List.dropWhile_append_of_pos hcs, hstop.1, hstop.2,
    List.append_nil]

theorem lexeme_separator {c : Char} (hc : isSeparator c = true) (cs : List Char) :
    lexeme c cs = .ok (.run none isSeparator c cs) := by
  have hne : ∀ d, isSeparator d = false → c ≠ d := by
    rintro d hd rfl
    rw [hc] at hd
    cases hd
  unfold lexeme
  rw [if_neg (hne ';' (by decide)), if_neg (hne '\n' (by decide)), if_pos hc]

/-- A character that starts no filler and has no meaning of its own starts an atom, if it may stand
in one. -/
theorem lexeme_other {c : Char} (hdelimiter : isDelimiter c = false) (hseparator : isSeparator c = false)
    (hline : c ≠ '\n') (cs : List Char) :
    lexeme c cs =
      if isAtomChar c then .ok (.run (some .atom) isAtomChar c cs)
      else .error (.unexpectedCharacter c) := by
  have hne : ∀ d, isDelimiter d = true → c ≠ d := by
    rintro d hd rfl
    rw [hdelimiter] at hd
    cases hd
  unfold lexeme
  rw [if_neg (hne ';' (by decide)), if_neg hline, if_neg (by simp [hseparator]),
    if_neg (hne '(' (by decide)), if_neg (hne ')' (by decide)), if_neg (hne '[' (by decide)),
    if_neg (hne ']' (by decide)), if_neg (hne '"' (by decide))]

theorem lexeme_atomChar {c : Char} (hc : isAtomChar c = true) (cs : List Char) :
    lexeme c cs = .ok (.run (some .atom) isAtomChar c cs) := by
  have hdelimiter : isDelimiter c = false := by
    simp only [isAtomChar, Bool.and_eq_true, Bool.not_eq_true'] at hc
    exact hc.2
  have hseparator : isSeparator c = false := by
    by_contra h
    rw [isAtomChar_separator (by simpa using h)] at hc
    cases hc
  have hline : c ≠ '\n' := by
    rintro rfl
    revert hc
    decide
  rw [lexeme_other hdelimiter hseparator hline, if_pos hc]

/-- A token is found where it stands. -/
theorem lexeme_of_writes {kind : TokenKind} {text behind : List Char} (h : kind.Writes text)
    (hbehind : kind = .atom → ∀ c ∈ behind.head?, isAtomChar c = false) :
    ∃ c cs, text = c :: cs ∧ lexeme c (cs ++ behind) = .ok ⟨some kind, text, behind⟩ := by
  match kind, h with
  | .opening .round, h => exact ⟨_, _, h, by rw [h]; rfl⟩
  | .closing .round, h => exact ⟨_, _, h, by rw [h]; rfl⟩
  | .opening .square, h => exact ⟨_, _, h, by rw [h]; rfl⟩
  | .closing .square, h => exact ⟨_, _, h, by rw [h]; rfl⟩
  | .text, h =>
      obtain ⟨rest, rfl, hrest⟩ := h
      refine ⟨_, _, rfl, ?_⟩
      have hclose := closeText_of_literalRest hrest ['"'] behind
      simp [lexeme, isSeparator, hclose]
  | .atom, h =>
      obtain ⟨c, cs, rfl⟩ := List.exists_cons_of_ne_nil h.1
      refine ⟨c, cs, rfl, ?_⟩
      rw [lexeme_atomChar (h.2 c (by simp)),
        Lexeme.run_eq (fun d hd => h.2 d (by simp [hd])) (hbehind rfl)]

/-- Nothing is found at an obstacle. -/
theorem lexeme_obstacle {c : Char} {behind : List Char} {reason : ReadFault}
    (h : Obstacle reason c behind) : lexeme c behind = .error reason := by
  cases h with
  | quote h =>
      have hclose : closeText ['"'] behind = none := by
        by_contra hsome
        obtain ⟨⟨text, rest⟩, hclosed⟩ := Option.ne_none_iff_exists'.1 hsome
        obtain ⟨body, hbody, rfl, -⟩ := literalRest_of_closeText hclosed
        exact h ('"' :: body) rest rfl ⟨body, rfl, hbody⟩
      simp [lexeme, isSeparator, hclose]
  | blank hblank hseparator hline =>
      have hatom : isAtomChar c = false := by simp [isAtomChar, hblank]
      have hdelimiter : isDelimiter c = false := by
        by_contra h
        simp only [isDelimiter, List.contains_eq_mem, List.mem_cons, List.not_mem_nil, or_false,
          Bool.not_eq_false, decide_eq_true_eq] at h
        revert hblank
        rcases h with rfl | rfl | rfl | rfl | rfl | rfl | rfl <;> decide
      rw [lexeme_other hdelimiter hseparator hline, if_neg (by simp [hatom])]

theorem lexFrom_separator {c : Char} (hc : isSeparator c = true) (line : Nat) (cs : List Char) :
    lexFrom line [] (c :: cs) = lexFrom line [] cs := by
  have hrun : ∀ c cs, isSeparator c = true →
      lexFrom line [] (c :: cs) = lexFrom line [] (cs.dropWhile isSeparator) := by
    intro c cs hc
    have hnone : lineEnds (Lexeme.run none isSeparator c cs).text = 0 := by
      refine List.count_eq_zero.2 fun h => ?_
      have := Lexeme.forall_run cs hc _ h
      revert this
      decide
    rw [lexFrom_filler (lexeme_separator hc cs) rfl, hnone]
    rfl
  cases cs with
  | nil => exact hrun c [] hc
  | cons d cs =>
      by_cases hd : isSeparator d = true
      · rw [hrun c _ hc, List.dropWhile_cons_of_pos hd, hrun d cs hd]
      · rw [hrun c _ hc, List.dropWhile_cons_of_neg hd]

/-- Filler is passed over, and its line ends are counted. -/
theorem lexFrom_of_filler {gap behind : List Char} (h : Filler gap behind) (line : Nat) :
    lexFrom line [] (gap ++ behind) = lexFrom (line + lineEnds gap) [] behind := by
  induction h generalizing line with
  | nil => rfl
  | @blank c cs behind hc _ ih =>
      have hcons : lineEnds (c :: cs) = lineEnds [c] + lineEnds cs := lineEnds_append [c] cs
      rw [List.cons_append, hcons, ← Nat.add_assoc, ← ih]
      rcases hc with hc | rfl
      · have hnone : lineEnds [c] = 0 := by
          refine List.count_eq_zero.2 fun h => ?_
          obtain rfl := List.mem_singleton.1 h
          revert hc
          decide
        rw [lexFrom_separator hc, hnone, Nat.add_zero]
      · exact lexFrom_filler (l := ⟨none, ['\n'], cs ++ behind⟩) rfl rfl
  | @comment body cs behind hbody hend _ ih =>
      have hrun : lexeme ';' (body ++ (cs ++ behind)) = .ok ⟨none, ';' :: body, cs ++ behind⟩ := by
        refine congrArg Except.ok (Lexeme.run_eq (fun d hd => ?_) fun d hd => ?_)
        · have hne : d ≠ '\n' := fun h => hbody (h ▸ hd)
          simpa using hne
        · simp [hend d hd]
      have hnone : lineEnds (';' :: body) = 0 := List.count_eq_zero.2 (by simpa using hbody)
      have hcons : lineEnds (';' :: (body ++ cs)) = lineEnds (';' :: body) + lineEnds cs :=
        lineEnds_append (';' :: body) cs
      rw [List.cons_append, List.append_assoc, lexFrom_filler hrun rfl, hcons, hnone, ih]
      simp

/-- A token is cut off where it stands. -/
theorem lexFrom_of_standsBetween {t : Token} {before behind : List Char}
    (h : t.StandsBetween before behind) :
    lexFrom (1 + lineEnds before) [] (t.text.toList ++ behind) =
      (lexFrom (1 + lineEnds (before ++ t.text.toList)) [] behind).cons t := by
  obtain ⟨c, cs, htext, hlexeme⟩ := lexeme_of_writes h.writes fun hatom => (h.maximal hatom).2
  have htoken : (⟨t.kind, String.ofList t.text.toList, 1 + lineEnds before⟩ : Token) = t := by
    rw [← h.line, String.ofList_toList]
  calc
    lexFrom (1 + lineEnds before) [] (t.text.toList ++ behind)
    _ = lexFrom (1 + lineEnds before) [] (c :: (cs ++ behind)) := by rw [htext, List.cons_append]
    _ = (lexFrom (1 + lineEnds before + lineEnds t.text.toList) [] behind).cons
          ⟨t.kind, String.ofList t.text.toList, 1 + lineEnds before⟩ := lexFrom_token hlexeme rfl
    _ = _ := by rw [htoken, Nat.add_assoc, ← lineEnds_append]

/-- A text is cut in no other way than by the lexer. -/
theorem lexFrom_of_cut {before cs : List Char} {l : Lexed} (h : Cut before cs l) :
    lexFrom (1 + lineEnds before) [] cs = l := by
  induction h with
  | finished hgap =>
      have hnil := lexFrom_of_filler hgap
      simp only [List.append_nil] at hnil
      rw [hnil, lexFrom_nil]
      rfl
  | stuck hgap hreason hline =>
      rw [lexFrom_of_filler hgap, lexFrom_obstacle (lexeme_obstacle hreason), hline, lineEnds_append,
        Nat.add_assoc]
      rfl
  | token hgap ht _ ih =>
      rw [lexFrom_of_filler hgap, Nat.add_assoc, ← lineEnds_append, lexFrom_of_standsBetween ht, ih]
      rfl

/-! ## Whole sources -/

theorem cut_lex (source : String) : Cut [] source.toList (lex source) :=
  cut_lexFrom [] source.toList fun c hc => by cases hc

/-- The lexer cuts every source into its tokens, which stand in it in order with nothing but filler
between them, each on the line that it starts in, and each atom as long as can be. It comes to the
end of the source or to an obstacle, and what is left of the source in front of that is filler too.
There is no other way to cut a source. -/
theorem lex_eq_iff_cut (source : String) (l : Lexed) : lex source = l ↔ Cut [] source.toList l :=
  ⟨fun h => h ▸ cut_lex source, fun h => lexFrom_of_cut h⟩

end FormLang
