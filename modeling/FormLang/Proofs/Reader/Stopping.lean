import FormLang.Proofs.Reader.Integers
import FormLang.Proofs.Reader.Parsing

set_option autoImplicit false

/-! # Where reading stops

Reading fails at the first thing that is in the way, from left to right: a token that no program can
go on with, an integer that is too long, the place where the lexer fails, or the end of the source
(`Lexed.StopsWith`, `read_eq_error_iff_stopsWith`). That a token can go on is said by the grammar
alone (`Viable`). The reader takes notice of it at once, since the brackets that are open are all
that it needs to know of the tokens before (`Stream.standing_of_passable`).
-/

namespace FormLang

/-! ## What a program can go on with -/

/-- Is there a sentence that begins with tokens of these kinds? -/
def Viable (kinds : List TokenKind) : Prop := ∃ more, Sentence (kinds ++ more)

/-- Nothing is wrong with the tokens so far: some sentence begins with them, and none of them is an
integer of more digits than can be read. -/
structure Passable (ts : List Token) : Prop where
  viable : Viable (ts.map (·.kind))
  short : ∀ t ∈ ts, t.IsShort

/-- The first thing that is in the way of a program with some tokens, and the failure that it leads
to. What follows it is left open. -/
inductive Lexed.StopsWith : Lexed → Failure → Prop where
  /-- The lexer finds no further token. -/
  | lexer {ts : List Token} {reason : ReadFault} {line : Nat} (hbefore : Passable ts) :
      StopsWith ⟨ts, some (reason, line)⟩ (Stream.readError reason line)
  /-- Inside an expression there is a token that no sentence goes on with. -/
  | unexpected {before behind : List Token} {t : Token} {failure : Option (ReadFault × Nat)}
      (hbefore : Passable before) (hopen : ¬Sentence (before.map (·.kind)))
      (ht : ¬Viable ((before ++ [t]).map (·.kind))) :
      StopsWith ⟨before ++ t :: behind, failure⟩
        (Stream.readError (.unexpectedToken t.text) t.line)
  /-- Behind a whole expression there is a token. -/
  | trailing {before behind : List Token} {t : Token} {failure : Option (ReadFault × Nat)}
      (hbefore : Passable before) (hwhole : Sentence (before.map (·.kind)))
      (ht : ¬Viable ((before ++ [t]).map (·.kind))) :
      StopsWith ⟨before ++ t :: behind, failure⟩ (Stream.readError (.trailing t.text) t.line)
  /-- A token that a sentence goes on with is an integer of too many digits. -/
  | digits {before behind : List Token} {t : Token} {failure : Option (ReadFault × Nat)}
      {negative : Bool} {digits : List Char} (hbefore : Passable before)
      (ht : Viable ((before ++ [t]).map (·.kind))) (hkind : t.kind = .atom)
      (hdigits : signedDigits? t.text.toList = some (negative, digits))
      (hlong : digitLimit < digits.length) :
      StopsWith ⟨before ++ t :: behind, failure⟩ (.fault (.literalDigits digits.length))
  /-- The source ends, and there is no token in it. -/
  | empty : StopsWith ⟨[], none⟩ (Stream.readError .emptyProgram 1)
  /-- The source ends behind whole expressions that stand in a bracket which is still open. -/
  | unbalanced {before inside : List Token} {opening last : Token} {b : Bracket}
      (hts : Passable (before ++ opening :: inside)) (hopening : opening.kind = .opening b)
      (hinside : Sentences (inside.map (·.kind)))
      (hlast : (before ++ opening :: inside).getLast? = some last) :
      StopsWith ⟨before ++ opening :: inside, none⟩
        (Stream.readError (.unbalanced opening.line) last.line)

theorem Viable.of_append {kinds more : List TokenKind} (h : Viable (kinds ++ more)) :
    Viable kinds := by
  obtain ⟨rest, h⟩ := h
  rw [List.append_assoc] at h
  exact ⟨more ++ rest, h⟩

section

variable {ts us before : List Token} {t : Token} {n : Node}

theorem Sentence.viable {kinds : List TokenKind} (h : Sentence kinds) : Viable kinds :=
  ⟨[], by rwa [List.append_nil]⟩

theorem Passable.of_append (h : Passable (ts ++ us)) : Passable ts := by
  refine ⟨?_, fun t ht => h.short t (List.mem_append_left us ht)⟩
  have hviable := h.viable
  rw [List.map_append] at hviable
  exact hviable.of_append

theorem passable_nil : Passable [] := ⟨⟨[.atom], .atom⟩, by simp⟩

theorem Passable.concat (h : Passable ts) (ht : Viable ((ts ++ [t]).map (·.kind)))
    (hshort : t.IsShort) : Passable (ts ++ [t]) := by
  refine ⟨ht, fun u hu => ?_⟩
  rcases List.mem_append.1 hu with hu | hu
  · exact h.short u hu
  · rwa [List.mem_singleton.1 hu]

theorem Node.SpelledBy.ne_nil (h : n.SpelledBy ts) : ts ≠ [] := by
  rintro rfl
  have hsentence : Sentence [] := h.sentence
  cases hsentence

/-- A token of a kind that is never too long. -/
def TokenKind.sample (kind : TokenKind) : Token := ⟨kind, "", 0⟩

theorem TokenKind.isShort_sample (kind : TokenKind) : kind.sample.IsShort := by
  intro _ negative digits h
  cases h

end

namespace Stream

variable {failure : Option (ReadFault × Nat)} {line : Nat} {levels outer : List Level} {l : Level}
  {t : Token} {ts rest : List Token} {b : Bracket} {n : Node}

/-! ## Going on inside brackets -/

/-- Tokens that end in a node which is delivered begin a sentence. -/
theorem viable_of_spelled (h : Spelled ts (openPieces levels ++ n.pieces)) :
    Viable (ts.map (·.kind)) := by
  induction levels generalizing ts n with
  | nil =>
      have hspelled : n.SpelledBy ts := h
      exact hspelled.sentence.viable
  | cons l outer ih =>
      -- The innermost bracket can be closed, which delivers a node to those around it.
      have hpieces := deliver_pieces n (l :: outer)
      rw [← hpieces] at h
      have hkind : (TokenKind.closing l.bracket).sample.kind = .closing l.bracket := rfl
      have hclosed := spelled_closing h hkind
      have hviable := ih hclosed
      rw [List.map_append] at hviable
      exact hviable.of_append

/-- Tokens of brackets that are open begin a sentence. -/
theorem viable_of_spelled_open (h : Spelled ts (openPieces levels)) : Viable (ts.map (·.kind)) := by
  have hleaf : (TokenKind.text.sample).Spells (.leaf (.text 0 (unescape ""))) := .inr ⟨rfl, rfl⟩
  have hviable := viable_of_spelled (h.append hleaf.spelledBy)
  rw [List.map_append] at hviable
  exact hviable.of_append

/-- Inside brackets a sentence goes on with any token but one that closes another bracket. -/
theorem viable_or_mismatched (h : Spelled ts (openPieces levels)) (t : Token) :
    Viable ((ts ++ [t]).map (·.kind)) ∨
      ∃ b, t.kind = .closing b ∧ ∀ l ∈ levels.head?, l.bracket ≠ b := by
  have hleaf : ∀ n, t.kind.sample.Spells (.leaf n) → Viable ((ts ++ [t]).map (·.kind)) := by
    intro n hn
    have hviable := viable_of_spelled (h.append hn.spelledBy)
    rw [List.map_append] at hviable ⊢
    exact hviable
  cases hkind : t.kind with
  | opening b =>
      have hopen : Spelled (ts ++ [t]) (openPieces (⟨b, t.line, []⟩ :: levels)) :=
        h.append (spelled_singleton hkind)
      exact .inl (viable_of_spelled_open hopen)
  | closing b =>
      cases levels with
      | nil => exact .inr ⟨b, rfl, by simp⟩
      | cons l outer =>
          by_cases hb : l.bracket = b
          · exact .inl (viable_of_spelled (spelled_closing h (by rw [hkind, hb])))
          · exact .inr ⟨b, rfl, by simpa using hb⟩
  | text => exact .inl (hleaf _ (.inr ⟨hkind, rfl⟩))
  | atom => exact .inl (hleaf (.symbol 0 "") (.inl ⟨hkind, rfl⟩))

/-- A bracket that closes another one than the innermost is refused. -/
theorem parseFrom_mismatched (failure : Option (ReadFault × Nat)) (line : Nat) (rest : List Token)
    (hkind : t.kind = .closing b) (hb : ∀ l ∈ levels.head?, l.bracket ≠ b) :
    (parseFrom failure line levels (t :: rest)).1 =
      .error (readError (.unexpectedToken t.text) t.line) := by
  rw [parseFrom.eq_def]
  dsimp only
  rw [hkind]
  cases levels with
  | nil => rfl
  | cons l outer =>
      dsimp only
      rw [if_neg (hb l rfl)]

/-! ## What the reader knows of the tokens before -/

/-- What the reader has made of some tokens: brackets are open, or there is a whole expression. -/
inductive Standing (ts : List Token) : Prop where
  | inside (levels : List Level) (hspelled : Spelled ts (openPieces levels))
      (h : ∀ failure rest, parseFrom failure 1 [] (ts ++ rest) =
        parseFrom failure (lineBehind 1 ts) levels rest)
  | whole (n : Node) (hspelled : n.SpelledBy ts)

theorem parseFrom_whole (h : n.SpelledBy ts) (failure : Option (ReadFault × Nat))
    (rest : List Token) :
    parseFrom failure 1 [] (ts ++ rest) = (.ok n, ⟨[], rest, failure, lineBehind 1 ts⟩) :=
  parseFrom_node failure h 1 [] rest

theorem standing_of_goOn (hspelled : Spelled ts (openPieces levels ++ n.pieces))
    (h : ∀ failure rest, parseFrom failure 1 [] (ts ++ rest) =
      goOn failure (lineBehind 1 ts) n levels rest) : Standing ts := by
  have hpieces := deliver_pieces n levels
  cases levels with
  | nil => exact .whole n hspelled
  | cons l outer =>
      rw [← hpieces] at hspelled
      exact .inside _ hspelled h

/-- Tokens that begin a sentence are read together with some others of the kinds that complete it.
-/
theorem exists_parse_of_sentence {more : List TokenKind}
    (hsentence : Sentence (ts.map (·.kind) ++ more)) (hshort : ∀ t ∈ ts, t.IsShort) :
    ∃ n line, parseFrom none 1 [] (ts ++ more.map TokenKind.sample) =
      (.ok n, ⟨[], [], none, line⟩) := by
  have hkinds : (ts ++ more.map TokenKind.sample).map (·.kind) = ts.map (·.kind) ++ more := by
    rw [List.map_append, List.map_map]
    exact congrArg _ (List.map_id more)
  have hall : ∀ t ∈ ts ++ more.map TokenKind.sample, t.IsShort := by
    intro t ht
    rcases List.mem_append.1 ht with ht | ht
    · exact hshort t ht
    · obtain ⟨kind, -, rfl⟩ := List.mem_map.1 ht
      exact kind.isShort_sample
  obtain ⟨n, hn⟩ := hsentence.exists_node _ hkinds hall
  have hparse := parseFrom_whole hn none []
  rw [List.append_nil] at hparse
  exact ⟨n, _, hparse⟩

/-- No sentence goes on behind a whole expression. -/
theorem not_viable_of_whole (h : n.SpelledBy ts) (hshort : ∀ u ∈ ts, u.IsShort) (t : Token) :
    ¬Viable ((ts ++ [t]).map (·.kind)) := by
  rintro ⟨more, hsentence⟩
  rw [List.map_append, List.append_assoc] at hsentence
  obtain ⟨m, line, hparse⟩ := exists_parse_of_sentence hsentence hshort
  rw [parseFrom_whole h] at hparse
  cases hparse

/-- No sentence goes on with a bracket that closes another one than the innermost. -/
theorem not_viable_of_mismatched
    (h : ∀ rest, parseFrom none 1 [] (ts ++ rest) = parseFrom none (lineBehind 1 ts) levels rest)
    (hshort : ∀ u ∈ ts ++ [t], u.IsShort) (hkind : t.kind = .closing b)
    (hb : ∀ l ∈ levels.head?, l.bracket ≠ b) : ¬Viable ((ts ++ [t]).map (·.kind)) := by
  rintro ⟨more, hsentence⟩
  obtain ⟨n, line, hread⟩ := exists_parse_of_sentence hsentence hshort
  rw [List.append_assoc, h] at hread
  have hrefused := parseFrom_mismatched none (lineBehind 1 ts) (more.map TokenKind.sample) hkind hb
  rw [List.singleton_append] at hread
  rw [hread] at hrefused
  cases hrefused

/-- Behind tokens that nothing is wrong with, the reader stands inside some brackets, or it has read
a whole expression. -/
theorem standing_of_passable (h : Passable ts) : Standing ts := by
  induction ts using List.reverseRecOn with
  | nil => exact .inside [] .nil fun _ _ => rfl
  | append_singleton ts t ih =>
      cases ih h.of_append with
      | whole n hspelled =>
          exact absurd h.viable (not_viable_of_whole hspelled h.of_append.short t)
      | inside levels hspelled hparse =>
          -- The next token is the first one that is read inside the brackets.
          have hnext : ∀ failure rest, parseFrom failure 1 [] (ts ++ [t] ++ rest) =
              parseFrom failure (lineBehind 1 ts) levels (t :: rest) := fun failure rest => by
            rw [List.append_assoc, hparse, List.singleton_append]
          have hline : lineBehind 1 (ts ++ [t]) = t.line := by
            rw [lineBehind_append]
            rfl
          have hleaf : ∀ n, t.Spells (.leaf n) → Standing (ts ++ [t]) := by
            intro n hn
            refine standing_of_goOn (hspelled.append hn.spelledBy) fun failure rest => ?_
            rw [hnext, parseFrom_leaf hn, hline]
          cases hkind : t.kind with
          | opening b =>
              refine .inside (⟨b, t.line, []⟩ :: levels) ?_ fun failure rest => ?_
              · exact hspelled.append (spelled_singleton hkind)
              · rw [hnext, parseFrom_opening hkind, hline]
          | closing b =>
              by_cases hb : ∀ l ∈ levels.head?, l.bracket ≠ b
              · exact absurd h.viable (not_viable_of_mismatched (hparse none) h.short hkind hb)
              · cases levels with
                | nil => exact absurd (by simp) hb
                | cons l outer =>
                    have hmatch : l.bracket = b := by simpa using hb
                    have hclosing : t.kind = .closing l.bracket := by rw [hkind, hmatch]
                    have hclosed := spelled_closing hspelled hclosing
                    refine standing_of_goOn hclosed fun failure rest => ?_
                    rw [hnext, parseFrom_closing hclosing, hline]
          | text => exact hleaf _ (.inr ⟨hkind, rfl⟩)
          | atom =>
              obtain ⟨n, hn⟩ := exists_ofAtom hkind (h.short t (by simp))
              exact hleaf n (.inl ⟨hkind, hn⟩)

/-- An atom that writes an integer of too many digits is no node. -/
theorem parseFrom_digits {negative : Bool} {digits : List Char} (hkind : t.kind = .atom)
    (hdigits : signedDigits? t.text.toList = some (negative, digits))
    (hlong : digitLimit < digits.length) :
    (parseFrom failure line levels (t :: rest)).1 =
      .error (.fault (.literalDigits digits.length)) := by
  have hleaf : leaf t = .error (.literalDigits digits.length) := by
    rw [leaf, if_neg (by rw [hkind]; decide), Node.ofAtom.eq_def, hdigits]
    dsimp only
    rw [readInteger, if_pos hlong]
    rfl
  rw [parseFrom.eq_def]
  dsimp only
  rw [hkind, hleaf]

theorem lineBehind_of_getLast? {last : Token} (h : ts.getLast? = some last) (line : Nat) :
    lineBehind line ts = last.line := by
  obtain ⟨before, rfl⟩ := List.getLast?_eq_some_iff.1 h
  rw [lineBehind_append]
  rfl

end Stream

/-! ## Reading fails there -/

section

variable {source : String} {ts before : List Token} {t : Token} {failure : Option (ReadFault × Nat)}
  {n : Node} {f : Failure}

open FormLang.Stream

/-- What is read of a source when its first tokens are a whole expression. -/
theorem read_of_whole {us : List Token} (hlex : lex source = ⟨ts ++ us, failure⟩)
    (h : n.SpelledBy ts) : read source = finish n ⟨[], us, failure, lineBehind 1 ts⟩ := by
  have hne : (lex source).tokens ≠ [] := by
    rw [hlex]
    exact List.append_ne_nil_of_left_ne_nil h.ne_nil us
  rw [read_of_tokens hne, hlex]
  dsimp only
  rw [parseFrom_whole h]

/-- A source is not read when its expression is not. -/
theorem read_of_parse_error (hlex : lex source = ⟨ts, failure⟩) (hne : ts ≠ [])
    (h : (parseFrom failure 1 [] ts).1 = .error f) : read source = .error f := by
  rw [read_of_tokens (by rw [hlex]; exact hne), hlex]
  dsimp only
  rcases hparse : parseFrom failure 1 [] ts with ⟨f' | n, s⟩ <;> rw [hparse] at h <;> cases h
  rfl

/-- A row of too many digits is not read, and that is no error of the language. -/
theorem read_digits {digits : List Char} (hdigits : ∀ c ∈ digits, c.isDigit = true)
    (hlong : digitLimit < digits.length) :
    read (String.ofList digits) = .error (.fault (.literalDigits digits.length)) := by
  have hne : digits ≠ [] := by
    rintro rfl
    cases hlong
  refine read_of_parse_error (lex_digits hne hdigits) (List.cons_ne_nil _ _) ?_
  have hsigned : signedDigits? (String.ofList digits).toList = some (false, digits) := by
    rw [String.toList_ofList, signedDigits?_digits hne hdigits]
  exact parseFrom_digits rfl hsigned hlong

/-- Reading fails with the first thing that is in the way. -/
theorem Lexed.StopsWith.read_eq {l : Lexed} (h : l.StopsWith f) (hlex : lex source = l) :
    read source = .error f := by
  cases h with
  | @lexer ts reason line hbefore =>
      cases standing_of_passable hbefore with
      | whole n hspelled =>
          rw [← List.append_nil ts] at hlex
          rw [read_of_whole hlex hspelled]
          rfl
      | inside levels hspelled hparse =>
          by_cases hne : ts = []
          · subst hne
            rw [read_of_no_tokens (by rw [hlex]), hlex]
          · refine read_of_parse_error hlex hne ?_
            have h := hparse (some (reason, line)) []
            rw [List.append_nil] at h
            rw [h, parseFrom.eq_def]
            rfl
  | @unexpected before behind t failure hbefore hopen ht =>
      cases standing_of_passable hbefore with
      | whole n hspelled => exact absurd hspelled.sentence hopen
      | inside levels hspelled hparse =>
          refine read_of_parse_error hlex (by simp) ?_
          rw [hparse]
          rcases viable_or_mismatched hspelled t with hviable | ⟨b, hkind, hb⟩
          · exact absurd hviable ht
          · exact parseFrom_mismatched failure _ behind hkind hb
  | @trailing before behind t failure hbefore hwhole ht =>
      obtain ⟨n, hn⟩ := hwhole.exists_node before rfl hbefore.short
      rw [read_of_whole hlex hn]
      rfl
  | @digits before behind t failure negative digits hbefore ht hkind hdigits hlong =>
      cases standing_of_passable hbefore with
      | whole n hspelled => exact absurd ht (not_viable_of_whole hspelled hbefore.short t)
      | inside levels hspelled hparse =>
          refine read_of_parse_error hlex (by simp) ?_
          rw [hparse]
          exact parseFrom_digits hkind hdigits hlong
  | empty =>
      rw [read_of_no_tokens (by rw [hlex]), hlex]
  | @unbalanced before inside opening last b hts hopening hinside hlast =>
      have hopened : Passable (before ++ [opening]) := by
        rw [List.append_cons] at hts
        exact hts.of_append
      cases standing_of_passable hopened.of_append with
      | whole n hspelled =>
          exact absurd hopened.viable
            (not_viable_of_whole hspelled hopened.of_append.short opening)
      | inside levels hspelled hparse =>
          refine read_of_parse_error hlex (by simp) ?_
          obtain ⟨ns, hns⟩ := hinside.exists_nodes inside rfl fun t ht => hts.short t (by simp [ht])
          have hnodes := parseFrom_nodes none hns levels opening.line ⟨b, opening.line, []⟩ []
          have hline : lineBehind opening.line inside = last.line := by
            rw [← lineBehind_of_getLast? hlast 1, lineBehind_append]
            rfl
          rw [List.append_nil, hline] at hnodes
          rw [hparse, parseFrom_opening hopening, hnodes, parseFrom.eq_def]
          rfl

/-! ## Something is in the way, or nothing is -/

/-- Going through the tokens from left to right, one comes to something that is in the way, or to
the last of them. -/
theorem exists_stopsWith_or_passable {behind : List Token} (failure : Option (ReadFault × Nat))
    (h : Passable before) :
    (∃ f, Lexed.StopsWith ⟨before ++ behind, failure⟩ f) ∨ Passable (before ++ behind) := by
  induction behind generalizing before with
  | nil => exact .inr (by rwa [List.append_nil])
  | cons t behind ih =>
      by_cases ht : Viable ((before ++ [t]).map (·.kind))
      · by_cases hshort : t.IsShort
        · rw [List.append_cons]
          exact ih (h.concat ht hshort)
        · obtain ⟨hkind, negative, digits, hdigits, hlong⟩ : t.kind = .atom ∧
              ∃ negative digits, signedDigits? t.text.toList = some (negative, digits) ∧
                digitLimit < digits.length := by
            simpa only [Token.IsShort, Classical.not_forall, Nat.not_le, exists_prop] using hshort
          exact .inl ⟨_, .digits h ht hkind hdigits hlong⟩
      · by_cases hwhole : Sentence (before.map (·.kind))
        · exact .inl ⟨_, .trailing h hwhole ht⟩
        · exact .inl ⟨_, .unexpected h hwhole ht⟩

/-- At the end of the source an expression is whole, or there is a reason why it is not. -/
theorem exists_stopsWith_or_sentence (h : Passable ts) :
    (∃ f, Lexed.StopsWith ⟨ts, none⟩ f) ∨ Sentence (ts.map (·.kind)) := by
  cases standing_of_passable h with
  | whole n hspelled => exact .inr hspelled.sentence
  | inside levels hspelled hparse =>
      cases levels with
      | nil =>
          cases hspelled
          exact .inl ⟨_, .empty⟩
      | cons l outer =>
          -- The innermost level is the bracket that is reported.
          obtain ⟨before, behind, rfl, -, hlevel⟩ := of_spelled_append hspelled
          obtain ⟨opening, inside, hopening, hinside, rfl⟩ := List.forall₂_cons_right_iff.1 hlevel
          have hlast : (before ++ opening :: inside).getLast? =
              some ((before ++ opening :: inside).getLast (by simp)) :=
            List.getLast?_eq_some_getLast _
          exact .inl ⟨_, .unbalanced h hopening (sentences_of_spelled hinside) hlast⟩

end

/-- Reading a source fails with a failure just when that is what the first thing in the way of it
leads to, from left to right; in so many words, as far as the reader has any of its own. -/
theorem read_eq_error_iff_stopsWith (source : String) :
    (∀ f, read source = .error f ↔ (lex source).StopsWith f) ∧
      (∀ text, (ReadFault.unexpectedToken text).text = "unexpected " ++ quoted text) ∧
      (∀ text, (ReadFault.trailing text).text =
        "unexpected " ++ quoted text ++ " after end of expression") ∧
      ReadFault.emptyProgram.text = "empty program" ∧
      ∀ line : Nat, (ReadFault.unbalanced line).text =
        "unbalanced brackets opened at line " ++ toString line := by
  refine ⟨fun f => ⟨fun hread => ?_, fun h => h.read_eq rfl⟩, fun _ => rfl, fun _ => rfl, rfl,
    fun _ => rfl⟩
  -- If nothing were in the way, the source would be read.
  have hstops : ∃ g, (lex source).StopsWith g := by
    rcases hlex : lex source with ⟨ts, failure⟩
    rcases exists_stopsWith_or_passable failure passable_nil with hstops | hts
    · exact hstops
    · rw [List.nil_append] at hts
      cases failure with
      | some reason => exact ⟨_, .lexer hts⟩
      | none =>
          refine (exists_stopsWith_or_sentence hts).resolve_right fun hsentence => ?_
          obtain ⟨n, hn⟩ := hsentence.exists_node ts rfl hts.short
          have hread' : read source = .ok n :=
            (read_eq_ok_iff_spelledBy (by rw [hlex])).2 (by rwa [hlex])
          rw [hread] at hread'
          cases hread'
  obtain ⟨g, hg⟩ := hstops
  have hread' := hg.read_eq rfl
  rw [hread] at hread'
  cases hread'
  exact hg

end FormLang
