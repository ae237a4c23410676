import FormLang.Proofs.Reader.Cutting
import FormLang.Proofs.Reader.Descent
import FormLang.Proofs.Reader.Stopping

set_option autoImplicit false

/-! # Streams lose nothing

A stream is asked for tokens and for expressions in any order, and goes on after errors. Between two
of its states some tokens have been handed out, and the failure of the lexer may have come up
(`Stream.Passes`): this holds of one look ahead and of one token, so of an expression that is read by
descent, however it ends, and of any row of steps. What has been handed out and what is left are
therefore the tokens of the source, and the failure is in one answer only (`stream_accounts`).
-/

namespace FormLang

/-! ## The failure of the lexer -/

/-- Is it a failure of the lexer? -/
def Failure.isOfLexer : Failure → Bool
  | .error (.unreadable (.unexpectedCharacter _) _) | .error (.unreadable .unterminatedText _) =>
    true
  | _ => false

/-- The failure of the lexer that a result brings up, if it does. -/
def raised {α : Type} : Except Failure α → List Failure
  | .error f => [f].filter Failure.isOfLexer
  | .ok _ => []

@[simp] theorem raised_ok {α : Type} (a : α) : raised (.ok a : Except Failure α) = [] := rfl

theorem raised_map {α β : Type} (g : α → β) (r : Except Failure α) :
    raised (r.map g) = raised r := by
  cases r <;> rfl

theorem raised_liftFault {α : Type} (r : Except Fault α) : raised (liftFault r) = [] := by
  cases r <;> rfl

namespace Stream

/-- The token that is handed out with an answer, if any. -/
def handedOut : Except Failure (Option Token) → List Token
  | .ok (some t) => [t]
  | _ => []

/-- The failure that the stream has still to bring up, if there is one. -/
def unraised (s : Stream) : List Failure :=
  s.failure.toList.map fun (reason, line) => readError reason line

theorem Cut.isOfLexer {before cs : List Char} {l : Lexed} (h : Cut before cs l) :
    ∀ f ∈ (ofLexed l).unraised, f.isOfLexer = true := by
  induction h with
  | finished hgap => simp [ofLexed, unraised]
  | stuck hgap hreason hline => cases hreason <;> simp [ofLexed, unraised, readError, Failure.isOfLexer]
  | token hgap ht h ih => exact ih

theorem isOfLexer_of_lex (source : String) :
    ∀ f ∈ (ofLexed (lex source)).unraised, f.isOfLexer = true :=
  Cut.isOfLexer (cut_lex source)

/-! ## What passes through a stream -/

/-- From one stream to another, some tokens are handed out and some failures of the lexer brought
up, the latter only behind all of the tokens. -/
structure Passes (s : Stream) (ts : List Token) (fs : List Failure) (s' : Stream) : Prop where
  tokens : ts ++ s'.pending = s.pending
  failures : fs ++ s'.unraised = s.unraised
  line : s'.line = lineBehind s.line ts
  last : fs ≠ [] → s'.pending = []

section

variable {s s' s'' : Stream} {ts us : List Token} {fs gs : List Failure}

theorem Passes.refl (s : Stream) : Passes s [] [] s := ⟨rfl, rfl, rfl, fun h => absurd rfl h⟩

theorem Passes.trans (h : Passes s ts fs s') (h' : Passes s' us gs s'') :
    Passes s (ts ++ us) (fs ++ gs) s'' where
  tokens := by rw [List.append_assoc, h'.tokens, h.tokens]
  failures := by rw [List.append_assoc, h'.failures, h.failures]
  line := by rw [lineBehind_append, ← h.line, h'.line]
  last := by
    intro hne
    by_cases hgs : gs = []
    · have hnil : s'.pending = [] := h.last fun hfs => hne (by rw [hfs, hgs]; rfl)
      rw [← h'.tokens] at hnil
      exact (List.append_eq_nil_iff.1 hnil).2
    · exact h'.last hgs

theorem Passes.isOfLexer (h : Passes s ts fs s') (hlexer : ∀ f ∈ s.unraised, f.isOfLexer = true) :
    ∀ f ∈ s'.unraised, f.isOfLexer = true := by
  intro f hf
  refine hlexer f ?_
  rw [← h.failures]
  exact List.mem_append_right fs hf

/-! ### One step -/

/-- Behind the last token, the failure of the lexer comes up, or nothing does. -/
theorem failAtEnd_eq (s : Stream) :
    (s.failAtEnd = none ∧ s.unraised = []) ∨
      ∃ f, s.failAtEnd = some (f, s.exhausted) ∧ s.unraised = [f] := by
  obtain ⟨buffered, rest, failure, line⟩ := s
  cases failure with
  | none => exact .inl ⟨rfl, rfl⟩
  | some p => exact .inr ⟨_, rfl, rfl⟩

theorem raised_of_isOfLexer {α : Type} {f : Failure} (h : f.isOfLexer = true) :
    raised (.error f : Except Failure α) = [f] := by
  simp [raised, h]

theorem Passes.exhausted {f : Failure} (hpending : s.pending = []) (h : s.unraised = [f])
    (hlexer : ∀ f ∈ s.unraised, f.isOfLexer = true) :
    Passes s [] (raised (.error f : Except Failure (Option Token))) s.exhausted := by
  have hraised : raised (.error f : Except Failure (Option Token)) = [f] :=
    raised_of_isOfLexer (hlexer f (by rw [h]; exact List.mem_singleton_self f))
  refine ⟨rfl, ?_, rfl, fun _ => hpending⟩
  rw [hraised, h]
  rfl

theorem passes_peek (s : Stream) (hlexer : ∀ f ∈ s.unraised, f.isOfLexer = true) :
    Passes s [] (raised s.peek.1) s.peek.2 := by
  cases hpending : s.pending with
  | cons t rest =>
      obtain ⟨hfound, hleft, hfailure, hline⟩ := peek_of_pending hpending
      rw [hfound]
      refine ⟨hleft.trans hpending.symm, ?_, hline, fun h => absurd rfl h⟩
      rw [unraised, hfailure]
      rfl
  | nil =>
      rw [peek_of_pending_nil hpending]
      rcases failAtEnd_eq s with ⟨hend, -⟩ | ⟨f, hend, hf⟩
      · rw [hend]
        exact .refl s
      · rw [hend]
        exact .exhausted hpending hf hlexer

theorem passes_advance (s : Stream) (hlexer : ∀ f ∈ s.unraised, f.isOfLexer = true) :
    Passes s (handedOut s.advance.1) (raised s.advance.1) s.advance.2 := by
  cases hpending : s.pending with
  | cons t rest =>
      obtain ⟨hfound, hleft, hfailure, hline⟩ := advance_of_pending hpending
      rw [hfound]
      refine ⟨?_, ?_, hline, fun h => absurd rfl h⟩
      · rw [hleft, hpending]
        rfl
      · rw [unraised, hfailure]
        rfl
  | nil =>
      rw [advance_of_pending_nil hpending]
      rcases failAtEnd_eq s with ⟨hend, -⟩ | ⟨f, hend, hf⟩
      · rw [hend]
        exact .refl s
      · rw [hend]
        exact .exhausted hpending hf hlexer

theorem Passes.of_peek {r : Except Failure (Option Token)} (h : s.peek = (r, s'))
    (hlexer : ∀ f ∈ s.unraised, f.isOfLexer = true) : Passes s [] (raised r) s' := by
  have hpasses := passes_peek s hlexer
  rwa [h] at hpasses

theorem Passes.of_advance {r : Except Failure (Option Token)} (h : s.advance = (r, s'))
    (hlexer : ∀ f ∈ s.unraised, f.isOfLexer = true) :
    Passes s (handedOut r) (raised r) s' := by
  have hpasses := passes_advance s hlexer
  rwa [h] at hpasses

end

mutual
/-- What is handed out on the way down into an expression is the next tokens, and nothing is left
out, whether reading ends or stops. -/
theorem Descends.passes : ∀ {s s' : Stream} {ts : List Token} {r : Except Failure Node},
    Descends s ts r s' → (∀ f ∈ s.unraised, f.isOfLexer = true) → Passes s ts (raised r) s'
  | _, _, _, _, .failed h, hlexer => .of_advance h hlexer
  | _, _, _, _, .ended h, hlexer => .of_advance h hlexer
  | _, _, _, _, .leaf h _, hlexer => by
      rw [raised_liftFault]
      exact .of_advance h hlexer
  | _, _, _, _, .closing h _, hlexer => .of_advance h hlexer
  | _, _, _, _, .opening h _ hinside, hlexer => by
      have hfirst := Passes.of_advance h hlexer
      rw [raised_map]
      exact hfirst.trans (hinside.passes (hfirst.isOfLexer hlexer))

theorem Gathers.passes : ∀ {b : Bracket} {openedAt : Nat} {ns : List Node} {s s' : Stream}
    {ts : List Token} {r : Except Failure (List Node)}, Gathers b openedAt ns s ts r s' →
    (∀ f ∈ s.unraised, f.isOfLexer = true) → Passes s ts (raised r) s'
  | _, _, _, _, _, _, _, .failed h, hlexer => .of_peek h hlexer
  | _, _, _, _, _, _, _, .ended h, hlexer => .of_peek h hlexer
  | _, _, _, _, _, _, _, .closed h _ hadvance, hlexer => by
      have hfirst := Passes.of_peek h hlexer
      exact hfirst.trans (.of_advance hadvance (hfirst.isOfLexer hlexer))
  | _, _, _, _, _, _, _, .mismatched h _ _, hlexer => .of_peek h hlexer
  | _, _, _, _, _, _, _, .stopped h _ hitem, hlexer => by
      have hfirst := Passes.of_peek h hlexer
      exact hfirst.trans (hitem.passes (hfirst.isOfLexer hlexer))
  | _, _, _, _, _, _, _, .item h _ hitem hrest, hlexer => by
      have hfirst := Passes.of_peek h hlexer
      have hnode := hfirst.trans (hitem.passes (hfirst.isOfLexer hlexer))
      exact hnode.trans (hrest.passes (hnode.isOfLexer hlexer))
end

/-! ## Any row of steps -/

/-- What a stream can be asked for. -/
inductive Move where
  | peek
  | advance
  | parse

/-- What a stream answers: a token, none at the end, or an expression. -/
inductive Answer where
  | token (r : Except Failure (Option Token))
  | expression (r : Except Failure Node)

/-- The answer to a move, and the stream after it. -/
def answer (s : Stream) : Move → Answer × Stream
  | .peek => (.token s.peek.1, s.peek.2)
  | .advance => (.token s.advance.1, s.advance.2)
  | .parse => (.expression s.parse.1, s.parse.2)

/-- The failure of the lexer that an answer brings up, if it does. -/
def Answer.raised : Answer → List Failure
  | .token r => FormLang.raised r
  | .expression r => FormLang.raised r

/-- The tokens that are handed out when a move is answered. -/
inductive HandsOut (s : Stream) : Move → List Token → Prop where
  | peek : HandsOut s .peek []
  | advance : HandsOut s .advance (handedOut s.advance.1)
  | parse {ts : List Token} (h : Descends s ts s.parse.1 s.parse.2) : HandsOut s .parse ts

/-- Some moves, one after the other and whatever the answers are: the tokens that are handed out,
the answers, and the stream after the last of them. -/
inductive Session : Stream → List Move → List Token → List Answer → Stream → Prop where
  | done (s : Stream) : Session s [] [] [] s
  | step {s s' : Stream} {m : Move} {ms : List Move} {ts us : List Token} {answers : List Answer}
      (h : HandsOut s m ts) (hrest : Session (s.answer m).2 ms us answers s') :
      Session s (m :: ms) (ts ++ us) ((s.answer m).1 :: answers) s'

/-- The answer to a move at the end of the tokens, behind a line. -/
def answerAtEnd (line : Nat) : Move → Answer
  | .peek => .token (.ok none)
  | .advance => .token (.ok none)
  | .parse => .expression (.error (readError .endOfInput line))

/-- A stream over tokens that has handed out some of them and has given some answers, and how it
goes on. -/
structure Accounts (l : Lexed) (taken : List Token) (answers : List Answer) (s : Stream) :
    Prop where
  buffer : s.buffered.length ≤ 1
  tokens : taken ++ (s.buffered ++ s.rest) = l.tokens
  line : s.line = (taken.getLast?.map (·.line)).getD 1
  peek_keeps : s.peek.2.pending = s.pending ∧ s.peek.2.line = s.line
  peek_tells : ∀ found, s.peek.1 = .ok found →
    s.peek.2.peek = (.ok found, s.peek.2) ∧ s.advance.1 = .ok found ∧ s.peek.2.advance = s.advance
  failures : answers.flatMap Answer.raised ++ s.unraised = (ofLexed l).unraised
  raises : s.pending = [] → ∀ f ∈ s.unraised, ∀ m, (s.answer m).1.raised = [f]
  ended : s.pending = [] → s.unraised = [] → ∀ m, s.answer m = (answerAtEnd s.line m, s)
  last : answers.flatMap Answer.raised ≠ [] → s.pending = [] ∧ s.unraised = []

section

variable {s s' : Stream} {m : Move} {ms : List Move} {ts taken : List Token}
  {answers : List Answer}

theorem OneAhead.peek (h : s.OneAhead) : s.peek.2.OneAhead := by
  obtain ⟨_ | ⟨t, buffered⟩, waiting, failure, line⟩ := s
  · rcases waiting with _ | ⟨t, rest⟩
    · cases failure <;> exact Nat.zero_le 1
    · exact Nat.le_refl 1
  · exact h

theorem OneAhead.advance (h : s.OneAhead) : s.advance.2.OneAhead := by
  obtain ⟨_ | ⟨t, buffered⟩, waiting, failure, line⟩ := s
  · rcases waiting with _ | ⟨t, rest⟩
    · cases failure <;> exact Nat.zero_le 1
    · exact Nat.zero_le 1
  · exact Nat.le_of_succ_le h

/-- However an expression ends, no more than one token behind it has been looked at. -/
theorem oneAhead_parseFrom (failure : Option (ReadFault × Nat)) (line : Nat)
    (levels : List Level) (tokens : List Token) :
    (parseFrom failure line levels tokens).2.OneAhead := by
  induction tokens generalizing line levels with
  | nil =>
      rw [parseFrom.eq_def]
      dsimp only
      cases failure <;> cases levels <;> exact Nat.zero_le 1
  | cons t rest ih =>
      rw [parseFrom.eq_def]
      dsimp only
      split
      · exact ih _ _
      · split
        · exact Nat.zero_le 1
        · split
          · split
            · exact Nat.zero_le 1
            · exact ih _ _
          · exact Nat.le_refl 1
      · split
        · exact Nat.zero_le 1
        · split
          · exact Nat.zero_le 1
          · exact ih _ _

theorem OneAhead.answer (h : s.OneAhead) (m : Move) : (s.answer m).2.OneAhead := by
  cases m with
  | peek => exact h.peek
  | advance => exact h.advance
  | parse => exact oneAhead_parseFrom _ _ _ _

theorem HandsOut.passes (h : HandsOut s m ts) (hlexer : ∀ f ∈ s.unraised, f.isOfLexer = true) :
    Passes s ts (s.answer m).1.raised (s.answer m).2 := by
  cases h with
  | peek => exact passes_peek s hlexer
  | advance => exact passes_advance s hlexer
  | parse h => exact h.passes hlexer

theorem exists_handsOut (hahead : s.OneAhead) (m : Move) : ∃ ts, HandsOut s m ts := by
  cases m with
  | peek => exact ⟨_, .peek⟩
  | advance => exact ⟨_, .advance⟩
  | parse =>
      obtain ⟨ts, h⟩ := exists_descends hahead
      exact ⟨ts, .parse h⟩

theorem exists_session (ms : List Move) :
    ∀ s : Stream, s.OneAhead → ∃ taken answers s', Session s ms taken answers s' := by
  induction ms with
  | nil => exact fun s _ => ⟨_, _, _, .done s⟩
  | cons m ms ih =>
      intro s hahead
      obtain ⟨ts, h⟩ := exists_handsOut hahead m
      obtain ⟨us, answers, s', hrest⟩ := ih (s.answer m).2 (hahead.answer m)
      exact ⟨_, _, _, .step h hrest⟩

/-- No more than one token has been looked at after any moves. -/
theorem Session.oneAhead (h : Session s ms taken answers s') (hahead : s.OneAhead) :
    s'.OneAhead := by
  induction h with
  | done => exact hahead
  | @step _ _ m _ _ _ _ _ _ ih => exact ih (hahead.answer m)

/-- What passes through a stream in some moves is what passes in each of them. -/
theorem Session.passes (h : Session s ms taken answers s')
    (hlexer : ∀ f ∈ s.unraised, f.isOfLexer = true) :
    Passes s taken (answers.flatMap Answer.raised) s' := by
  induction h with
  | done s => exact .refl s
  | step h hrest ih =>
      have hfirst := h.passes hlexer
      rw [List.flatMap_cons]
      exact hfirst.trans (ih (hfirst.isOfLexer hlexer))

/-! ### How a stream goes on -/

theorem peek_tells (s : Stream) : ∀ found, s.peek.1 = .ok found →
    s.peek.2.peek = (.ok found, s.peek.2) ∧ s.advance.1 = .ok found ∧
      s.peek.2.advance = s.advance := by
  intro found hfound
  cases hpending : s.pending with
  | cons t rest =>
      obtain ⟨hpeek, hleft, -, -⟩ := peek_of_pending hpending
      rw [hpeek] at hfound
      obtain rfl := Except.ok.inj hfound
      exact ⟨peek_peek_of_pending hpending, (advance_of_pending hpending).1,
        advance_peek_of_pending hpending⟩
  | nil =>
      have hpeek := peek_of_pending_nil hpending
      have hadvance := advance_of_pending_nil hpending
      rcases failAtEnd_eq s with ⟨hend, -⟩ | ⟨f, hend, -⟩
      · rw [hend] at hpeek hadvance
        rw [hpeek] at hfound ⊢
        obtain rfl := Except.ok.inj hfound
        exact ⟨hpeek, by rw [hadvance], rfl⟩
      · rw [hend] at hpeek
        rw [hpeek] at hfound
        cases hfound

theorem parse_of_pending_nil (h : s.pending = []) :
    s.parse = match s.failAtEnd with
      | some (f, s) => (.error f, s)
      | none => (.error (readError .endOfInput s.line), s) := by
  rw [parse, h, parseFrom.eq_def]
  dsimp only
  rw [eq_of_pending_nil h]
  cases s.failAtEnd <;> rfl

/-- Whatever a stream without tokens is asked for, it brings up the failure of the lexer. -/
theorem answer_of_unraised {f : Failure} (hpending : s.pending = []) (hf : f ∈ s.unraised)
    (hlexer : f.isOfLexer = true) (m : Move) : (s.answer m).1.raised = [f] := by
  rcases failAtEnd_eq s with ⟨-, hnone⟩ | ⟨g, hend, hg⟩
  · rw [hnone] at hf
    cases hf
  · rw [hg] at hf
    obtain rfl := List.mem_singleton.1 hf
    cases m with
    | peek =>
        rw [answer, peek_of_pending_nil hpending, hend]
        exact raised_of_isOfLexer (α := Option Token) hlexer
    | advance =>
        rw [answer, advance_of_pending_nil hpending, hend]
        exact raised_of_isOfLexer (α := Option Token) hlexer
    | parse =>
        rw [answer, parse_of_pending_nil hpending, hend]
        exact raised_of_isOfLexer (α := Node) hlexer

/-- A stream without tokens and without a failure stays as it is. -/
theorem answer_of_ended (hpending : s.pending = []) (hunraised : s.unraised = []) (m : Move) :
    s.answer m = (answerAtEnd s.line m, s) := by
  rcases failAtEnd_eq s with ⟨hend, -⟩ | ⟨g, -, hg⟩
  · cases m with
    | peek => rw [answer, peek_of_pending_nil hpending, hend]; rfl
    | advance => rw [answer, advance_of_pending_nil hpending, hend]; rfl
    | parse => rw [answer, parse_of_pending_nil hpending, hend]; rfl
  · rw [hg] at hunraised
    cases hunraised

theorem length_unraised_le (s : Stream) : s.unraised.length ≤ 1 := by
  obtain ⟨buffered, rest, failure, line⟩ := s
  cases failure <;> simp [unraised]

end

end Stream

open FormLang.Stream in
/-- A stream over the tokens of a source can be asked for anything in any order, and after any
answer. What it has handed out, what it has looked at and what is left are then the tokens of the
source; it never looks at more than one token ahead, which hands out nothing and tells what comes
next; and the failure of the lexer is in one answer only, behind which the stream is at its end. -/
theorem stream_accounts (source : String) (moves : List Move) :
    (∃ taken answers s, Session (.ofLexed (lex source)) moves taken answers s) ∧
      ∀ taken answers s, Session (.ofLexed (lex source)) moves taken answers s →
        Accounts (lex source) taken answers s := by
  have hahead : (ofLexed (lex source)).OneAhead := Nat.zero_le 1
  refine ⟨exists_session moves _ hahead, fun taken answers s h => ?_⟩
  have hlexer := isOfLexer_of_lex source
  have hpasses := h.passes hlexer
  have hpeek := passes_peek s (hpasses.isOfLexer hlexer)
  exact {
    buffer := h.oneAhead hahead
    tokens := hpasses.tokens
    line := by
      rw [hpasses.line]
      cases hlast : taken.getLast? with
      | none =>
          obtain rfl := List.getLast?_eq_none_iff.1 hlast
          rfl
      | some t => exact lineBehind_of_getLast? hlast _
    peek_keeps := ⟨hpeek.tokens, hpeek.line⟩
    peek_tells := peek_tells s
    failures := hpasses.failures
    raises := fun hpending f hf =>
      answer_of_unraised hpending hf (hpasses.isOfLexer hlexer f hf)
    ended := answer_of_ended
    last := by
      intro hne
      refine ⟨hpasses.last hne, ?_⟩
      -- There is one failure at most, and it has come up.
      have hlength := congrArg List.length hpasses.failures
      have hpos := List.length_pos_iff.2 hne
      have hle := length_unraised_le (.ofLexed (lex source))
      rw [List.length_append] at hlength
      exact List.eq_nil_of_length_eq_zero (by omega) }

end FormLang
