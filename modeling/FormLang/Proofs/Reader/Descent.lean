import FormLang.Proofs.Reader.Parsing

set_option autoImplicit false

/-! # Reading by descent

The reader keeps the brackets that are open on a stack of its own. What it does is to go down into
a bracket, to read one expression after the other there and to come back up, and it does nothing to
the stream but look at the next token and have it handed out (`Stream.exists_descends`). It may stop
anywhere in between, and the stream then stays as the last of these steps has left it.
-/

namespace FormLang

namespace Stream

/-! ## Down and up -/

mutual
/-- Reading an expression by descent: what is handed out on the way, what comes of it, and the
stream behind it. -/
inductive Descends : Stream → List Token → Except Failure Node → Stream → Prop where
  | failed {s s' : Stream} {f : Failure} (h : s.advance = (.error f, s')) :
      Descends s [] (.error f) s'
  | ended {s s' : Stream} (h : s.advance = (.ok none, s')) :
      Descends s [] (.error (readError .endOfInput s'.line)) s'
  | leaf {s s' : Stream} {t : Token} (h : s.advance = (.ok (some t), s'))
      (hkind : t.kind = .atom ∨ t.kind = .text) : Descends s [t] (liftFault (leaf t)) s'
  | closing {s s' : Stream} {t : Token} {b : Bracket} (h : s.advance = (.ok (some t), s'))
      (hkind : t.kind = .closing b) :
      Descends s [t] (.error (readError (.unexpectedToken t.text) t.line)) s'
  | opening {s s' s'' : Stream} {t : Token} {b : Bracket} {ts : List Token}
      {r : Except Failure (List Node)} (h : s.advance = (.ok (some t), s'))
      (hkind : t.kind = .opening b) (hinside : Gathers b t.line [] s' ts r s'') :
      Descends s (t :: ts) (r.map b.wrap) s''

/-- Reading expressions behind some others up to the end of a bracket. -/
inductive Gathers : Bracket → Nat → List Node → Stream → List Token →
    Except Failure (List Node) → Stream → Prop where
  | failed {b : Bracket} {openedAt : Nat} {ns : List Node} {s s' : Stream} {f : Failure}
      (h : s.peek = (.error f, s')) : Gathers b openedAt ns s [] (.error f) s'
  | ended {b : Bracket} {openedAt : Nat} {ns : List Node} {s s' : Stream}
      (h : s.peek = (.ok none, s')) :
      Gathers b openedAt ns s [] (.error (readError (.unbalanced openedAt) s'.line)) s'
  | closed {b : Bracket} {openedAt : Nat} {ns : List Node} {s s' s'' : Stream} {t : Token}
      (h : s.peek = (.ok (some t), s')) (hkind : t.kind = .closing b)
      (hadvance : s'.advance = (.ok (some t), s'')) : Gathers b openedAt ns s [t] (.ok ns) s''
  | mismatched {b c : Bracket} {openedAt : Nat} {ns : List Node} {s s' : Stream} {t : Token}
      (h : s.peek = (.ok (some t), s')) (hkind : t.kind = .closing c) (hne : c ≠ b) :
      Gathers b openedAt ns s [] (.error (readError (.unexpectedToken t.text) t.line)) s'
  | stopped {b : Bracket} {openedAt : Nat} {ns : List Node} {s s' s'' : Stream} {t : Token}
      {ts : List Token} {f : Failure} (h : s.peek = (.ok (some t), s'))
      (hkind : ∀ c, t.kind ≠ .closing c) (hitem : Descends s' ts (.error f) s'') :
      Gathers b openedAt ns s ts (.error f) s''
  | item {b : Bracket} {openedAt : Nat} {ns : List Node} {s s' s₁ s₂ : Stream} {t : Token}
      {ts us : List Token} {n : Node} {r : Except Failure (List Node)}
      (h : s.peek = (.ok (some t), s')) (hkind : ∀ c, t.kind ≠ .closing c)
      (hitem : Descends s' ts (.ok n) s₁) (hrest : Gathers b openedAt (ns ++ [n]) s₁ us r s₂) :
      Gathers b openedAt ns s (ts ++ us) r s₂
end

/-- Reading inside some open brackets, innermost first: the innermost one is read to its end, and
what it makes is one more item of the next one. -/
inductive Within : List Level → Stream → List Token → Except Failure Node → Stream → Prop where
  | expression {s s' : Stream} {ts : List Token} {r : Except Failure Node}
      (h : Descends s ts r s') : Within [] s ts r s'
  | stopped {l : Level} {outer : List Level} {s s' : Stream} {ts : List Token} {f : Failure}
      (h : Gathers l.bracket l.openedAt l.items.reverse s ts (.error f) s') :
      Within (l :: outer) s ts (.error f) s'
  | whole {l : Level} {s s' : Stream} {ts : List Token} {ns : List Node}
      (h : Gathers l.bracket l.openedAt l.items.reverse s ts (.ok ns) s') :
      Within [l] s ts (.ok (l.bracket.wrap ns)) s'
  | closed {l l' : Level} {outer : List Level} {s s' s'' : Stream} {ts us : List Token}
      {ns : List Node} {r : Except Failure Node}
      (h : Gathers l.bracket l.openedAt l.items.reverse s ts (.ok ns) s')
      (hrest : Within ({ l' with items := l.bracket.wrap ns :: l'.items } :: outer) s' us r s'') :
      Within (l :: l' :: outer) s (ts ++ us) r s''

section

variable {s s' : Stream} {t : Token} {ts us rest : List Token} {l : Level}
  {levels outer : List Level} {n : Node} {b : Bracket} {r : Except Failure Node} {f : Failure}

/-! ## Looking ahead -/

theorem buffered_and_rest_of_pending (h : s.pending = []) : s.buffered = [] ∧ s.rest = [] := by
  simpa [pending] using h

theorem eq_of_pending_nil (h : s.pending = []) :
    (⟨[], [], s.failure, s.line⟩ : Stream) = s := by
  obtain ⟨buffered, waiting, failure, line⟩ := s
  obtain ⟨rfl, rfl⟩ : buffered = [] ∧ waiting = [] := buffered_and_rest_of_pending h
  rfl

/-- Looking at the next token finds it and changes nothing that is left. -/
theorem peek_of_pending (h : s.pending = t :: rest) :
    s.peek.1 = .ok (some t) ∧ s.peek.2.pending = t :: rest ∧ s.peek.2.failure = s.failure ∧
      s.peek.2.line = s.line := by
  obtain ⟨_ | ⟨u, buffered⟩, waiting, failure, line⟩ := s
  · obtain rfl : waiting = t :: rest := h
    exact ⟨rfl, rfl, rfl, rfl⟩
  · obtain ⟨rfl, rfl⟩ := List.cons.inj h
    exact ⟨rfl, rfl, rfl, rfl⟩

/-- The next token is handed out, and those behind it are left. -/
theorem advance_of_pending (h : s.pending = t :: rest) :
    s.advance.1 = .ok (some t) ∧ s.advance.2.pending = rest ∧ s.advance.2.failure = s.failure ∧
      s.advance.2.line = t.line := by
  obtain ⟨_ | ⟨u, buffered⟩, waiting, failure, line⟩ := s
  · obtain rfl : waiting = t :: rest := h
    exact ⟨rfl, rfl, rfl, rfl⟩
  · obtain ⟨rfl, rfl⟩ := List.cons.inj h
    exact ⟨rfl, rfl, rfl, rfl⟩

/-- A token that has been looked at is handed out as if it had not been. -/
theorem advance_peek_of_pending (h : s.pending = t :: rest) : s.peek.2.advance = s.advance := by
  obtain ⟨_ | ⟨u, buffered⟩, waiting, failure, line⟩ := s
  · obtain rfl : waiting = t :: rest := h
    rfl
  · rfl

/-- Looking at the next token once more changes nothing at all. -/
theorem peek_peek_of_pending (h : s.pending = t :: rest) :
    s.peek.2.peek = (.ok (some t), s.peek.2) := by
  obtain ⟨_ | ⟨u, buffered⟩, waiting, failure, line⟩ := s
  · obtain rfl : waiting = t :: rest := h
    rfl
  · obtain ⟨rfl, rfl⟩ := List.cons.inj h
    rfl

theorem peek_of_pending_nil (h : s.pending = []) :
    s.peek = match s.failAtEnd with
      | some (f, s) => (.error f, s)
      | none => (.ok none, s) := by
  obtain ⟨buffered, waiting, failure, line⟩ := s
  obtain ⟨rfl, rfl⟩ : buffered = [] ∧ waiting = [] := buffered_and_rest_of_pending h
  rfl

theorem advance_of_pending_nil (h : s.pending = []) :
    s.advance = match s.failAtEnd with
      | some (f, s) => (.error f, s)
      | none => (.ok none, s) := by
  obtain ⟨buffered, waiting, failure, line⟩ := s
  obtain ⟨rfl, rfl⟩ : buffered = [] ∧ waiting = [] := buffered_and_rest_of_pending h
  rfl

/-- No more than one token has been looked at. -/
def OneAhead (s : Stream) : Prop := s.buffered.length ≤ 1

/-- When no more than one token has been looked at, the stream that has looked at the next one, and
the one that has handed it out. -/
theorem next_of_pending (hahead : s.OneAhead) (h : s.pending = t :: rest) :
    s.peek = (.ok (some t), ⟨[t], rest, s.failure, s.line⟩) ∧
      s.advance = (.ok (some t), ⟨[], rest, s.failure, t.line⟩) := by
  obtain ⟨_ | ⟨u, _ | ⟨v, buffered⟩⟩, waiting, failure, line⟩ := s
  · obtain rfl : waiting = t :: rest := h
    exact ⟨rfl, rfl⟩
  · obtain ⟨rfl, rfl⟩ := List.cons.inj h
    exact ⟨rfl, rfl⟩
  · rw [OneAhead, List.length_cons, List.length_cons] at hahead
    omega

/-- It makes no difference to an expression that its first token has been looked at. -/
theorem Descends.peeked (h : Descends s ts r s') (hadvance : s.peek.2.advance = s.advance) :
    Descends s.peek.2 ts r s' := by
  cases h with
  | failed h => exact .failed (hadvance.trans h)
  | ended h => exact .ended (hadvance.trans h)
  | leaf h hkind => exact .leaf (hadvance.trans h) hkind
  | closing h hkind => exact .closing (hadvance.trans h) hkind
  | opening h hkind hinside => exact .opening (hadvance.trans h) hkind hinside

/-! ## The stack of open brackets -/

/-- An expression that fails is the end of the brackets around it. -/
theorem Within.of_error (hahead : s.OneAhead) (hpending : s.pending = t :: rest)
    (hkind : ∀ c, t.kind ≠ .closing c) (h : Descends s ts (.error f) s') :
    Within levels s ts (.error f) s' := by
  cases levels with
  | nil => exact .expression h
  | cons l outer =>
      have hitem := h.peeked (advance_peek_of_pending hpending)
      rw [(next_of_pending hahead hpending).1] at hitem
      exact .stopped (.stopped (next_of_pending hahead hpending).1 hkind hitem)

/-- Behind an expression, reading goes on inside the brackets that have one more item. -/
theorem Within.of_item (hahead : s.OneAhead) (hpending : s.pending = t :: rest)
    (hkind : ∀ c, t.kind ≠ .closing c) (h : Descends s ts (.ok n) s') {s'' : Stream}
    (hrest : Within ({ l with items := n :: l.items } :: outer) s' us r s'') :
    Within (l :: outer) s (ts ++ us) r s'' := by
  have hpeek := (next_of_pending hahead hpending).1
  have hitem := h.peeked (advance_peek_of_pending hpending)
  rw [hpeek] at hitem
  generalize hl : ({ l with items := n :: l.items } :: outer : List Level) = inner at hrest
  cases hrest with
  | expression h => cases hl
  | stopped h =>
      cases hl
      rw [List.reverse_cons] at h
      exact .stopped (.item hpeek hkind hitem h)
  | whole h =>
      cases hl
      rw [List.reverse_cons] at h
      exact .whole (.item hpeek hkind hitem h)
  | closed h hrest =>
      cases hl
      rw [List.reverse_cons] at h
      rw [← List.append_assoc]
      exact .closed (.item hpeek hkind hitem h) hrest

/-- A bracket that is opened is read inside those that are open already. -/
theorem Within.of_opening {s'' : Stream} (hahead : s.OneAhead) (hpending : s.pending = t :: rest)
    (hadvance : s.advance = (.ok (some t), s'')) (hkind : t.kind = .opening b)
    (h : Within (⟨b, t.line, []⟩ :: levels) s'' ts r s') : Within levels s (t :: ts) r s' := by
  have hopen : ∀ c, t.kind ≠ .closing c := fun c => by simp [hkind]
  cases h with
  | stopped h => exact .of_error hahead hpending hopen (.opening hadvance hkind h)
  | whole h => exact .expression (.opening hadvance hkind h)
  | closed h hrest => exact .of_item hahead hpending hopen (.opening hadvance hkind h) hrest

/-- A token that stands for no node is the end of the brackets around it. -/
theorem Within.of_leaf_error {g : Fault} (hahead : s.OneAhead) (hpending : s.pending = t :: rest)
    (hkind : t.kind = .atom ∨ t.kind = .text) (h : leaf t = .error g) :
    Within levels s [t] (.error (.fault g)) ⟨[], rest, s.failure, t.line⟩ := by
  have hopen : ∀ c, t.kind ≠ .closing c := by
    rcases hkind with hkind | hkind <;> simp [hkind]
  have hdescends := Descends.leaf (next_of_pending hahead hpending).2 hkind
  rw [h] at hdescends
  exact .of_error hahead hpending hopen hdescends

/-- Behind a token that stands for a node, reading goes on inside the open brackets. -/
theorem exists_within_leaf (hahead : s.OneAhead) (hpending : s.pending = t :: rest)
    (hkind : t.kind = .atom ∨ t.kind = .text) (h : leaf t = .ok n)
    (hnext : ∀ levels, ∃ ts, Within levels ⟨[], rest, s.failure, t.line⟩ ts
      (parseFrom s.failure t.line levels rest).1 (parseFrom s.failure t.line levels rest).2) :
    ∃ ts, Within levels s ts (goOn s.failure t.line n levels rest).1
      (goOn s.failure t.line n levels rest).2 := by
  have hopen : ∀ c, t.kind ≠ .closing c := by
    rcases hkind with hkind | hkind <;> simp [hkind]
  have hdescends := Descends.leaf (next_of_pending hahead hpending).2 hkind
  rw [h] at hdescends
  cases levels with
  | nil => exact ⟨_, .expression hdescends⟩
  | cons l outer =>
      obtain ⟨us, hus⟩ := hnext ({ l with items := n :: l.items } :: outer)
      exact ⟨_, .of_item hahead hpending hopen hdescends hus⟩

/-- The reader that keeps the open brackets on a stack reads by descent. -/
theorem exists_within (tokens : List Token) :
    ∀ (s : Stream) (levels : List Level), s.OneAhead → s.pending = tokens →
      ∃ ts, Within levels s ts (parseFrom s.failure s.line levels tokens).1
        (parseFrom s.failure s.line levels tokens).2 := by
  induction tokens with
  | nil =>
      intro s levels hahead hpending
      have hpeek := peek_of_pending_nil hpending
      have hadvance := advance_of_pending_nil hpending
      refine ⟨[], ?_⟩
      rw [parseFrom.eq_def]
      dsimp only
      rw [eq_of_pending_nil hpending]
      cases hfail : s.failAtEnd with
      | some p =>
          rw [hfail] at hpeek hadvance
          cases levels with
          | nil => exact .expression (.failed hadvance)
          | cons l outer => exact .stopped (.failed hpeek)
      | none =>
          rw [hfail] at hpeek hadvance
          cases levels with
          | nil => exact .expression (.ended hadvance)
          | cons l outer => exact .stopped (.ended hpeek)
  | cons t rest ih =>
      intro s levels hahead hpending
      obtain ⟨hpeek, hadvance⟩ := next_of_pending hahead hpending
      -- What is read behind the token is read from the stream that has handed it out.
      have hnext := fun levels =>
        ih ⟨[], rest, s.failure, t.line⟩ levels (Nat.zero_le 1) rfl
      dsimp only at hnext
      rw [parseFrom.eq_def]
      dsimp only
      cases hkind : t.kind with
      | opening b =>
          obtain ⟨us, hus⟩ := hnext (⟨b, t.line, []⟩ :: levels)
          exact ⟨t :: us, .of_opening hahead hpending hadvance hkind hus⟩
      | closing b =>
          cases levels with
          | nil => exact ⟨_, .expression (.closing hadvance hkind)⟩
          | cons l outer =>
              dsimp only
              split
              · next hb =>
                have hgathers : Gathers l.bracket l.openedAt l.items.reverse s [t]
                    (.ok l.items.reverse) ⟨[], rest, s.failure, t.line⟩ :=
                  .closed hpeek (by rw [hkind, hb]) rfl
                rw [Level.node_eq_wrap]
                cases outer with
                | nil => exact ⟨_, .whole hgathers⟩
                | cons l' outer =>
                    obtain ⟨us, hus⟩ :=
                      hnext ({ l' with items := l.bracket.wrap l.items.reverse :: l'.items } ::
                        outer)
                    exact ⟨_, .closed hgathers hus⟩
              · next hb => exact ⟨_, .stopped (.mismatched hpeek hkind (Ne.symm hb))⟩
      | text =>
          cases h : leaf t with
          | error g => exact ⟨_, .of_leaf_error hahead hpending (.inr hkind) h⟩
          | ok n => exact exists_within_leaf hahead hpending (.inr hkind) h hnext
      | atom =>
          cases h : leaf t with
          | error g => exact ⟨_, .of_leaf_error hahead hpending (.inl hkind) h⟩
          | ok n => exact exists_within_leaf hahead hpending (.inl hkind) h hnext

/-- Reading an expression is going down into its brackets and coming back up. -/
theorem exists_descends (hahead : s.OneAhead) : ∃ ts, Descends s ts s.parse.1 s.parse.2 := by
  obtain ⟨ts, h⟩ := exists_within s.pending s [] hahead rfl
  cases h with
  | expression h => exact ⟨ts, h⟩

end

end Stream

end FormLang
