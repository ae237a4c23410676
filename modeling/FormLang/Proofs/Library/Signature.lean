import FormLang.Library
import FormLang.Proofs.Tracked

set_option autoImplicit false

/-! # Signatures

What a function asks of a call is its *signature*: how many arguments there have to be, and what
each of them has to be, which may depend on those in front of it. A call is refused for the wrong
number of arguments, or else for the leftmost argument that is not what it has to be.

A function *keeps to* its signature if it answers these calls with the errors that belong to them,
and all other calls with a value or a fault (`Signature.Kept`). Then an error says exactly which of
the two is wrong with a call (`Signature.Kept.decides`).
-/

namespace FormLang

/-! ## How many arguments -/

/-- How many arguments a function takes. -/
inductive Arity where
  | exactly (n : Nat)
  | either (m n : Nat)
  | atLeast (n : Nat)

/-- Is this a number of arguments that the function takes? -/
def Arity.Admits : Arity → Nat → Prop
  | .exactly n, count => count = n
  | .either m n, count => count = m ∨ count = n
  | .atLeast n, count => n ≤ count

instance (a : Arity) (count : Nat) : Decidable (a.Admits count) :=
  match a with
  | .exactly n => inferInstanceAs (Decidable (count = n))
  | .either m n => inferInstanceAs (Decidable (count = m ∨ count = n))
  | .atLeast n => inferInstanceAs (Decidable (n ≤ count))

/-- The numbers of arguments in the words of an error. -/
def Arity.text : Arity → String
  | .exactly n => toString n
  | .either m n => toString m ++ " or " ++ toString n
  | .atLeast n => "at least " ++ toString n

/-! ## What the arguments have to be -/

/-- What an argument has to be. -/
inductive Demand where
  | anything
  /-- A truth value is not a number. -/
  | number
  | text
  | list
  /-- A list with at least one element. -/
  | filledList
  /-- A place in a list of this length, the first one being at 0. -/
  | placeBelow (length : Nat)

/-- What is wrong with an argument. -/
inductive Complaint where
  | wrongType (wanted : String) (got : Value)
  | emptyList
  /-- The list has no such place. -/
  | noPlace (index : Value)

namespace Complaint

/-- The complaint in words. -/
def text : Complaint → String
  | .wrongType wanted got => "expected " ++ wanted ++ ", got " ++ got.write
  | .emptyList => "empty list"
  | .noPlace index => "index " ++ index.write ++ " out of range"

/-- Have all integers in the words of a complaint few enough digits to be written? -/
def writable : Complaint → Bool
  | .wrongType _ got => got.writable
  | .emptyList => true
  | .noPlace index => index.writable

/-- The error of a function that complains; a fault if the complaint cannot be written. -/
def raised {α : Type} (function : String) (c : Complaint) : Except Failure α :=
  if c.writable then LibraryFunction.argumentError function c.text
  else .error (.fault .writtenDigits)

end Complaint

namespace Demand

/-- Is the argument what it has to be? -/
def Met (v : Value) : Demand → Prop
  | .anything => True
  | .number => ∃ n, v = .number n
  | .text => ∃ s, v = .text s
  | .list => ∃ items, v = .list items
  | .filledList => ∃ item items, v = .list (item :: items)
  | .placeBelow length => ∃ i : Nat, i < length ∧ v = .number (.int i)

/-- What is wrong with an argument, if anything is. -/
def complaint? : Demand → Value → Option Complaint
  | .anything, _ => none
  | .number, .number _ => none
  | .number, v => some (.wrongType "a number" v)
  | .text, .text _ => none
  | .text, v => some (.wrongType "a string" v)
  | .list, .list _ => none
  | .list, v => some (.wrongType "a list" v)
  | .filledList, .list [] => some .emptyList
  | .filledList, .list (_ :: _) => none
  | .filledList, v => some (.wrongType "a list" v)
  | .placeBelow length, .number (.int i) =>
    if 0 ≤ i ∧ i < length then none else some (.noPlace (.number (.int i)))
  | .placeBelow _, v => some (.noPlace v)

/-- There is something wrong with an argument just when it is not what it has to be. -/
theorem complaint?_eq_none_iff {d : Demand} {v : Value} : d.complaint? v = none ↔ d.Met v := by
  cases d with
  | anything => simp [complaint?, Met]
  | number => cases v <;> simp [complaint?, Met]
  | text => cases v <;> simp [complaint?, Met]
  | list => cases v <;> simp [complaint?, Met]
  | filledList =>
      cases v with
      | list items => cases items <;> simp [complaint?, Met]
      | _ => simp [complaint?, Met]
  | placeBelow length =>
      rcases v with _ | _ | (i | x) | _ | _ | _ | _ | _
      case number.int =>
        rw [complaint?, Met]
        by_cases hplace : 0 ≤ i ∧ i < length
        · rw [if_pos hplace]
          exact iff_of_true rfl ⟨i.toNat, by omega, by rw [Int.toNat_of_nonneg hplace.1]⟩
        · rw [if_neg hplace]
          refine iff_of_false (by simp) ?_
          rintro ⟨n, hlt, hi⟩
          cases hi
          omega
      all_goals simp [complaint?, Met]

end Demand

/-- What a function asks of its arguments. -/
structure Signature where
  name : String
  arity : Arity
  /-- What an argument has to be, given the arguments in front of it. -/
  demand : List Value → Demand

namespace Signature

/-- Is each of some arguments what it has to be? -/
def Accepts (s : Signature) (vs : List Value) : Prop :=
  ∀ front v back, vs = front ++ v :: back → (s.demand front).Met v

/-- The complaint is about the leftmost argument that is not what it has to be. -/
def Refuses (s : Signature) (vs : List Value) (c : Complaint) : Prop :=
  ∃ front v back, vs = front ++ v :: back ∧ s.Accepts front ∧ (s.demand front).complaint? v = some c

/-- The first complaint about some arguments behind others, if there is one. -/
def complaintFrom? (s : Signature) (front : List Value) : List Value → Option Complaint
  | [] => none
  | v :: rest => ((s.demand front).complaint? v).or (s.complaintFrom? (front ++ [v]) rest)

/-- The first complaint about the arguments of a call, if there is one. -/
def firstComplaint? (s : Signature) (vs : List Value) : Option Complaint := s.complaintFrom? [] vs

variable {s : Signature} {front vs : List Value} {v : Value} {c : Complaint}

theorem accepts_nil : s.Accepts [] := by
  intro front v back h
  simp at h

theorem accepts_snoc : s.Accepts (front ++ [v]) ↔ s.Accepts front ∧ (s.demand front).Met v := by
  constructor
  · intro h
    refine ⟨fun before w back hsplit => ?_, h front v [] rfl⟩
    exact h before w (back ++ [v]) (by simp [hsplit])
  · rintro ⟨hfront, hv⟩ before w back hsplit
    -- Either the argument is the last one, or it is among those in front.
    rcases List.eq_nil_or_concat back with rfl | ⟨back, x, rfl⟩
    · obtain ⟨rfl, hlast⟩ := List.append_inj' hsplit rfl
      obtain rfl : v = w := by simpa using hlast
      exact hv
    · refine hfront before w back ?_
      have hsplit' : front ++ [v] = (before ++ w :: back) ++ [x] := by simp [hsplit]
      exact (List.append_inj' hsplit' rfl).1

/-- Looking at the arguments from left to right finds the leftmost that is wrong, or none that is.
-/
theorem of_complaintFrom? (hfront : s.Accepts front) (vs : List Value) :
    (s.complaintFrom? front vs = none ∧ s.Accepts (front ++ vs)) ∨
      ∃ c, s.complaintFrom? front vs = some c ∧ s.Refuses (front ++ vs) c := by
  induction vs generalizing front with
  | nil => exact .inl ⟨rfl, by simpa using hfront⟩
  | cons v vs ih =>
      rw [complaintFrom?]
      cases hc : (s.demand front).complaint? v with
      | none =>
          have hnext := ih (accepts_snoc.2 ⟨hfront, Demand.complaint?_eq_none_iff.1 hc⟩)
          rwa [List.append_assoc] at hnext
      | some c => exact .inr ⟨c, rfl, front, v, vs, rfl, hfront, hc⟩

/-- Nothing is found among arguments that are accepted. -/
theorem complaintFrom?_append (seen : List Value) (h : s.Accepts (seen ++ front))
    (rest : List Value) :
    s.complaintFrom? seen (front ++ rest) = s.complaintFrom? (seen ++ front) rest := by
  induction front generalizing seen with
  | nil => simp
  | cons v front ih =>
      have hv : (s.demand seen).Met v := h seen v front rfl
      rw [List.cons_append, complaintFrom?, Demand.complaint?_eq_none_iff.2 hv]
      have hrest := ih (seen ++ [v]) (by simpa using h)
      rwa [List.append_assoc] at hrest

theorem firstComplaint?_eq_none_iff : s.firstComplaint? vs = none ↔ s.Accepts vs := by
  constructor
  · intro h
    obtain ⟨-, haccepts⟩ | ⟨c, hsome, -⟩ := of_complaintFrom? (s := s) accepts_nil vs
    · exact haccepts
    · cases h.symm.trans hsome
  · intro h
    have hnone := complaintFrom?_append [] h []
    rwa [List.append_nil] at hnone

theorem firstComplaint?_eq_some_iff : s.firstComplaint? vs = some c ↔ s.Refuses vs c := by
  constructor
  · intro h
    obtain ⟨hnone, -⟩ | ⟨c', hsome, hrefuses⟩ := of_complaintFrom? (s := s) accepts_nil vs
    · cases h.symm.trans hnone
    · obtain rfl : c = c' := Option.some.inj (h.symm.trans hsome)
      exact hrefuses
  · rintro ⟨front, v, back, rfl, hfront, hc⟩
    rw [firstComplaint?, complaintFrom?_append [] hfront, complaintFrom?, List.nil_append, hc,
      Option.some_or]

/-- There is only one leftmost argument that is wrong. -/
theorem Refuses.unique {c' : Complaint} (h : s.Refuses vs c) (h' : s.Refuses vs c') : c = c' :=
  Option.some.inj ((firstComplaint?_eq_some_iff.2 h).symm.trans (firstComplaint?_eq_some_iff.2 h'))

/-- Arguments that are refused are not all accepted. -/
theorem Refuses.not_accepts (h : s.Refuses vs c) : ¬s.Accepts vs := by
  rw [← firstComplaint?_eq_none_iff, firstComplaint?_eq_some_iff.2 h]
  simp

end Signature

/-! ## Functions that keep to their signature -/

/-- A computation that gives a value or ends in a fault. -/
def OnlyFaults {α : Type} (r : Except Failure α) : Prop :=
  Ensures (fun f => ∃ fault, f = .fault fault) (fun _ => True) r

theorem onlyFaults_ok {α : Type} (a : α) : OnlyFaults (.ok a) := trivial

theorem onlyFaults_liftFault {α : Type} (r : Except Fault α) : OnlyFaults (liftFault r) := by
  cases r with
  | ok a => trivial
  | error f => exact ⟨f, rfl⟩

/-- An answer respects the complaint about the arguments of a function, if there is one: then it is
the error that belongs to the complaint, and otherwise a value or a fault. -/
def Respects (function : String) (complaint? : Option Complaint) (answer : Except Failure Value) :
    Prop :=
  match complaint? with
  | some c => answer = c.raised function
  | none => OnlyFaults answer

namespace Signature

/-- A function keeps to a signature: it refuses the calls that the signature refuses, with the
errors that belong to them, and answers the others with a value or a fault. -/
structure Kept (s : Signature) (run : Value → Except Failure Value) : Prop where
  arity : ∀ vs : List Value, ¬s.arity.Admits vs.length →
    run (.list vs) = LibraryFunction.arityError s.name s.arity.text vs
  checked : ∀ vs : List Value, s.arity.Admits vs.length →
    Respects s.name (s.firstComplaint? vs) (run (.list vs))

/-- What the answer to a call says about the call. -/
structure Decides (s : Signature) (vs : List Value) (answer : Except Failure Value) : Prop where
  /-- There is an error about the number of arguments just when it is wrong. -/
  arity : (∃ function expected count, answer = .error (.error (.arity function expected count))) ↔
    ¬s.arity.Admits vs.length
  /-- The error has the name of the function and the number of arguments. -/
  arity_eq : ¬s.arity.Admits vs.length →
    answer = .error (.error (.arity s.name s.arity.text vs.length))
  /-- Otherwise there is an error about an argument just when one is not what it has to be. -/
  argument : s.arity.Admits vs.length →
    ((∃ function reason, answer = .error (.error (.argument function reason))) ↔ ¬s.Accepts vs)
  /-- The error is about the leftmost of them. -/
  argument_eq : ∀ c, s.arity.Admits vs.length → s.Refuses vs c →
    answer = .error (.error (.argument s.name c.text))
  /-- There are no other errors. -/
  only : ∀ e, answer = .error (.error e) →
    (∃ function expected count, e = .arity function expected count) ∨
      ∃ function reason, e = .argument function reason
  /-- Nothing is computed, and so there is no fault either, unless all arguments are in order. -/
  computed : (∃ v, answer = .ok v) ∨ (∃ f, answer = .error (.fault f)) ↔
    s.arity.Admits vs.length ∧ s.Accepts vs

variable {s : Signature} {vs : List Value} {c : Complaint} {answer : Except Failure Value}

theorem decides_of_arity (harity : ¬s.arity.Admits vs.length)
    (h : answer = .error (.error (.arity s.name s.arity.text vs.length))) :
    s.Decides vs answer where
  arity := iff_of_true ⟨_, _, _, h⟩ harity
  arity_eq _ := h
  argument hadmits := absurd hadmits harity
  argument_eq _ hadmits _ := absurd hadmits harity
  only e he := by
    cases h.symm.trans he
    exact .inl ⟨_, _, _, rfl⟩
  computed := by
    subst h
    simp [harity]

theorem decides_of_argument (harity : s.arity.Admits vs.length) (hrefuses : s.Refuses vs c)
    (h : answer = .error (.error (.argument s.name c.text))) : s.Decides vs answer where
  arity := by
    subst h
    simp [harity]
  arity_eq hnot := absurd harity hnot
  argument _ := iff_of_true ⟨_, _, h⟩ hrefuses.not_accepts
  argument_eq c' _ hc' := by rw [h, hrefuses.unique hc']
  only e he := by
    cases h.symm.trans he
    exact .inr ⟨_, _, rfl⟩
  computed := by
    subst h
    simp [hrefuses.not_accepts]

theorem decides_of_accepts (harity : s.arity.Admits vs.length) (haccepts : s.Accepts vs)
    (h : OnlyFaults answer) : s.Decides vs answer := by
  have hvalue : (∃ v, answer = .ok v) ∨ ∃ f, answer = .error (.fault f) := by
    cases answer with
    | ok v => exact .inl ⟨v, rfl⟩
    | error f =>
        obtain ⟨fault, rfl⟩ := h
        exact .inr ⟨fault, rfl⟩
  have hnone : ∀ e, answer ≠ .error (.error e) := by
    rintro e rfl
    obtain ⟨fault, hfault⟩ := h
    cases hfault
  constructor
  case arity => simp [hnone, harity]
  case arity_eq => exact fun hnot => absurd harity hnot
  case argument => simp [hnone, haccepts]
  case argument_eq => exact fun c _ hc => absurd haccepts hc.not_accepts
  case only => exact fun e he => absurd he (hnone e)
  case computed => exact iff_of_true hvalue ⟨harity, haccepts⟩

/-- What the answers of a function that keeps to a signature say, as long as the complaint that a
call may be refused with can be written. -/
theorem Kept.decides {run : Value → Except Failure Value} (h : s.Kept run)
    (hwritable : ∀ c, s.arity.Admits vs.length → s.Refuses vs c → c.writable = true) :
    s.Decides vs (run (.list vs)) := by
  by_cases harity : s.arity.Admits vs.length
  · have hchecked := h.checked vs harity
    cases hfirst : s.firstComplaint? vs with
    | some c =>
        have hrefuses := firstComplaint?_eq_some_iff.1 hfirst
        have hraised : run (.list vs) = c.raised s.name := by rwa [hfirst] at hchecked
        rw [Complaint.raised, if_pos (hwritable c harity hrefuses)] at hraised
        exact decides_of_argument harity hrefuses hraised
    | none =>
        have honly : OnlyFaults (run (.list vs)) := by rwa [hfirst] at hchecked
        exact decides_of_accepts harity (firstComplaint?_eq_none_iff.1 hfirst) honly
  · exact decides_of_arity harity (h.arity vs harity)

end Signature

end FormLang
