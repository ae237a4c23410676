import FormLang.Node.Atom
import FormLang.Proofs.Reader.Cutting
import Mathlib.Data.List.Basic
import Mathlib.Tactic.IntervalCases

set_option autoImplicit false

/-! # Integers as atoms

An integer is written with ASCII digits behind a sign, if it is negative. That is a single atom, and
unless there are more digits than can be read, the atom is read as the integer (`ofAtom_int`).
-/

namespace FormLang

/-! ## Digits -/

section

variable {c : Char} {cs : List Char}

theorem decimalDigit?_of_isDigit (h : c.isDigit = true) :
    decimalDigit? c = some (c.toNat - '0'.toNat) := by
  obtain ⟨hlow, hhigh⟩ := Char.isDigit_iff_toNat.1 h
  have hfirst : (decide (0x30 ≤ c.toNat) && decide (c.toNat < 0x30 + 10)) = true := by
    simp only [Bool.and_eq_true, decide_eq_true_eq]
    exact ⟨hlow, Nat.lt_succ_of_le hhigh⟩
  -- The ASCII digits come first in the table.
  have hfind : digitZeros.find? (fun z => decide (z ≤ c.toNat) && decide (c.toNat < z + 10)) =
      some 0x30 := List.find?_cons_of_pos hfirst
  rw [decimalDigit?, hfind]
  rfl

theorem isAtomChar_of_isDigit (h : c.isDigit = true) : isAtomChar c = true := by
  obtain ⟨hlow, hhigh⟩ := Char.isDigit_iff_toNat.1 h
  have hc : c = Char.ofNat c.toNat := (Char.ofNat_toNat c).symm
  change 48 ≤ c.toNat at hlow
  change c.toNat ≤ 57 at hhigh
  rw [hc]
  interval_cases c.toNat <;> decide

theorem digitsValue_eq_ofDigitChars (h : ∀ c ∈ cs, c.isDigit = true) :
    digitsValue cs = Nat.ofDigitChars 10 cs 0 := by
  rw [digitsValue, Nat.ofDigitChars_eq_foldl]
  refine List.foldl_ext _ _ 0 fun n c hc => ?_
  rw [decimalDigit?_of_isDigit (h c hc), Option.getD_some]

theorem isDigit_toDigits (n : Nat) : ∀ c ∈ Nat.toDigits 10 n, c.isDigit = true :=
  fun _ hc => Nat.isDigit_of_mem_toDigits (by decide) (by decide) hc

theorem digitsValue_toDigits (n : Nat) : digitsValue (Nat.toDigits 10 n) = n := by
  rw [digitsValue_eq_ofDigitChars (isDigit_toDigits n), Nat.ofDigitChars_ten_toDigits]

/-- Digits are not taken for a sign. -/
theorem takeSign_digits (h : ∀ c ∈ cs, c.isDigit = true) : takeSign cs = (false, cs) := by
  rw [takeSign.eq_def]
  split
  · exact absurd (h '+' (by simp)) (by decide)
  · exact absurd (h '-' (by simp)) (by decide)
  · rfl

theorem nonempty_and_all_digits (hne : cs ≠ []) (h : ∀ c ∈ cs, c.isDigit = true) :
    (!cs.isEmpty && cs.all isDigit) = true := by
  rw [Bool.and_eq_true, List.all_eq_true]
  refine ⟨by simpa using hne, fun c hc => ?_⟩
  rw [isDigit, decimalDigit?_of_isDigit (h c hc)]
  rfl

theorem signedDigits?_digits (hne : cs ≠ []) (h : ∀ c ∈ cs, c.isDigit = true) :
    signedDigits? cs = some (false, cs) := by
  rw [signedDigits?, takeSign_digits h]
  dsimp only
  rw [if_pos (nonempty_and_all_digits hne h)]

/-- A row of digits is a single token. -/
theorem lex_digits (hne : cs ≠ []) (h : ∀ c ∈ cs, c.isDigit = true) :
    lex (String.ofList cs) = ⟨[⟨.atom, String.ofList cs, 1⟩], none⟩ := by
  let t : Token := ⟨.atom, String.ofList cs, 1⟩
  have hwrites : TokenKind.atom.Writes t.text.toList := by
    rw [String.toList_ofList]
    exact ⟨hne, fun c hc => isAtomChar_of_isDigit (h c hc)⟩
  have ht : t.StandsBetween [] [] :=
    ⟨hwrites, rfl, fun _ => ⟨by simp, by simp⟩⟩
  have hcut : Cut [] (t.text.toList ++ []) ⟨[t], none⟩ :=
    .token (.nil _) ht (.finished (.nil []))
  rw [List.append_nil] at hcut
  exact lexFrom_of_cut hcut

end

/-! ## Integers -/

/-- The digits of an integer, behind a minus sign if it is negative. -/
theorem toList_toString_int (k : Int) :
    (toString k).toList =
      (if k < 0 then ['-'] else []) ++ Nat.toDigits 10 k.natAbs := by
  rw [Int.toString_eq_repr, Int.repr_eq_if]
  by_cases hk : 0 ≤ k
  · have habs : k.toNat = k.natAbs := by omega
    rw [if_pos hk, if_neg (by omega), Nat.toList_repr, habs, List.nil_append]
  · have habs : (-k).toNat = k.natAbs := by omega
    rw [if_neg hk, if_pos (by omega), String.toList_append, Nat.toList_repr, habs]
    rfl

theorem signedDigits?_toString_int (k : Int) :
    signedDigits? (toString k).toList = some (decide (k < 0), Nat.toDigits 10 k.natAbs) := by
  have hdigits := isDigit_toDigits k.natAbs
  rw [toList_toString_int]
  by_cases hk : k < 0
  · rw [if_pos hk, List.singleton_append, signedDigits?, takeSign]
    dsimp only
    rw [if_pos (nonempty_and_all_digits Nat.toDigits_ne_nil hdigits), decide_eq_true hk]
  · rw [if_neg hk, List.nil_append, signedDigits?_digits Nat.toDigits_ne_nil hdigits,
      decide_eq_false hk]

theorem length_toDigits_le {k : Int} (h : (Numeral.int k).writable = true) :
    (Nat.toDigits 10 k.natAbs).length ≤ digitLimit := by
  rw [Numeral.writable, decide_eq_true_eq] at h
  unfold Numeral.firstUnwritten at h
  have hpos : 0 < digitLimit := by decide
  -- For any limit, as the power for the actual one is too large to be computed here.
  generalize digitLimit = limit at h hpos ⊢
  exact (Nat.length_toDigits_le_iff (by decide) hpos).2 h

/-- An integer that is short enough to be written is read back. -/
theorem ofAtom_int {k : Int} (h : (Numeral.int k).writable = true) (line : Int) :
    Node.ofAtom (toString k) line = .ok (.number line (.int k)) := by
  have hvalue : signed (decide (k < 0)) (digitsValue (Nat.toDigits 10 k.natAbs)) = k := by
    rw [digitsValue_toDigits, signed]
    split
    · next hk =>
      have hneg : k < 0 := of_decide_eq_true hk
      omega
    · next hk =>
      have hpos : ¬k < 0 := of_decide_eq_false (Bool.eq_false_of_not_eq_true hk)
      omega
  rw [Node.ofAtom, signedDigits?_toString_int]
  dsimp only
  rw [readInteger, if_neg (Nat.not_lt.2 (length_toDigits_le h)), hvalue]
  rfl

/-- An integer is written as one atom. -/
theorem writes_int (k : Int) : TokenKind.atom.Writes (toString k).toList := by
  rw [toList_toString_int]
  refine ⟨?_, fun c hc => ?_⟩
  · simp [Nat.toDigits_ne_nil]
  · rcases List.mem_append.1 hc with hc | hc
    · split at hc
      · rw [List.mem_singleton.1 hc]
        decide
      · cases hc
    · exact isAtomChar_of_isDigit (isDigit_toDigits _ c hc)

end FormLang
