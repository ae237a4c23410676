import FormLang.Proofs.Value.Equality
import FormLang.Token.Stream
import FormLang.Value.Write

set_option autoImplicit false

/-! # Trees that were read

A tree that was read has no values in the place of nodes, its forms are fixed, and its integers are
short enough to be written again (`read_readable`). These are the only trees that programs come as;
what is wrong with others is no concern of theirs.
-/

namespace FormLang

/-! ## Readable trees -/

mutual
/-- Might the node have been read? -/
def Node.Readable : Node → Prop
  | .number _ n => n.writable = true
  | .list elements => Node.AllReadable elements
  | .form style items => style = .fixed ∧ Node.AllReadable items
  | .truth _ _ => False
  | .foreign _ => False
  | _ => True

/-- Might all of some nodes have been read? -/
def Node.AllReadable : List Node → Prop
  | [] => True
  | n :: rest => n.Readable ∧ Node.AllReadable rest
end

mutual
/-- The numbers that are written in a node. -/
def Node.numbers : Node → List Numeral
  | .number _ n => [n]
  | .list elements => Node.numbersOfAll elements
  | .form _ items => Node.numbersOfAll items
  | _ => []

/-- The numbers that are written in some nodes. -/
def Node.numbersOfAll : List Node → List Numeral
  | [] => []
  | n :: rest => n.numbers ++ Node.numbersOfAll rest
end

namespace Node

theorem allReadable_iff {ns : List Node} : AllReadable ns ↔ ∀ n ∈ ns, n.Readable := by
  induction ns with
  | nil => simp [AllReadable]
  | cons n ns ih => simp [AllReadable, ih]

theorem allWritable_iff {ns : List Node} :
    allWritable ns = true ↔ ∀ n ∈ ns, n.writable = true := by
  induction ns with
  | nil => simp [allWritable]
  | cons n ns ih => simp [allWritable, ih]

theorem allWritable_append (ns ms : List Node) :
    allWritable (ns ++ ms) = (allWritable ns && allWritable ms) := by
  induction ns with
  | nil => simp [allWritable]
  | cons n ns ih => rw [List.cons_append, allWritable, allWritable, ih, Bool.and_assoc]

mutual
theorem Readable.writable : ∀ {n : Node}, n.Readable → n.writable = true
  | .symbol _ _, _ => by rw [Node.writable] <;> simp
  | .number _ _, h => by rw [Node.writable]; exact h
  | .text _ _, _ => by rw [Node.writable] <;> simp
  | .list _, h => by rw [Node.writable]; exact AllReadable.writable h
  | .form _ _, h => by rw [Node.writable]; exact AllReadable.writable h.2

theorem AllReadable.writable : ∀ {ns : List Node}, AllReadable ns → allWritable ns = true
  | [], _ => by rw [allWritable]
  | _ :: _, h => by
      rw [allWritable, Bool.and_eq_true]
      exact ⟨Readable.writable h.1, AllReadable.writable h.2⟩
end

mutual
/-- A readable tree is made over the numbers that are written in it. -/
theorem Readable.over {S : Value → Prop} :
    ∀ {n : Node}, n.Readable → (∀ k ∈ n.numbers, S (.number k)) → n.Over S
  | .symbol _ _, _, _ => trivial
  | .number _ k, _, hS => hS k (List.mem_singleton.2 rfl)
  | .text _ _, _, _ => trivial
  | .list _, h, hS => AllReadable.over h hS
  | .form _ _, h, hS => AllReadable.over h.2 hS

theorem AllReadable.over {S : Value → Prop} :
    ∀ {ns : List Node}, AllReadable ns → (∀ k ∈ numbersOfAll ns, S (.number k)) → AllOver S ns
  | [], _, _ => trivial
  | _ :: _, h, hS =>
      ⟨Readable.over h.1 fun k hk => hS k (List.mem_append_left _ hk),
        AllReadable.over h.2 fun k hk => hS k (List.mem_append_right _ hk)⟩
end

end Node

/-! ## Numbers that were read -/

theorem digitsValue_lt (cs : List Char) : digitsValue cs < Nat.pow 10 cs.length := by
  have hfold : ∀ n, cs.foldl (fun n c => 10 * n + (decimalDigit? c).getD 0) n <
      (n + 1) * 10 ^ cs.length := by
    induction cs with
    | nil => simp
    | cons c cs ih =>
        intro n
        have hdigit : (decimalDigit? c).getD 0 < 10 := by
          cases hd : decimalDigit? c with
          | none => decide
          | some d => exact decimalDigit?_lt hd
        have hle : 10 * n + (decimalDigit? c).getD 0 + 1 ≤ (n + 1) * 10 := by omega
        calc
          _ < (10 * n + (decimalDigit? c).getD 0 + 1) * 10 ^ cs.length := ih _
          _ ≤ (n + 1) * 10 * 10 ^ cs.length := Nat.mul_le_mul_right _ hle
          _ = (n + 1) * 10 ^ (c :: cs).length := by
            rw [List.length_cons, Nat.pow_succ, Nat.mul_assoc, Nat.mul_comm 10]
  have h := hfold 0
  rwa [Nat.zero_add, Nat.one_mul] at h

/-- An integer that is short enough to be read is short enough to be written. -/
theorem readInteger_writable {negative : Bool} {digits : List Char} {n : Int}
    (h : readInteger negative digits = .ok n) : (Numeral.int n).writable = true := by
  rw [readInteger] at h
  split at h
  · cases h
  · next hlength =>
    obtain rfl := Except.ok.inj h
    have hlt : digitsValue digits < Numeral.firstUnwritten := by
      unfold Numeral.firstUnwritten
      -- For any limit, as the power for the actual one is too large to be computed here.
      generalize digitLimit = limit at hlength ⊢
      exact Nat.lt_of_lt_of_le (digitsValue_lt digits)
        (Nat.pow_le_pow_right (by decide) (Nat.le_of_not_lt hlength))
    have habs : (signed negative (digitsValue digits)).natAbs = digitsValue digits := by
      rw [signed]
      split <;> omega
    rw [Numeral.writable, habs]
    exact decide_eq_true hlt

theorem ofAtom_readable {text : String} {line : Int} {n : Node}
    (h : Node.ofAtom text line = .ok n) : n.Readable := by
  rw [Node.ofAtom.eq_def] at h
  split at h
  · next negative digits _ =>
    cases hread : readInteger negative digits with
    | error f => rw [hread] at h; cases h
    | ok k =>
        rw [hread] at h
        obtain rfl := Except.ok.inj h
        exact readInteger_writable hread
  · split at h
    · obtain rfl := Except.ok.inj h
      rfl
    · obtain rfl := Except.ok.inj h
      trivial

/-! ## Reading -/

namespace Stream

theorem leaf_readable {t : Token} {n : Node} (h : leaf t = .ok n) : n.Readable := by
  rw [leaf] at h
  split at h
  · obtain rfl := Except.ok.inj h
    trivial
  · exact ofAtom_readable h

/-- Inside the open brackets there are only nodes that were read. -/
def LevelsReadable (levels : List Level) : Prop := ∀ l ∈ levels, ∀ n ∈ l.items, n.Readable

theorem Level.node_readable {l : Level} (h : ∀ n ∈ l.items, n.Readable) : l.node.Readable := by
  have hitems : Node.AllReadable l.items.reverse :=
    Node.allReadable_iff.2 fun n hn => h n (List.mem_reverse.1 hn)
  rw [Level.node]
  split
  · exact ⟨rfl, hitems⟩
  · exact hitems

theorem deliver_readable {n : Node} {levels : List Level} (hn : n.Readable)
    (h : LevelsReadable levels) :
    match deliver n levels with
    | .inl node => node.Readable
    | .inr levels => LevelsReadable levels := by
  cases levels with
  | nil => exact hn
  | cons l outer =>
      intro l' hl' m hm
      rcases List.mem_cons.1 hl' with rfl | hl'
      · rcases List.mem_cons.1 hm with rfl | hm
        · exact hn
        · exact h l (by simp) m hm
      · exact h l' (by simp [hl']) m hm

theorem parseFrom_readable {failure : Option (ReadFault × Nat)} {line : Nat}
    {levels : List Level} {tokens : List Token} {n : Node} {s : Stream}
    (hlevels : LevelsReadable levels)
    (h : parseFrom failure line levels tokens = (.ok n, s)) : n.Readable := by
  induction tokens generalizing line levels with
  | nil =>
      rw [parseFrom.eq_def] at h
      dsimp only at h
      split at h <;> cases h
  | cons t rest ih =>
      rw [parseFrom.eq_def] at h
      dsimp only at h
      split at h
      · -- An opening bracket: the new level has nothing in it yet.
        next b _ =>
        refine ih (fun l hl => ?_) h
        rcases List.mem_cons.1 hl with rfl | hl
        · simp
        · exact hlevels l hl
      · -- A closing bracket: the level becomes a node of the level around it.
        split at h
        · cases h
        · next l outer =>
          have hnode := Level.node_readable (hlevels l (by simp))
          have houter : LevelsReadable outer := fun l' hl' => hlevels l' (by simp [hl'])
          have hdelivered := deliver_readable hnode houter
          split at h
          · split at h
            · next node hd =>
              rw [hd] at hdelivered
              cases h
              exact hdelivered
            · next levels hd =>
              rw [hd] at hdelivered
              exact ih hdelivered h
          · cases h
      · -- Any other token is a node by itself.
        split at h
        · cases h
        · next node hleaf =>
          have hdelivered := deliver_readable (leaf_readable hleaf) hlevels
          split at h
          · next node hd =>
            rw [hd] at hdelivered
            cases h
            exact hdelivered
          · next levels hd =>
            rw [hd] at hdelivered
            exact ih hdelivered h

end Stream

/-- Whatever is read is a readable tree. -/
theorem read_readable {source : String} {n : Node} (h : read source = .ok n) : n.Readable := by
  rw [read] at h
  split at h
  · cases h
  · cases h
  · next s _ =>
    split at h
    · cases h
    · next node s' hparse =>
      have hreadable : node.Readable :=
        Stream.parseFrom_readable (fun l hl => by cases hl) hparse
      split at h
      · cases h
      · cases h
      · cases h
        exact hreadable

end FormLang
