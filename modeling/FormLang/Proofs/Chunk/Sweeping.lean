import FormLang.Proofs.Chunk.Listing
import FormLang.Proofs.Chunk.Plan
import FormLang.Proofs.Reader.Integers

set_option autoImplicit false

/-! # What a listing shows of the code

The lines of a listing tile the code: each stands for one byte that is not part of an operand, with
the operand behind it, and the first stands at the first byte (`sweep_eq_some_iff`). There is no such
row of lines just when an operand is cut off at the end (`sweep_eq_none_iff`). A line tells all that
it stands for, so that the code can be put together again from the lines (`Listed.ofLine?_text`).
-/

namespace FormLang

/-! ## Entries -/

namespace Listed

/-- The bytes that an entry stands for. -/
def bytes (e : Listed) : List UInt8 :=
  e.byte :: match e.operand? with
    | some n => [UInt8.ofNat (n / 256), UInt8.ofNat (n % 256)]
    | none => []

/-- Does an operand belong to the byte? -/
def needsOperand (b : UInt8) : Bool := (Opcode.ofByte? b).any Opcode.hasOperand

/-- The entry has the instruction of its byte, and an operand of two bytes just when it needs one. -/
structure Sound (e : Listed) : Prop where
  opcode_eq : e.opcode? = Opcode.ofByte? e.byte
  operand : e.operand?.isSome = needsOperand e.byte
  fits : ∀ n, e.operand? = some n → n ≤ 0xFFFF

end Listed

/-- The entries stand for the bytes, one behind the other from an offset on. -/
inductive Tiles : Nat → List UInt8 → List Listed → Prop where
  | nil (offset : Nat) : Tiles offset [] []
  | cons {e : Listed} {bs : List UInt8} {es : List Listed} (hsound : e.Sound)
      (h : Tiles (e.offset + e.bytes.length) bs es) : Tiles e.offset (e.bytes ++ bs) (e :: es)

/-- Behind the bytes of some entries the code ends inside an operand. -/
def CutOff (bs : List UInt8) : Prop :=
  ∃ (es : List Listed) (op : Opcode) (rest : List UInt8), (∀ e ∈ es, e.Sound) ∧
    op.hasOperand = true ∧ rest.length < 2 ∧ bs = es.flatMap Listed.bytes ++ op.byte :: rest

section

variable {offset : Nat} {bs rest : List UInt8} {es : List Listed} {e : Listed} {b : UInt8}

theorem Tiles.sound (h : Tiles offset bs es) : ∀ e ∈ es, e.Sound := by
  induction h with
  | nil offset => simp
  | cons hsound h ih => exact List.forall_mem_cons.2 ⟨hsound, ih⟩

theorem Tiles.flatMap_bytes (h : Tiles offset bs es) : es.flatMap Listed.bytes = bs := by
  induction h with
  | nil offset => rfl
  | cons hsound h ih => rw [List.flatMap_cons, ih]

theorem Listed.length_bytes_pos (e : Listed) : 0 < e.bytes.length := by simp [bytes]

theorem Tiles.le_offset (h : Tiles offset bs es) : ∀ e ∈ es, offset ≤ e.offset := by
  induction h with
  | nil offset => simp
  | cons hsound h ih =>
      refine List.forall_mem_cons.2 ⟨Nat.le_refl _, fun e' he' => ?_⟩
      have := ih e' he'
      omega

/-- From line to line the offsets grow. -/
theorem Tiles.pairwise (h : Tiles offset bs es) :
    (es.map (·.offset)).Pairwise (· < ·) := by
  induction h with
  | nil offset => exact .nil
  | cons hsound h ih =>
      rename_i e bs es
      refine .cons (fun place hplace => ?_) ih
      obtain ⟨e', he', rfl⟩ := List.mem_map.1 hplace
      have hle := h.le_offset e' he'
      have hpos := e.length_bytes_pos
      show e.offset < e'.offset
      omega

/-! ## The sweep -/

/-- The first entry of some code, unless its operand is cut off. -/
theorem exists_entry (offset : Nat) (b : UInt8) (bs : List UInt8) :
    (∃ op : Opcode, op.byte = b ∧ op.hasOperand = true ∧ bs.length < 2) ∨
      ∃ (e : Listed) (more : List UInt8), e.Sound ∧ e.offset = offset ∧ e.byte = b ∧
        b :: bs = e.bytes ++ more := by
  cases hop : Opcode.ofByte? b with
  | none =>
      refine .inr ⟨⟨offset, b, none, none⟩, bs, ⟨hop.symm, ?_, fun _ h => nomatch h⟩, rfl, rfl, rfl⟩
      simp [Listed.needsOperand, hop]
  | some op =>
      cases hoperand : op.hasOperand with
      | false =>
          refine .inr ⟨⟨offset, b, some op, none⟩, bs, ⟨hop.symm, ?_, fun _ h => nomatch h⟩, rfl,
            rfl, rfl⟩
          simp [Listed.needsOperand, hop, hoperand]
      | true =>
          have hshort : bs.length < 2 → ∃ op : Opcode,
              op.byte = b ∧ op.hasOperand = true ∧ bs.length < 2 := fun h =>
            ⟨op, Opcode.byte_of_ofByte? hop, hoperand, h⟩
          match bs with
          | [] => exact .inl (hshort (by simp))
          | [_] => exact .inl (hshort (by simp))
          | high :: low :: more =>
              have hhigh := high.toNat_lt
              have hlow := low.toNat_lt
              refine .inr ⟨⟨offset, b, some op, some (high.toNat * 256 + low.toNat)⟩, more,
                ⟨hop.symm, ?_, fun n hn => ?_⟩, rfl, rfl, ?_⟩
              · simp [Listed.needsOperand, hop, hoperand]
              · cases hn
                omega
              · have hdiv : (high.toNat * 256 + low.toNat) / 256 = high.toNat := by omega
                have hmod : (high.toNat * 256 + low.toNat) % 256 = low.toNat := by omega
                simp [Listed.bytes, hdiv, hmod]

/-- The sweep makes an entry of its bytes. -/
theorem sweep_bytes (h : e.Sound) (rest : List UInt8) :
    sweep e.offset (e.bytes ++ rest) =
      (sweep (e.offset + e.bytes.length) rest).map (e :: ·) := by
  obtain ⟨offset, b, opcode?, operand?⟩ := e
  obtain ⟨hop, hoperand, hfits⟩ := h
  dsimp only at hop hoperand hfits ⊢
  subst hop
  cases operand? with
  | none =>
      rw [Option.isSome_none] at hoperand
      cases hop : Opcode.ofByte? b with
      | none => simp [Listed.bytes, sweep, hop]
      | some op =>
          have hnone : op.hasOperand = false := by
            rw [Listed.needsOperand, hop] at hoperand
            exact hoperand.symm
          simp [Listed.bytes, sweep, hop, hnone]
  | some n =>
      have hn := hfits n rfl
      cases hop : Opcode.ofByte? b with
      | none => simp [Listed.needsOperand, hop] at hoperand
      | some op =>
          have hsome : op.hasOperand = true := by
            rw [Listed.needsOperand, hop] at hoperand
            exact hoperand.symm
          have hvalue : n / 256 % 256 * 256 + n % 256 = n := by omega
          simp [Listed.bytes, sweep, hop, hsome, hvalue]

theorem sweep_cut {op : Opcode} (h : op.hasOperand = true) (hrest : rest.length < 2)
    (offset : Nat) : sweep offset (op.byte :: rest) = none := by
  rw [sweep.eq_def]
  simp only [Opcode.ofByte?_byte, h, if_true]
  match rest with
  | [] => rfl
  | [_] => rfl
  | _ :: _ :: _ =>
      simp only [List.length_cons] at hrest
      omega

/-- What the sweep finds tiles the code, and nothing else does. -/
theorem sweep_eq_some_iff : sweep offset bs = some es ↔ Tiles offset bs es := by
  constructor
  · intro h
    induction hlength : bs.length using Nat.strong_induction_on generalizing offset bs es with
    | h length ih =>
    cases bs with
    | nil =>
        obtain rfl := Option.some.inj h
        exact .nil offset
    | cons b bs =>
        rcases exists_entry offset b bs with ⟨op, rfl, hop, hshort⟩ | ⟨e, more, he, rfl, -, hbs⟩
        · rw [sweep_cut hop hshort] at h
          cases h
        · rw [hbs, sweep_bytes he] at h
          obtain ⟨later, hlater, rfl⟩ := Option.map_eq_some_iff.1 h
          rw [hbs] at hlength ⊢
          rw [List.length_append] at hlength
          have hpos := e.length_bytes_pos
          exact .cons he (ih more.length (by omega) hlater rfl)
  · intro h
    induction h with
    | nil offset => rfl
    | cons hsound h ih => rw [sweep_bytes hsound, ih, Option.map_some]

/-- The sweep fails just when an operand is cut off. -/
theorem sweep_eq_none_iff : sweep offset bs = none ↔ CutOff bs := by
  constructor
  · intro h
    induction hlength : bs.length using Nat.strong_induction_on generalizing offset bs with
    | h length ih =>
    cases bs with
    | nil => cases h
    | cons b bs =>
        rcases exists_entry offset b bs with ⟨op, rfl, hop, hshort⟩ | ⟨e, more, he, rfl, -, hbs⟩
        · exact ⟨[], op, bs, by simp, hop, hshort, rfl⟩
        · rw [hbs, sweep_bytes he, Option.map_eq_none_iff] at h
          rw [hbs] at hlength ⊢
          rw [List.length_append] at hlength
          have hpos := e.length_bytes_pos
          obtain ⟨es, op, rest, hes, hop, hshort, rfl⟩ := ih more.length (by omega) h rfl
          refine ⟨e :: es, op, rest, List.forall_mem_cons.2 ⟨he, hes⟩, hop, hshort, ?_⟩
          rw [List.flatMap_cons, List.append_assoc]
  · rintro ⟨es, op, rest, hes, hop, hshort, rfl⟩
    induction es generalizing offset with
    | nil => exact sweep_cut hop hshort offset
    | cons e es ih =>
        obtain ⟨he, hes⟩ := List.forall_mem_cons.1 hes
        -- Where the entry stands makes no difference to its bytes.
        have hplace : ({ e with offset := offset } : Listed).Sound := ⟨he.1, he.2, he.3⟩
        have hrest := sweep_bytes hplace (es.flatMap Listed.bytes ++ op.byte :: rest)
        rw [ih hes] at hrest
        rw [List.flatMap_cons, List.append_assoc]
        exact hrest

end

/-! ## Lines -/

/-- The letters after an offset: the name of an instruction, or the byte that is none. -/
def Listed.name (b : UInt8) : List Char :=
  match Opcode.ofByte? b with
  | some op => op.name.toList
  | none => 'O' :: 'P' :: '_' :: (hexDigits 2 b.toNat).map Char.toUpper

/-- The value of a digit in base sixteen, in capital letters. -/
def hexValue (c : Char) : Nat := if c.isDigit then c.toNat - '0'.toNat else c.toNat - 'A'.toNat + 10

/-- The byte with a name. -/
def Listed.named? (name : List Char) : Option UInt8 :=
  match Opcode.all.find? fun op => op.name.toList == name, name with
  | some op, _ => some op.byte
  | none, ['O', 'P', '_', high, low] => some (UInt8.ofNat (hexValue high * 16 + hexValue low))
  | none, _ => none

/-- The operand at the end of a line. -/
def Listed.operandNamed? : List Char → Option Nat
  | [] => none
  | cs => some (digitsValue (cs.dropWhile fun c => !c.isDigit))

/-- Reads the entry of a line that is indented. -/
def Listed.ofLine? (indent line : String) : Option Listed :=
  let cs := line.toList.drop indent.toList.length
  let behind := (cs.dropWhile Char.isDigit).drop 2
  (named? (behind.takeWhile (· != ' '))).map fun b =>
    ⟨digitsValue (cs.takeWhile Char.isDigit), b, Opcode.ofByte? b,
      operandNamed? (behind.dropWhile (· != ' '))⟩

/-- The name of a byte stands for that byte alone, and has neither a blank nor a line end in it. -/
theorem named?_name (b : UInt8) : Listed.named? (Listed.name b) = some b ∧
    ∀ c ∈ Listed.name b, (c != ' ') = true ∧ c ≠ '\n' := by
  have h : ∀ n, n < 256 →
      Listed.named? (Listed.name (UInt8.ofNat n)) = some (UInt8.ofNat n) ∧
        (Listed.name (UInt8.ofNat n)).all (fun c => c != ' ' && c != '\n') = true := by
    decide +kernel
  obtain ⟨hnamed, hall⟩ := h b.toNat b.toNat_lt
  rw [UInt8.ofNat_toNat] at hnamed hall
  refine ⟨hnamed, fun c hc => ?_⟩
  simpa using List.all_eq_true.1 hall c hc

/-- The end of a line with an operand, or without one. -/
def Listed.EndsWith (operand? : Option Nat) (cs : List Char) : Prop :=
  match operand? with
  | none => cs = []
  | some n => ∃ letters, (∀ c ∈ letters, c.isDigit = false ∧ c ≠ '\n') ∧
      cs = ' ' :: (letters ++ Nat.toDigits 10 n)

/-- The parts of a line. -/
theorem Listed.exists_toList_text {e : Listed} (h : e.Sound) (indent : String) :
    ∃ (zeros : Nat) (behind : List Char), EndsWith e.operand? behind ∧
      (e.text indent).toList = indent.toList ++
        (List.replicate zeros '0' ++ Nat.toDigits 10 e.offset ++
          ':' :: ' ' :: (name e.byte ++ behind)) := by
  obtain ⟨offset, b, opcode?, operand?⟩ := e
  obtain rfl : opcode? = Opcode.ofByte? b := h.opcode_eq
  have hoperand : operand?.isSome = needsOperand b := h.operand
  refine ⟨4 - (toString offset).length, ?_⟩
  cases operand? with
  | none =>
      refine ⟨[], rfl, ?_⟩
      rw [text, name]
      cases Opcode.ofByte? b <;>
        simp [padZeros, hexByte, Nat.toList_repr, String.toList_append]
  | some n =>
      cases hop : Opcode.ofByte? b with
      | none => simp [needsOperand, hop] at hoperand
      | some op =>
          refine ⟨' ' :: ((if op = .list then "count=".toList else []) ++ Nat.toDigits 10 n),
            ⟨_, ?_, rfl⟩, ?_⟩
          · cases op <;> simp
          · rw [text, name, hop]
            cases op <;> simp [padZeros, Nat.toList_repr, String.toList_append]

theorem digitsValue_zeros (k : Nat) (cs : List Char) :
    digitsValue (List.replicate k '0' ++ cs) = digitsValue cs := by
  have hzero : ('0' : Char).isDigit = true := by decide
  induction k with
  | zero => rfl
  | succ k ih =>
      rw [List.replicate_succ, List.cons_append, digitsValue, List.foldl_cons,
        decimalDigit?_of_isDigit hzero]
      exact ih

/-- What satisfies a condition in front of something that does not is what is taken as long as it
does. -/
theorem takeWhile_dropWhile_append {p : Char → Bool} {front behind : List Char}
    (hfront : ∀ c ∈ front, p c = true) (hbehind : ∀ c ∈ behind.head?, p c = false) :
    (front ++ behind).takeWhile p = front ∧ (front ++ behind).dropWhile p = behind := by
  rw [List.takeWhile_append_of_pos hfront, List.dropWhile_append_of_pos hfront]
  cases behind with
  | nil => exact ⟨List.append_nil front, rfl⟩
  | cons c cs =>
      have hc : ¬p c = true := by
        rw [hbehind c rfl]
        exact Bool.false_ne_true
      rw [List.takeWhile_cons_of_neg hc, List.dropWhile_cons_of_neg hc, List.append_nil]
      exact ⟨rfl, rfl⟩

theorem Listed.operandNamed?_of_endsWith {operand? : Option Nat} {cs : List Char}
    (h : EndsWith operand? cs) :
    operandNamed? cs = operand? ∧ ∀ c ∈ cs.head?, (c != ' ') = false := by
  cases operand? with
  | none =>
      obtain rfl : cs = [] := h
      exact ⟨rfl, by simp⟩
  | some n =>
      obtain ⟨letters, hletters, rfl⟩ := h
      have hfront : ∀ c ∈ ' ' :: letters, (!c.isDigit) = true := by
        refine List.forall_mem_cons.2 ⟨by decide, fun c hc => ?_⟩
        rw [(hletters c hc).1]
        rfl
      have hdigits : ∀ c ∈ (Nat.toDigits 10 n).head?, (!c.isDigit) = false := fun c hc => by
        rw [isDigit_toDigits n c (List.mem_of_mem_head? hc)]
        rfl
      obtain ⟨-, hdrop⟩ := takeWhile_dropWhile_append hfront hdigits
      refine ⟨?_, by simp⟩
      rw [operandNamed?, ← List.cons_append, hdrop, digitsValue_toDigits]
      exact List.cons_ne_nil _ _

/-- The line of an entry is read back as the entry. -/
theorem Listed.ofLine?_text {e : Listed} (h : e.Sound) (indent : String) :
    ofLine? indent (e.text indent) = some e := by
  obtain ⟨zeros, behind, hbehind, htext⟩ := exists_toList_text h indent
  obtain ⟨hnamed, hname⟩ := named?_name e.byte
  obtain ⟨hoperand, hspace⟩ := operandNamed?_of_endsWith hbehind
  have hdigits : ∀ c ∈ List.replicate zeros '0' ++ Nat.toDigits 10 e.offset,
      c.isDigit = true := by
    intro c hc
    rcases List.mem_append.1 hc with hc | hc
    · rw [(List.mem_replicate.1 hc).2]
      decide
    · exact isDigit_toDigits _ c hc
  have hcolon : ∀ c ∈ (':' :: ' ' :: (name e.byte ++ behind)).head?, c.isDigit = false := by
    simp
  obtain ⟨htake, hdrop⟩ := takeWhile_dropWhile_append hdigits hcolon
  obtain ⟨htake', hdrop'⟩ :=
    takeWhile_dropWhile_append (p := (· != ' ')) (fun c hc => (hname c hc).1) hspace
  rw [ofLine?, htext, List.drop_left, htake, hdrop, List.drop_succ_cons, List.drop_succ_cons,
    List.drop_zero, htake', hdrop', hnamed, hoperand, digitsValue_zeros, digitsValue_toDigits,
    Option.map_some, ← h.opcode_eq]

/-- The line of an entry is a single one. -/
theorem Listed.lineEnd_not_mem_text {e : Listed} (h : e.Sound) {indent : String}
    (hindent : '\n' ∉ indent.toList) : '\n' ∉ (e.text indent).toList := by
  obtain ⟨zeros, behind, hbehind, htext⟩ := exists_toList_text h indent
  obtain ⟨-, hname⟩ := named?_name e.byte
  have hdigits : ∀ n, '\n' ∉ Nat.toDigits 10 n := fun n hn =>
    absurd (isDigit_toDigits n _ hn) (by decide)
  have hend : '\n' ∉ behind := by
    rw [EndsWith.eq_def] at hbehind
    split at hbehind
    · simp [hbehind]
    · obtain ⟨letters, hletters, rfl⟩ := hbehind
      have hletters : '\n' ∉ letters := fun hn => (hletters _ hn).2 rfl
      simp [hletters, hdigits]
  have hname : '\n' ∉ name e.byte := fun hn => (hname _ hn).2 rfl
  simp [htext, hindent, hdigits, hname, hend, List.mem_replicate]

/-! ## Chunks inside chunks -/

/-- A chunk, and the chunks among its constants, and so on. -/
inductive Value.Nests : Value → Value → Prop where
  | itself (code : Array UInt8) (constants : List Value) :
      Nests (.chunk code constants) (.chunk code constants)
  | constant {code : Array UInt8} {constants : List Value} {v inner : Value} (hv : v ∈ constants)
      (h : Nests v inner) : Nests (.chunk code constants) inner

/-- Is an operand cut off in the code of the chunk, or of a chunk nested in it? -/
def Value.CutInside (v : Value) : Prop :=
  ∃ code constants, v.Nests (.chunk code constants) ∧ CutOff code.toList

theorem Value.not_cutInside {v : Value} (h : v.kind ≠ .chunk) : ¬v.CutInside := by
  rintro ⟨code, constants, hnests, -⟩
  cases hnests <;> exact h rfl

theorem Value.cutInside_chunk_iff {code : Array UInt8} {constants : List Value} :
    (Value.chunk code constants).CutInside ↔
      CutOff code.toList ∨ ∃ v ∈ constants, v.CutInside := by
  constructor
  · rintro ⟨inner, others, hnests, hcut⟩
    cases hnests with
    | itself => exact .inl hcut
    | constant hv h => exact .inr ⟨_, hv, inner, others, h, hcut⟩
  · rintro (hcut | ⟨v, hv, inner, others, hnests, hcut⟩)
    · exact ⟨code, constants, .itself code constants, hcut⟩
    · exact ⟨inner, others, .constant hv hnests, hcut⟩

theorem describeConstant_ok {v : Value} (h : v.writable = true) :
    ∃ text, describeConstant v = .ok text := by
  rw [describeConstant.eq_def]
  split
  · exact ⟨_, rfl⟩
  · exact ⟨_, if_pos h⟩

/-- Under a condition the code ends inside an instruction, and else there is a result. -/
def EndsEarly {α : Type} (p : Prop) (r : Except Fault α) : Prop :=
  (p ∧ r = .error .codeEnds) ∨ ¬p ∧ ∃ a, r = .ok a

theorem EndsEarly.bind {α β : Type} {p q : Prop} {r : Except Fault α} {g : α → Except Fault β}
    (h : EndsEarly p r) (hg : ∀ a, EndsEarly q (g a)) : EndsEarly (p ∨ q) (r >>= g) := by
  rcases h with ⟨hp, rfl⟩ | ⟨hp, a, rfl⟩
  · exact .inl ⟨.inl hp, rfl⟩
  · rcases hg a with ⟨hq, herror⟩ | ⟨hq, b, hok⟩
    · exact .inl ⟨.inr hq, herror⟩
    · exact .inr ⟨not_or.2 ⟨hp, hq⟩, b, hok⟩

theorem EndsEarly.map {α β : Type} {p : Prop} {r : Except Fault α} {g : α → β}
    (h : EndsEarly p r) : EndsEarly p (r >>= fun a => pure (g a)) := by
  have hbind := h.bind (q := False) fun a => .inr ⟨id, g a, rfl⟩
  rwa [or_false] at hbind

mutual
/-- A chunk whose constants can be written is listed, unless an operand is cut off somewhere. -/
theorem endsEarly_listing (code : Array UInt8) (constants : List Value)
    (h : Value.allWritable constants = true) (indent : String) :
    EndsEarly (Value.chunk code constants).CutInside
      ((Value.chunk code constants).listing indent) := by
  rw [Value.cutInside_chunk_iff, Value.listing]
  have hlines := endsEarly_listConstants constants h indent 0
  cases hsweep : sweep 0 code.toList with
  | none => exact .inl ⟨.inl (sweep_eq_none_iff.1 hsweep), rfl⟩
  | some entries =>
      have hcut : ¬CutOff code.toList := fun hcut => by
        rw [sweep_eq_none_iff.2 hcut] at hsweep
        cases hsweep
      rw [or_iff_right hcut]
      exact hlines.map
  termination_by sizeOf (Value.chunk code constants)

theorem endsEarly_listConstants (vs : List Value) (h : Value.allWritable vs = true)
    (indent : String) (place : Nat) :
    EndsEarly (∃ v ∈ vs, v.CutInside) (listConstants indent place vs) := by
  match vs with
  | [] => exact .inr ⟨by simp, [], by rw [listConstants]; rfl⟩
  | v :: rest =>
    rw [Value.allWritable, Bool.and_eq_true] at h
    obtain ⟨hv, hrest⟩ := h
    have hmore := endsEarly_listConstants rest hrest indent (place + 1)
    rw [List.exists_mem_cons_iff, listConstants.eq_def]
    dsimp only
    split
    · next code constants =>
      have hnested := endsEarly_listing code constants hv (indent ++ "    ")
      exact hnested.bind fun _ => hmore.map
    · next hchunk =>
      have hkind : v.kind ≠ .chunk := fun hkind => by
        obtain ⟨code, constants, rfl⟩ := Value.exists_of_kind_chunk hkind
        exact hchunk code constants rfl
      have htext : EndsEarly v.CutInside (describeConstant v) :=
        .inr ⟨Value.not_cutInside hkind, describeConstant_ok hv⟩
      exact htext.bind fun _ => hmore.map
  termination_by sizeOf vs
end

end FormLang
