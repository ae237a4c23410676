import FormLang.Library.Samples
import FormLang.Proofs.Library.Signature
import Mathlib.Data.List.Forall2

set_option autoImplicit false

/-! # The standard functions check their arguments first

Each function of the standard library has a signature and keeps to it: a call with the wrong number
of arguments, or with an argument that is not what it has to be, is refused before anything is
computed (`refused_before_computing`).

There are only few ways of checking arguments: one argument at a time (`kept_unary`), numbers up to
the first that is none (`kept_of_numbersFrom`), lists in a row (`kept_append`), and the two
functions with a second argument, `nth` and `split`. There is one lemma for each of these ways, and
what a function computes from its arguments does not have to do with it: it must not end in an
error, and that is all.
-/

namespace FormLang

open LibraryFunction

/-! ## Complaints -/

section

variable {α β : Type} {function : String}

theorem written_bind (v : Value) (g : String → Except Failure α) :
    (liftFault v.written >>= g) =
      if v.writable then g v.write else .error (.fault .writtenDigits) := by
  rw [Value.written]
  split <;> rfl

theorem expected_eq_raised (wanted : String) (v : Value) :
    (expected function wanted v : Except Failure α) =
      (Complaint.wrongType wanted v).raised function :=
  written_bind v _

/-- Nothing is done after a complaint. -/
theorem Complaint.raised_bind (c : Complaint) (g : α → Except Failure β) :
    (c.raised function >>= g) = c.raised function := by
  rw [raised, raised]
  split <;> rfl

theorem respects_expected_bind (wanted : String) (v : Value) (g : α → Except Failure Value) :
    Respects function (some (.wrongType wanted v)) (expected function wanted v >>= g) := by
  show (expected function wanted v >>= g) = _
  rw [expected_eq_raised, Complaint.raised_bind]

/-- A list is asked for, and then something else. -/
theorem respects_list_bind {later : Option Complaint} {run : List Value → Except Failure Value}
    (v : Value) (h : ∀ items, v = .list items → Respects function later (run items)) :
    Respects function ((Demand.list.complaint? v).or later) (Lists.list function v >>= run) := by
  cases v with
  | list items => exact h items rfl
  | _ => exact respects_expected_bind "a list" _ run

/-- A text is asked for, and then something else. -/
theorem respects_text_bind {later : Option Complaint} {run : String → Except Failure Value}
    (v : Value) (h : ∀ s, v = .text s → Respects function later (run s)) :
    Respects function ((Demand.text.complaint? v).or later) (Texts.text function v >>= run) := by
  cases v with
  | text s => exact h s rfl
  | _ => exact respects_expected_bind "a string" _ run

end

/-! ## The same for all arguments -/

namespace Signature

/-- The signature of a function that asks the same of each argument. -/
def uniform (name : String) (arity : Arity) (d : Demand) : Signature := ⟨name, arity, fun _ => d⟩

variable {name : String} {arity : Arity} {d : Demand}

theorem complaintFrom?_uniform (front vs : List Value) :
    (uniform name arity d).complaintFrom? front vs = (uniform name arity d).firstComplaint? vs := by
  have hfront : ∀ before, (uniform name arity d).complaintFrom? front vs =
      (uniform name arity d).complaintFrom? before vs := by
    induction vs generalizing front with
    | nil => exact fun _ => rfl
    | cons v vs ih =>
        intro before
        exact congrArg (d.complaint? v).or (ih (front ++ [v]) (before ++ [v]))
  exact hfront []

theorem firstComplaint?_uniform_cons (v : Value) (vs : List Value) :
    (uniform name arity d).firstComplaint? (v :: vs) =
      (d.complaint? v).or ((uniform name arity d).firstComplaint? vs) :=
  congrArg (d.complaint? v).or (complaintFrom?_uniform [v] vs)

theorem firstComplaint?_uniform_singleton (v : Value) :
    (uniform name arity d).firstComplaint? [v] = d.complaint? v := Option.or_none

/-- A function of one argument. -/
theorem kept_unary {run : Value → Except Failure Value}
    (h : ∀ v, Respects name (d.complaint? v) (run v)) :
    (uniform name (.exactly 1) d).Kept (unary name run) where
  arity vs hvs := by
    rcases vs with _ | ⟨v, _ | ⟨w, vs⟩⟩
    · rfl
    · exact absurd rfl hvs
    · rfl
  checked vs hvs := by
    obtain ⟨v, rfl⟩ := List.length_eq_one_iff.1 hvs
    rw [firstComplaint?_uniform_singleton]
    exact h v

/-- A function of any arguments whatsoever. -/
theorem kept_anything {run : Value → Except Failure Value}
    (h : ∀ vs : List Value, OnlyFaults (run (.list vs))) :
    (uniform name (.atLeast 0) .anything).Kept run where
  arity _ hvs := absurd (Nat.zero_le _) hvs
  checked vs _ := by
    have hnone : (uniform name (.atLeast 0) .anything).firstComplaint? vs = none :=
      firstComplaint?_eq_none_iff.2 fun _ _ _ _ => trivial
    rw [hnone]
    exact h vs

end Signature

open Signature (uniform)

/-! ## Tables of signatures -/

namespace Signature

/-- The signature is that of the function, which keeps to it. -/
def KeptBy (s : Signature) (f : LibraryFunction) : Prop := s.name = f.name ∧ s.Kept f.run

/-- A function that a class has by a name keeps to the signature that a table has by this name, if
the functions of the class stand in the order of the table. -/
theorem exists_of_find? {table : List Signature} {members : List Member} {name : String}
    {m : Member}
    (h : List.Forall₂ (fun s m => s.KeptBy m.function) table members)
    (hm : members.find? (·.function.name == name) = some m) :
    ∃ s, table.find? (·.name == name) = some s ∧ s.Kept m.function.run := by
  induction h with
  | nil => cases hm
  | @cons s m' table members hs _ ih =>
      rw [List.find?_cons, hs.1]
      rw [List.find?_cons] at hm
      by_cases hname : (m'.function.name == name) = true
      · rw [hname] at hm ⊢
        obtain rfl : m' = m := Option.some.inj hm
        exact ⟨s, rfl, hs.2⟩
      · rw [Bool.not_eq_true] at hname
        rw [hname] at hm ⊢
        exact ih hm

theorem keptBy_own (origin : String) {table : List Signature} {functions : List LibraryFunction}
    (h : List.Forall₂ KeptBy table functions) :
    List.Forall₂ (fun s m => s.KeptBy m.function) table (LibraryClass.own origin functions) :=
  List.forall₂_map_right_iff.2 h

end Signature

/-! ## Arithmetic -/

namespace Arithmetic

/-- The numbers are taken from the arguments one by one, up to the first that is none. -/
theorem respects_numbersFrom {name : String} {arity : Arity} (seen : List Numeral)
    (vs : List Value) {compute : List Numeral → Except Failure Value}
    (h : ∀ ns, ns.length = seen.length + vs.length → OnlyFaults (compute ns)) :
    Respects name ((uniform name arity .number).firstComplaint? vs)
      (numbersFrom name seen vs >>= compute) := by
  induction vs generalizing seen with
  | nil => exact h seen.reverse (by simp)
  | cons v vs ih =>
      rw [Signature.firstComplaint?_uniform_cons]
      cases v with
      | number n =>
          refine ih (n :: seen) fun ns hns => h ns ?_
          rw [List.length_cons] at hns ⊢
          omega
      | _ => exact respects_expected_bind "a number" _ compute

/-- A function that first counts its arguments and then takes the numbers from them. -/
theorem kept_of_numbersFrom {name : String} {arity : Arity} {run : Value → Except Failure Value}
    (harity : ∀ vs : List Value, ¬arity.Admits vs.length →
      run (.list vs) = arityError name arity.text vs)
    (hrun : ∀ vs : List Value, arity.Admits vs.length → ∃ compute,
      run (.list vs) = numbersFrom name [] vs >>= compute ∧
        ∀ ns, ns.length = vs.length → OnlyFaults (compute ns)) :
    (uniform name arity .number).Kept run where
  arity := harity
  checked vs hvs := by
    obtain ⟨compute, hcompute, honly⟩ := hrun vs hvs
    rw [hcompute]
    refine respects_numbersFrom [] vs fun ns hns => honly ns ?_
    rwa [List.length_nil, Nat.zero_add] at hns

theorem numbers_list (function : String) (least : Nat) (vs : List Value) :
    numbers function least (.list vs) =
      if vs.length < least then arityError function ("at least " ++ toString least) vs
      else numbersFrom function [] vs := rfl

/-- A function of numbers, of which there have to be a least number. -/
theorem kept_numbers {name : String} {least : Nat} {compute : List Numeral → Except Failure Value}
    (h : ∀ ns, least ≤ ns.length → OnlyFaults (compute ns)) :
    (uniform name (.atLeast least) .number).Kept fun args =>
      numbers name least args >>= compute := by
  refine kept_of_numbersFrom (fun vs hvs => ?_) fun vs hvs => ⟨compute, ?_, fun ns hns => ?_⟩
  · rw [numbers_list, if_pos (Nat.not_le.1 hvs)]
    rfl
  · rw [numbers_list, if_neg (Nat.not_lt.2 hvs)]
  · have hleast : least ≤ vs.length := hvs
    exact h ns (by omega)

/-- To compute a number is to answer with a value or a fault. -/
theorem onlyFaults_number (r : Except Fault Numeral) :
    OnlyFaults (liftFault r >>= fun n => (.ok (.number n) : Except Failure Value)) :=
  (onlyFaults_liftFault r).bind fun n _ => onlyFaults_ok (Value.number n)

theorem kept_add : (uniform "add" (.atLeast 0) .number).Kept add :=
  kept_numbers fun ns _ => onlyFaults_number (total ns)

theorem kept_subtract : (uniform "subtract" (.atLeast 1) .number).Kept subtract := by
  refine kept_numbers fun ns hns => ?_
  rcases ns with _ | ⟨n, _ | ⟨m, ns⟩⟩
  · cases hns
  · exact onlyFaults_ok (Value.number n.neg)
  · exact (onlyFaults_liftFault (total (m :: ns))).bind fun sum _ => onlyFaults_number (n.sub sum)

theorem kept_multiply : (uniform "multiply" (.atLeast 0) .number).Kept multiply :=
  kept_numbers fun ns _ => onlyFaults_number (ns.foldlM Numeral.mul one)

theorem kept_divide : (uniform "divide" (.atLeast 2) .number).Kept divide := by
  refine kept_numbers fun ns hns => ?_
  rcases ns with _ | ⟨n, ns⟩
  · cases hns
  · exact onlyFaults_number (ns.foldlM Numeral.div n)

theorem kept_best (name : String) (beats : Numeral → Numeral → Bool) :
    (uniform name (.atLeast 1) .number).Kept (best name beats) := by
  refine kept_numbers fun ns hns => ?_
  rcases ns with _ | ⟨n, ns⟩
  · cases hns
  · exact onlyFaults_ok _

/-- The remainder counts its arguments by itself. -/
theorem mod_list (vs : List Value) :
    mod (.list vs) =
      if vs.length ≠ 2 then arityError "mod" "2" vs
      else numbersFrom "mod" [] vs >>= fun
        | [a, b] => do
          let remainder ← liftFault (a.mod b)
          return .number remainder
        | _ => arityError "mod" "2" vs := rfl

theorem kept_mod : (uniform "mod" (.exactly 2) .number).Kept mod := by
  refine kept_of_numbersFrom (fun vs hvs => ?_) fun vs hvs => ?_
  · have hcount : vs.length ≠ 2 := hvs
    rw [mod_list, if_pos hcount]
    rfl
  · have hcount : vs.length = 2 := hvs
    refine ⟨_, (mod_list vs).trans (if_neg (not_not_intro hcount)), fun ns hns => ?_⟩
    obtain ⟨a, b, rfl⟩ := List.length_eq_two.1 (hns.trans hcount)
    exact onlyFaults_number (a.mod b)

/-- What the functions on numbers ask of their arguments. -/
def signatures : List Signature :=
  [uniform "add" (.atLeast 0) .number, uniform "subtract" (.atLeast 1) .number,
   uniform "multiply" (.atLeast 0) .number, uniform "divide" (.atLeast 2) .number,
   uniform "mod" (.exactly 2) .number, uniform "max" (.atLeast 1) .number,
   uniform "min" (.atLeast 1) .number]

theorem keptBy_functions : List.Forall₂ Signature.KeptBy signatures functions := by
  simp only [signatures, functions, List.forall₂_cons]
  exact ⟨⟨rfl, kept_add⟩, ⟨rfl, kept_subtract⟩, ⟨rfl, kept_multiply⟩, ⟨rfl, kept_divide⟩,
    ⟨rfl, kept_mod⟩, ⟨rfl, kept_best "max" _⟩, ⟨rfl, kept_best "min" _⟩, .nil⟩

end Arithmetic

/-! ## Lists -/

namespace Lists

variable {name : String}

/-- A function of a list that cannot be empty. -/
theorem respects_element {pick : List Value → Option Value}
    (hpick : ∀ items, pick items = none ↔ items = []) (v : Value) :
    Respects name (Demand.filledList.complaint? v)
      (list name v >>= fun items => element name (pick items)) := by
  cases v with
  | list items =>
      show Respects name _ (element name (pick items))
      cases hitem : pick items with
      | none =>
          obtain rfl := (hpick items).1 hitem
          rfl
      | some item =>
          have hfilled : items ≠ [] := fun hnil => by cases hitem.symm.trans ((hpick items).2 hnil)
          obtain ⟨x, xs, rfl⟩ := List.exists_cons_of_ne_nil hfilled
          exact onlyFaults_ok item
  | _ => exact respects_expected_bind "a list" _ _

theorem kept_first : (uniform "first" (.exactly 1) .filledList).Kept first :=
  Signature.kept_unary (respects_element fun _ => List.head?_eq_none_iff)

theorem kept_last : (uniform "last" (.exactly 1) .filledList).Kept last :=
  Signature.kept_unary (respects_element fun _ => List.getLast?_eq_none_iff)

theorem kept_ofList {compute : List Value → Value} :
    (uniform name (.exactly 1) .list).Kept (ofList name fun items => .ok (compute items)) := by
  refine Signature.kept_unary fun v => ?_
  rw [← Option.or_none (o := Demand.list.complaint? v)]
  exact respects_list_bind v fun items _ => onlyFaults_ok (compute items)

/-- What `nth` asks of its arguments: a list, and a place in it. -/
def placeSignature : Signature where
  name := "nth"
  arity := .exactly 2
  demand
    | .list items :: _ => .placeBelow items.length
    | _ => .list

/-- There is an element just at the places below the length of a list. -/
theorem place?_cases (items : List Value) (v : Value) :
    ((Demand.placeBelow items.length).complaint? v = some (.noPlace v) ∧ place? items v = none) ∨
      ((Demand.placeBelow items.length).complaint? v = none ∧
        ∃ item, place? items v = some item) := by
  rcases v with _ | _ | (i | x) | _ | _ | _ | _ | _
  case number.int =>
    rw [Demand.complaint?, place?]
    by_cases hplace : 0 ≤ i ∧ i < items.length
    · have hbound : i.toNat < items.length := by omega
      rw [if_pos hplace, if_neg (by omega)]
      exact .inr ⟨rfl, items[i.toNat], List.getElem?_eq_getElem hbound⟩
    · rw [if_neg hplace]
      refine .inl ⟨rfl, ?_⟩
      by_cases hneg : i < 0
      · rw [if_pos hneg]
      · rw [if_neg hneg]
        exact List.getElem?_eq_none (by omega)
  all_goals exact .inl ⟨rfl, rfl⟩

theorem kept_nth : placeSignature.Kept nth where
  arity vs hvs := by
    rcases vs with _ | ⟨v, _ | ⟨w, _ | ⟨x, vs⟩⟩⟩
    case cons.cons.nil => exact absurd rfl hvs
    all_goals rfl
  checked vs hvs := by
    obtain ⟨v, index, rfl⟩ := List.length_eq_two.1 hvs
    refine respects_list_bind v fun items hv => ?_
    subst hv
    show Respects "nth" (((Demand.placeBelow items.length).complaint? index).or none) _
    rw [Option.or_none]
    obtain ⟨hcomplaint, hnone⟩ | ⟨hcomplaint, item, hsome⟩ := place?_cases items index
    · rw [hcomplaint, hnone]
      exact written_bind index _
    · rw [hcomplaint, hsome]
      exact onlyFaults_ok item

/-- The lists are joined one by one, up to the first argument that is none. -/
theorem respects_appendFrom (seen vs : List Value) :
    Respects "append" ((uniform "append" (.atLeast 0) .list).firstComplaint? vs)
      (appendFrom seen vs) := by
  induction vs generalizing seen with
  | nil => exact onlyFaults_ok _
  | cons v vs ih =>
      rw [Signature.firstComplaint?_uniform_cons]
      exact respects_list_bind v fun items _ => ih (items.reverse ++ seen)

theorem kept_append : (uniform "append" (.atLeast 0) .list).Kept append where
  arity _ hvs := absurd (Nat.zero_le _) hvs
  checked vs _ := respects_appendFrom [] vs

/-- What the functions on lists ask of their arguments. -/
def signatures : List Signature :=
  [uniform "first" (.exactly 1) .filledList, uniform "last" (.exactly 1) .filledList,
   uniform "rest" (.exactly 1) .list, uniform "count" (.exactly 1) .list,
   uniform "reverse" (.exactly 1) .list, placeSignature, uniform "append" (.atLeast 0) .list]

theorem keptBy_functions : List.Forall₂ Signature.KeptBy signatures functions := by
  simp only [signatures, functions, List.forall₂_cons]
  exact ⟨⟨rfl, kept_first⟩, ⟨rfl, kept_last⟩, ⟨rfl, kept_ofList⟩, ⟨rfl, kept_ofList⟩,
    ⟨rfl, kept_ofList⟩, ⟨rfl, kept_nth⟩, ⟨rfl, kept_append⟩, .nil⟩

end Lists

/-! ## Text -/

namespace Texts

theorem kept_ofText {name : String} {compute : String → Value} :
    (uniform name (.exactly 1) .text).Kept (ofText name compute) := by
  refine Signature.kept_unary fun v => ?_
  rw [← Option.or_none (o := Demand.text.complaint? v)]
  exact respects_text_bind v fun s _ => onlyFaults_ok (compute s)

theorem kept_concat : (uniform "concat" (.atLeast 0) .anything).Kept concat :=
  Signature.kept_anything fun vs =>
    (onlyFaults_liftFault (vs.mapM Value.plainText)).bind fun _ _ => onlyFaults_ok _

theorem kept_split : (uniform "split" (.either 1 2) .text).Kept split where
  arity vs hvs := by
    rcases vs with _ | ⟨v, _ | ⟨w, _ | ⟨x, vs⟩⟩⟩
    · rfl
    · exact absurd (.inl rfl) hvs
    · exact absurd (.inr rfl) hvs
    · rfl
  checked vs hvs := by
    obtain hcount | hcount := hvs
    · obtain ⟨v, rfl⟩ := List.length_eq_one_iff.1 hcount
      exact respects_text_bind v fun s _ => onlyFaults_ok _
    · obtain ⟨v, w, rfl⟩ := List.length_eq_two.1 hcount
      refine respects_text_bind v fun s _ => respects_text_bind w fun separator _ => ?_
      -- The empty text is a text all right; only, there are no pieces around it.
      show OnlyFaults (if separator.isEmpty then _ else _)
      by_cases hempty : separator.isEmpty = true
      · rw [if_pos hempty]
        exact ⟨.emptySeparator, rfl⟩
      · rw [if_neg hempty]
        exact onlyFaults_ok _

/-- What the functions on text ask of their arguments. -/
def signatures : List Signature :=
  [uniform "concat" (.atLeast 0) .anything, uniform "upcase" (.exactly 1) .text,
   uniform "downcase" (.exactly 1) .text, uniform "length" (.exactly 1) .text,
   uniform "split" (.either 1 2) .text]

theorem keptBy_functions : List.Forall₂ Signature.KeptBy signatures functions := by
  simp only [signatures, functions, List.forall₂_cons]
  exact ⟨⟨rfl, kept_concat⟩, ⟨rfl, kept_ofText⟩, ⟨rfl, kept_ofText⟩, ⟨rfl, kept_ofText⟩,
    ⟨rfl, kept_split⟩, .nil⟩

end Texts

/-! ## The standard library -/

namespace Standard

theorem kept_identity : (uniform "identity" (.exactly 1) .anything).Kept identity :=
  Signature.kept_unary onlyFaults_ok

theorem kept_equal : (uniform "equal" (.atLeast 0) .anything).Kept equal :=
  Signature.kept_anything fun vs => onlyFaults_ok (Value.truth (neighboursEqual vs))

/-- What the functions of the standard library ask of their arguments. -/
def signatures : List Signature :=
  [uniform "identity" (.exactly 1) .anything, uniform "equal" (.atLeast 0) .anything] ++
    Arithmetic.signatures ++ Lists.signatures ++ Texts.signatures

/-- The signature of the function with a name. -/
def signature? (name : String) : Option Signature := signatures.find? (·.name == name)

theorem keptBy_members :
    List.Forall₂ (fun s m => s.KeptBy m.function) signatures standardLibrary.members := by
  have hgeneral : List.Forall₂ Signature.KeptBy
      [uniform "identity" (.exactly 1) .anything, uniform "equal" (.atLeast 0) .anything]
      general := .cons ⟨rfl, kept_identity⟩ (.cons ⟨rfl, kept_equal⟩ .nil)
  have hown := Signature.keptBy_own "StandardLibrary" hgeneral
  have hmath := Signature.keptBy_own "MathLibrary" Arithmetic.keptBy_functions
  have hlist := Signature.keptBy_own "ListLibrary" Lists.keptBy_functions
  have htext := Signature.keptBy_own "StringLibrary" Texts.keptBy_functions
  exact List.rel_append (List.rel_append (List.rel_append hown hmath) hlist) htext

end Standard

theorem LibraryClass.mem_exportsOf {members : List Member} {name : String} :
    name ∈ exportsOf members ↔ ∃ m ∈ members, m.exported = true ∧ m.function.name = name := by
  rw [exportsOf, List.mem_mergeSort, List.mem_map]
  simp only [List.mem_filter, and_assoc]

/-- Every function of the standard library refuses bad calls before it computes anything. It has a
signature, and what it answers to any arguments says exactly whether they are in order
(`Signature.Decides`): an error about their number, if it is wrong, or else an error about the
leftmost argument that is not what it has to be, or else a value, or the fault of a computation. All
that is asked is that the complaint the arguments may be refused with can be written down. -/
theorem refused_before_computing (name : String)
    (hname : name ∈ LibraryClass.exportsOf standardLibrary.members) :
    ∃ s, Standard.signature? name = some s ∧ ∀ vs : List Value,
      (∀ c, s.arity.Admits vs.length → s.Refuses vs c → c.writable = true) →
        s.Decides vs (Callable.apply (.call "StandardLibrary" name) (.list vs)) := by
  obtain ⟨m, hm, -, rfl⟩ := LibraryClass.mem_exportsOf.1 hname
  -- Of the functions with this name, the first one is called.
  have hsome : (standardLibrary.member? m.function.name).isSome = true :=
    List.find?_isSome.2 ⟨m, hm, beq_self_eq_true _⟩
  obtain ⟨called, hcalled⟩ := Option.isSome_iff_exists.1 hsome
  obtain ⟨s, hs, hkept⟩ := Signature.exists_of_find? Standard.keptBy_members hcalled
  refine ⟨s, hs, fun vs hwritable => ?_⟩
  have hcall : Callable.apply (.call "StandardLibrary" m.function.name) (.list vs) =
      called.function.run (.list vs) := by
    show standardLibrary.call m.function.name (.list vs) = _
    rw [LibraryClass.call, hcalled]
  rw [hcall]
  exact hkept.decides hwritable

/-- A truth value is refused behind a zero that cannot be divided by. -/
theorem refused_before_computing_divide :
    "divide" ∈ LibraryClass.exportsOf standardLibrary.members ∧
      Callable.apply (.call "StandardLibrary" "divide")
          (.list [.number (.int 1), .number (.int 0), .truth true]) =
        .error (.error (.argument "divide" "expected a number, got True")) := by
  have hname : "divide" ∈ LibraryClass.exportsOf standardLibrary.members :=
    LibraryClass.mem_exportsOf.2 ⟨⟨⟨"divide", Arithmetic.divide⟩, "MathLibrary", true, "divide"⟩,
      by simp [standardLibrary, mathLibrary, LibraryClass.derived, LibraryClass.own,
        Arithmetic.functions], rfl, rfl⟩
  obtain ⟨s, hs, hdecides⟩ := refused_before_computing "divide" hname
  obtain rfl : uniform "divide" (.atLeast 2) .number = s := Option.some.inj hs
  have hrefuses : (uniform "divide" (.atLeast 2) .number).Refuses
      [.number (.int 1), .number (.int 0), .truth true] (.wrongType "a number" (.truth true)) :=
    Signature.firstComplaint?_eq_some_iff.1 rfl
  have hadmits : (Arity.atLeast 2).Admits 3 := by decide
  refine ⟨hname, ?_⟩
  exact (hdecides _ fun c _ hc => hc.unique hrefuses ▸ rfl).argument_eq _ hadmits hrefuses

end FormLang
