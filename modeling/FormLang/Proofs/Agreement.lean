import FormLang.Proofs.Action
import FormLang.Proofs.Evaluation

set_option autoImplicit false

/-! # Actions that agree

Actions do not look at the journal, except for the next mark. So from journals that are alike in
this they do the same, whatever was asked for and printed before (`Likeness`). What is said here of
the steps of actions is put together by `Tracked.Agree.bind`.
-/

namespace FormLang

/-- Journals that are alike have the same next mark, and stay alike when the same is added to
both. -/
structure Likeness (R : Journal → Journal → Prop) : Prop where
  nextMark : ∀ {j k : Journal}, R j k → j.nextMark = k.nextMark
  requested : ∀ {j k : Journal} (r : Request), R j k →
    R { j with requests := r :: j.requests } { k with requests := r :: k.requests }
  printed : ∀ {j k : Journal} (text : String), R j k →
    R { j with printed := text :: j.printed } { k with printed := text :: k.printed }
  marked : ∀ {j k : Journal} (next : Nat), R j k →
    R { j with nextMark := next } { k with nextMark := next }

theorem likeness_eq : Likeness Eq where
  nextMark h := by rw [h]
  requested _ h := by rw [h]
  printed _ h := by rw [h]
  marked _ h := by rw [h]

/-- Have two journals the same next mark? -/
def Journal.SameMark (j k : Journal) : Prop := j.nextMark = k.nextMark

theorem likeness_sameMark : Likeness Journal.SameMark where
  nextMark h := h
  requested _ h := h
  printed _ h := h
  marked _ _ := rfl

namespace Action

variable {α : Type} {R : Journal → Journal → Prop} {E : Failure → Prop} {P : α → Prop}

theorem agree_ofExcept {r : Except Failure α} (h : Ensures E P r) :
    Tracked.Agree R E P (ofExcept r) (ofExcept r) :=
  fun _ _ hR => ⟨rfl, hR, h⟩

theorem agree_ofFault {r : Except Fault α} (h : Ensures (fun f => E (.fault f)) P r) :
    Tracked.Agree R E P (ofFault r) (ofFault r) :=
  agree_ofExcept h.liftFault

theorem agree_request (hR : Likeness R) (r : Request) :
    Tracked.Agree R E (fun _ => True) (request r) (request r) :=
  fun _ _ h => ⟨rfl, hR.requested r h, trivial⟩

theorem agree_printLine (hR : Likeness R) (line : String) :
    Tracked.Agree R E (fun _ => True) (printLine line) (printLine line) :=
  fun _ _ h => ⟨rfl, hR.printed _ h, trivial⟩

end Action

theorem Calling.agree_perform {α : Type} {R : Journal → Journal → Prop} {E : Failure → Prop}
    {P : α → Prop} {x : Calling α} (hR : Likeness R) (h : ∀ r, Ensures E P (x.run r).1) :
    Tracked.Agree R E P x.perform x.perform := by
  intro j k hjk
  rw [run_perform, run_perform, hR.nextMark hjk]
  exact ⟨rfl, hR.marked _ hjk, h _⟩

end FormLang
