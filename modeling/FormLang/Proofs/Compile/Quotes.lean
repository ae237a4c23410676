import FormLang.Proofs.Reader.Tree

set_option autoImplicit false

/-! # Code behind `proc`

What a program can capture is the code that stands behind a `proc` in one of its forms
(`Node.Quotes`). Compiling goes from a form to its items, and from a form to the body of code that
was captured, which is a form of its own without being a node of the program. Either way there is no
new code to capture, and there is less of it (`Node.RowQuotes.of_capturedBody`,
`Node.Quotes.size_le`).
-/

namespace FormLang

/-- The nodes that a node is made of, the node itself included. -/
inductive Node.Part : Node → Node → Prop where
  | refl (n : Node) : Node.Part n n
  | list {elements : List Node} {n m : Node} (hn : n ∈ elements) (h : n.Part m) :
      Node.Part (.list elements) m
  | form {style : FormStyle} {items : List Node} {n m : Node} (hn : n ∈ items) (h : n.Part m) :
      Node.Part (.form style items) m

namespace Node

/-- Is the code what stands behind a `proc` in some form of the node, up to the end of the form? -/
def Quotes (n : Node) (code : List Node) : Prop :=
  ∃ style before line, n.Part (.form style (before ++ .symbol line procName :: code))

/-- Is the code what stands behind a `proc` among the items of a form, or in one of them? -/
def RowQuotes (items code : List Node) : Prop :=
  (∃ before line, items = before ++ .symbol line procName :: code) ∨ ∃ n ∈ items, n.Quotes code

variable {n m head : Node} {items code inner params : List Node}

/-! ## From a form to its items, and back -/

theorem Quotes.list (hn : n ∈ items) (h : n.Quotes code) : (Node.list items).Quotes code := by
  obtain ⟨style, before, line, hpart⟩ := h
  exact ⟨style, before, line, .list hn hpart⟩

theorem quotes_form {style : FormStyle} :
    (form style items).Quotes code ↔ RowQuotes items code := by
  constructor
  · rintro ⟨style', before, line, hpart⟩
    cases hpart with
    | refl => exact .inl ⟨before, line, rfl⟩
    | form hn h => exact .inr ⟨_, hn, style', before, line, h⟩
  · rintro (⟨before, line, rfl⟩ | ⟨n, hn, style', before, line, h⟩)
    · exact ⟨style, before, line, .refl _⟩
    · exact ⟨style', before, line, .form hn h⟩

theorem rowQuotes_proc {line : Int} : RowQuotes (.symbol line procName :: code) code :=
  .inl ⟨[], line, rfl⟩

theorem RowQuotes.cons (h : RowQuotes params code) : RowQuotes (n :: params) code := by
  obtain ⟨before, line, rfl⟩ | ⟨m, hm, h⟩ := h
  · exact .inl ⟨n :: before, line, rfl⟩
  · exact .inr ⟨m, by simp [hm], h⟩

theorem RowQuotes.append (before : List Node) (h : RowQuotes items code) :
    RowQuotes (before ++ items) code := by
  induction before with
  | nil => exact h
  | cons n before ih => exact ih.cons

/-! ## Captured code -/

theorem eq_of_isNamed {word : String} (h : head.isNamed word = true) :
    ∃ line, head = .symbol line word := by
  cases head with
  | symbol line name => exact ⟨line, by simpa [isNamed] using h⟩
  | _ => cases h

theorem not_isNamed_procName (h : head.isNamed evalName = true) :
    head.isNamed procName = false := by
  obtain ⟨line, rfl⟩ := eq_of_isNamed h
  rfl

theorem eq_of_procCode? (h : n.procCode? = some code) :
    ∃ style line, n = .form style (.symbol line procName :: code) := by
  rw [procCode?.eq_def] at h
  split at h
  · next style line name rest =>
    split at h
    · next hname =>
      obtain rfl := Option.some.inj h
      exact ⟨style, line, by rw [hname]⟩
    · cases h
  · cases h

/-- What can be captured in the code of a `proc` form can be captured in the form. -/
theorem RowQuotes.of_procCode? (h : RowQuotes code inner) (hcode : n.procCode? = some code) :
    n.Quotes inner := by
  obtain ⟨style, line, rfl⟩ := eq_of_procCode? hcode
  exact quotes_form.2 h.cons

/-- The body of captured code has nothing to capture that is not in the code. -/
theorem RowQuotes.of_capturedBody (h : RowQuotes (capturedBody code) inner) :
    RowQuotes code inner := by
  rw [capturedBody.eq_def] at h
  split at h
  · exact .inr ⟨_, List.mem_singleton_self _, quotes_form.2 h⟩
  · exact h

theorem Part.trans {k : Node} (h : n.Part m) (h' : m.Part k) : n.Part k := by
  induction h with
  | refl => exact h'
  | list hn _ ih => exact .list hn (ih h')
  | form hn _ ih => exact .form hn (ih h')

/-- Code that is captured in captured code could have been captured at once. -/
theorem Quotes.trans (h : n.Quotes code) (h' : RowQuotes code inner) : n.Quotes inner := by
  obtain ⟨style, before, line, hpart⟩ := h
  have hrow : RowQuotes (before ++ .symbol line procName :: code) inner := h'.cons.append before
  obtain ⟨style', before', line', hpart'⟩ := quotes_form.2 hrow
  exact ⟨style', before', line', hpart.trans hpart'⟩

/-! ## Size -/

theorem sizeOfAll_append (ms ns : List Node) :
    sizeOfAll (ms ++ ns) = sizeOfAll ms + sizeOfAll ns := by
  induction ms with
  | nil => simp [sizeOfAll]
  | cons m ms ih =>
      rw [List.cons_append, sizeOfAll, sizeOfAll, ih]
      omega

theorem size_pos (n : Node) : 0 < n.size := by
  cases n <;> simp [size]

theorem size_le_sizeOfAll (hn : n ∈ items) : n.size ≤ sizeOfAll items := by
  obtain ⟨before, after, rfl⟩ := List.append_of_mem hn
  rw [sizeOfAll_append, sizeOfAll]
  omega

theorem Part.size_le (h : n.Part m) : m.size ≤ n.size := by
  induction h with
  | refl => exact Nat.le_refl _
  | list hn _ ih =>
      have := size_le_sizeOfAll hn
      rw [size]
      omega
  | form hn _ ih =>
      have := size_le_sizeOfAll hn
      rw [size]
      omega

/-- Code that is captured in a node is smaller by the `proc` and the form around it. -/
theorem Quotes.size_le (h : n.Quotes code) : sizeOfAll code + 2 ≤ n.size := by
  obtain ⟨style, before, line, hpart⟩ := h
  have hle := hpart.size_le
  rw [size, sizeOfAll_append, sizeOfAll, size] at hle
  · omega
  · simp
  · simp

theorem RowQuotes.size_lt (h : RowQuotes items code) : sizeOfAll code < sizeOfAll items := by
  obtain ⟨before, line, rfl⟩ | ⟨n, hn, h⟩ := h
  · rw [sizeOfAll_append, sizeOfAll, size]
    · omega
    · simp
    · simp
  · have hcode := h.size_le
    have hitem := size_le_sizeOfAll hn
    omega

theorem sizeOfAll_capturedBody_le (code : List Node) :
    sizeOfAll (capturedBody code) ≤ sizeOfAll code := by
  rw [capturedBody.eq_def]
  split
  · simp only [sizeOfAll, size]
    omega
  · exact Nat.le_refl _

/-- The captured body of a `proc` form is part of the form. -/
theorem sizeOf_capturedBody_lt (hcode : n.procCode? = some code) :
    sizeOf (capturedBody code) < sizeOf n := by
  obtain ⟨style, line, rfl⟩ := eq_of_procCode? hcode
  have hbody : sizeOf (capturedBody code) ≤ sizeOf code := by
    rw [capturedBody.eq_def]
    split
    · simp only [List.cons.sizeOf_spec, List.nil.sizeOf_spec, Node.form.sizeOf_spec]
      omega
    · exact Nat.le_refl _
  simp only [List.cons.sizeOf_spec, Node.form.sizeOf_spec]
  omega

/-! ## Readable code -/

theorem Part.readable (h : n.Part m) (hn : n.Readable) : m.Readable := by
  induction h with
  | refl => exact hn
  | list hmem _ ih => exact ih (allReadable_iff.1 hn _ hmem)
  | form hmem _ ih => exact ih (allReadable_iff.1 hn.2 _ hmem)

/-- Captured code of a tree that was read might have been read itself. -/
theorem Quotes.readable (h : n.Quotes code) (hn : n.Readable) : AllReadable code := by
  obtain ⟨style, before, line, hpart⟩ := h
  have hitems := allReadable_iff.1 (hpart.readable hn).2
  exact allReadable_iff.2 fun m hm => hitems m (by simp [hm])

end Node

end FormLang
