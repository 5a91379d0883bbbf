import OpenDiamond.Lib.Streams

/-!
# Writers that agree with readers

A writer spells a value in cells or fails. It agrees with a reader when the reader
returns the value from the cells and leaves what follows them; it breaks when the writer
fails, or the reader fails on what was written. Both notions go through sequences of
frames and through lists that end with an absent item.
-/

namespace OpenDiamond.Lib.Framing

open Streams

variable {σ ε α : Type}

/-- What a writer puts on the stream, or its failure. -/
abbrev Written (σ ε : Type) := Except ε (List σ)

/-- Write one after the other. -/
def writeAll : List (Written σ ε) → Except ε (List σ)
  | [] => .ok []
  | write :: rest => do
    let cells ← write
    let cells' ← writeAll rest
    return cells ++ cells'

/-- Read one after the other. -/
def inOrder : List (Reader σ ε α) → Reader σ ε (List α)
  | [] => Pure.pure []
  | reader :: rest => do
    let value ← reader
    let values ← inOrder rest
    Pure.pure (value :: values)

/-- The reader returns the value that was written and leaves what follows. -/
def Agrees (write : Written σ ε) (reader : Reader σ ε α) (value : α) : Prop :=
  ∃ cells, write = .ok cells ∧ Reads reader cells value

/-- The writer fails, or the reader fails on what was written. -/
def Breaks (write : Written σ ε) (reader : Reader σ ε α) : Prop :=
  (∃ error, write = .error error) ∨
    ∃ cells error, write = .ok cells ∧ Fails reader cells error

/-- A reader that breaks on what was written agrees with it on no value. -/
theorem Breaks.not_agrees {write : Written σ ε} {reader : Reader σ ε α} (h : Breaks write reader)
    (value : α) : ¬ Agrees write reader value := by
  rintro ⟨cells, hwrite, hreads⟩
  rcases h with ⟨error, herror⟩ | ⟨cells', error, hwrite', hfails⟩
  · rw [hwrite] at herror
    cases herror
  · rw [hwrite] at hwrite'
    cases hwrite'
    exact hfails.not_reads value hreads

/-- The value through a function. -/
theorem Agrees.map {β : Type} {write : Written σ ε} {reader : Reader σ ε α} {value : α}
    (h : Agrees write reader value) (f : α → β) : Agrees write (f <$> reader) (f value) := by
  obtain ⟨cells, hwrite, hreads⟩ := h
  exact ⟨cells, hwrite, hreads.map f⟩

/-- What would be done with the value cannot repair that. -/
theorem Breaks.map {β : Type} {write : Written σ ε} {reader : Reader σ ε α}
    (h : Breaks write reader) (f : α → β) : Breaks write (f <$> reader) := by
  refine h.imp id ?_
  rintro ⟨cells, error, hwrite, hfails⟩
  refine ⟨cells, error, hwrite, fun rest => ?_⟩
  rw [StateT.run_map, hfails rest]
  rfl

/-! ## Sequences -/

section Sequence

variable {write : Written σ ε} {writes : List (Written σ ε)} {reader : Reader σ ε α}
  {readers : List (Reader σ ε α)} {value : α} {values : List α}

/-- Two writes that succeed are written one behind the other. -/
theorem writeAll_cons_ok {cells cells' : List σ} (h : write = .ok cells)
    (h' : writeAll writes = .ok cells') : writeAll (write :: writes) = .ok (cells ++ cells') := by
  rw [writeAll, h, h']
  rfl

/-- Writers that all succeed put their cells one after the other. -/
theorem writeAll_ok (parts : List (List σ)) :
    writeAll (parts.map fun cells => (.ok cells : Written σ ε)) = .ok parts.flatten := by
  induction parts with
  | nil => rfl
  | cons cells parts ih => exact writeAll_cons_ok rfl ih

/-- A write that fails later in the row makes the whole row fail. -/
theorem writeAll_cons_error {error : ε} (h : writeAll writes = .error error) :
    ∃ error, writeAll (write :: writes) = .error error := by
  rw [writeAll, h]
  cases write with
  | error first => exact ⟨first, rfl⟩
  | ok cells => exact ⟨error, rfl⟩

/-- One writer that fails makes the sequence fail. -/
theorem writeAll_eq_error (hmem : write ∈ writes) {error : ε} (h : write = .error error) :
    ∃ error, writeAll writes = .error error := by
  induction writes with
  | nil => simp at hmem
  | cons first rest ih =>
    rcases List.mem_cons.mp hmem with rfl | hmem
    · exact ⟨error, by rw [h]; rfl⟩
    · obtain ⟨error', hrest⟩ := ih hmem
      exact writeAll_cons_error hrest

/-- Nothing written is nothing read. -/
theorem agrees_nil : Agrees (writeAll ([] : List (Written σ ε))) (inOrder ([] : List (Reader σ ε α)))
    [] :=
  ⟨[], rfl, Reads.pure []⟩

/-- A reader for each write, in the same order, agrees with the row where each agrees with its
own. -/
theorem Agrees.cons (h : Agrees write reader value) (h' : Agrees (writeAll writes) (inOrder readers)
    values) : Agrees (writeAll (write :: writes)) (inOrder (reader :: readers)) (value :: values) := by
  obtain ⟨cells, hwrite, hreads⟩ := h
  obtain ⟨cells', hwrite', hreads'⟩ := h'
  refine ⟨cells ++ cells', writeAll_cons_ok hwrite hwrite', hreads.bind ?_⟩
  have hrest := hreads'.map (List.cons value)
  rwa [map_eq_pure_bind] at hrest

/-- The first reader that breaks breaks the row. -/
theorem Breaks.cons (h : Breaks write reader) :
    Breaks (writeAll (write :: writes)) (inOrder (reader :: readers)) := by
  rcases h with ⟨error, rfl⟩ | ⟨cells, error, rfl, hfails⟩
  · exact Or.inl ⟨error, rfl⟩
  · cases hwrite' : writeAll writes with
    | error error' => exact Or.inl (writeAll_cons_error hwrite')
    | ok cells' =>
      exact Or.inr ⟨_, error, writeAll_cons_ok rfl hwrite', hfails.bind _ cells'⟩

/-- A reader that agrees only hands the break on to those behind it. -/
theorem Agrees.cons_breaks (h : Agrees write reader value)
    (h' : Breaks (writeAll writes) (inOrder readers)) :
    Breaks (writeAll (write :: writes)) (inOrder (reader :: readers)) := by
  obtain ⟨cells, rfl, hreads⟩ := h
  rcases h' with ⟨error, hwrite'⟩ | ⟨cells', error, hwrite', hfails⟩
  · exact Or.inl (writeAll_cons_error hwrite')
  · refine Or.inr ⟨_, error, writeAll_cons_ok rfl hwrite', hreads.bind_fails ?_⟩
    have hrest := hfails.bind (fun values => (Pure.pure (value :: values) : Reader σ ε (List α))) []
    rwa [List.append_nil] at hrest

/-- Frames that all agree with their readers agree as a sequence. -/
theorem agrees_all {β : Type} {frames : List β} {spell : β → Written σ ε} {read : β → Reader σ ε α}
    {sent : β → α} (h : ∀ frame ∈ frames, Agrees (spell frame) (read frame) (sent frame)) :
    Agrees (writeAll (frames.map spell)) (inOrder (frames.map read)) (frames.map sent) := by
  induction frames with
  | nil => exact agrees_nil
  | cons frame rest ih =>
    exact (h frame List.mem_cons_self).cons (ih fun other hother =>
      h other (List.mem_cons_of_mem frame hother))

/-- The first frame that breaks breaks the sequence. -/
theorem breaks_all {β : Type} {frames : List β} {spell : β → Written σ ε} {read : β → Reader σ ε α}
    {sent : β → α} {good : β → Prop}
    (h : ∀ frame ∈ frames, good frame → Agrees (spell frame) (read frame) (sent frame))
    (h' : ∀ frame ∈ frames, ¬ good frame → Breaks (spell frame) (read frame))
    (hbad : ∃ frame ∈ frames, ¬ good frame) :
    Breaks (writeAll (frames.map spell)) (inOrder (frames.map read)) := by
  induction frames with
  | nil => simp at hbad
  | cons frame rest ih =>
    by_cases hgood : good frame
    · have hrest : ∃ other ∈ rest, ¬ good other :=
        ((List.exists_mem_cons_iff _ _ _).mp hbad).resolve_left (not_not.mpr hgood)
      exact (h frame List.mem_cons_self hgood).cons_breaks
        (ih (fun other hother => h other (List.mem_cons_of_mem frame hother))
          (fun other hother => h' other (List.mem_cons_of_mem frame hother)) hrest)
    · exact (h' frame List.mem_cons_self hgood).cons

/-- The frames agree as a sequence exactly when each of them does. -/
theorem agrees_all_iff {β : Type} {frames : List β} {spell : β → Written σ ε}
    {read : β → Reader σ ε α} {sent : β → α} {good : β → Prop}
    (h : ∀ frame ∈ frames, good frame → Agrees (spell frame) (read frame) (sent frame))
    (h' : ∀ frame ∈ frames, ¬ good frame → Breaks (spell frame) (read frame)) :
    Agrees (writeAll (frames.map spell)) (inOrder (frames.map read)) (frames.map sent) ↔
      ∀ frame ∈ frames, good frame := by
  constructor
  · intro hagrees frame hframe
    by_contra hbad
    exact (breaks_all h h' ⟨frame, hframe, hbad⟩).not_agrees _ hagrees
  · exact fun hgood => agrees_all fun frame hframe => h frame hframe (hgood frame hframe)

end Sequence

/-! ## Lists that end with an absent item -/

section Lists

variable {write : Written σ ε} {writes : List (Written σ ε)} {item : Reader σ ε (Option α)}
  {endless : ε} {value : α} {values : List α}

/-- A row that ends at once is read as no values. -/
theorem Agrees.untilNone_nil (h : Agrees write item none) :
    Agrees (writeAll [write]) (untilNone endless item) [] := by
  obtain ⟨cells, rfl, hreads⟩ := h
  refine ⟨cells, ?_, hreads.untilNone_nil⟩
  have hwrite : writeAll [(.ok cells : Written σ ε)] = .ok (cells ++ []) :=
    writeAll_cons_ok rfl rfl
  rwa [List.append_nil] at hwrite

/-- A value in front of such a row is read in front of its values; it must take up some room, or the
loop would not get on. -/
theorem Agrees.untilNone_cons (h : Agrees write item (some value)) (hne : write ≠ .ok [])
    (h' : Agrees (writeAll writes) (untilNone endless item) values) :
    Agrees (writeAll (write :: writes)) (untilNone endless item) (value :: values) := by
  obtain ⟨cells, rfl, hreads⟩ := h
  obtain ⟨cells', hwrite', hreads'⟩ := h'
  have hcells : cells ≠ [] := fun heq => hne (heq ▸ rfl)
  exact ⟨_, writeAll_cons_ok rfl hwrite', hreads.untilNone_cons hcells hreads'⟩

/-- A loop of reads breaks where its first item does. -/
theorem Breaks.untilNone (h : Breaks write item) :
    Breaks (writeAll (write :: writes)) (untilNone endless item) := by
  rcases h with ⟨error, rfl⟩ | ⟨cells, error, rfl, hfails⟩
  · exact Or.inl ⟨error, rfl⟩
  · cases hwrite' : writeAll writes with
    | error error' => exact Or.inl (writeAll_cons_error hwrite')
    | ok cells' =>
      refine Or.inr ⟨_, error, writeAll_cons_ok rfl hwrite', fun rest => ?_⟩
      rw [List.append_assoc]
      exact hfails.untilNone (cells' ++ rest)

/-- It breaks as well where a later item does. -/
theorem Agrees.untilNone_breaks (h : Agrees write item (some value)) (hne : write ≠ .ok [])
    (h' : Breaks (writeAll writes) (untilNone endless item)) :
    Breaks (writeAll (write :: writes)) (untilNone endless item) := by
  obtain ⟨cells, rfl, hreads⟩ := h
  have hcells : cells ≠ [] := fun heq => hne (heq ▸ rfl)
  rcases h' with ⟨error, hwrite'⟩ | ⟨cells', error, hwrite', hfails⟩
  · exact Or.inl (writeAll_cons_error hwrite')
  · exact Or.inr ⟨_, error, writeAll_cons_ok rfl hwrite', hreads.untilNone_fails hcells hfails⟩

/-- Elements that are read back one by one, and a blank, are read back as a list. -/
theorem agrees_untilNone {β : Type} {elements : List β} {spell : β → Written σ ε} {sent : β → α}
    {blank : Written σ ε} (hblank : Agrees blank item none) (hne : ∀ b ∈ elements, spell b ≠ .ok [])
    (h : ∀ b ∈ elements, Agrees (spell b) item (some (sent b))) :
    Agrees (writeAll (elements.map spell ++ [blank])) (untilNone endless item)
      (elements.map sent) := by
  induction elements with
  | nil => exact hblank.untilNone_nil
  | cons b rest ih =>
    exact (h b List.mem_cons_self).untilNone_cons (hne b List.mem_cons_self)
      (ih (fun c hc => hne c (List.mem_cons_of_mem b hc))
        fun c hc => h c (List.mem_cons_of_mem b hc))

/-- The first element that breaks breaks the list. -/
theorem breaks_untilNone {β : Type} {elements : List β} {spell : β → Written σ ε} {sent : β → α}
    {good : β → Prop} {blank : Written σ ε} (hne : ∀ b ∈ elements, spell b ≠ .ok [])
    (h : ∀ b ∈ elements, good b → Agrees (spell b) item (some (sent b)))
    (h' : ∀ b ∈ elements, ¬ good b → Breaks (spell b) item) (hbad : ∃ b ∈ elements, ¬ good b) :
    Breaks (writeAll (elements.map spell ++ [blank])) (untilNone endless item) := by
  induction elements with
  | nil => simp at hbad
  | cons b rest ih =>
    by_cases hgood : good b
    · have hrest : ∃ c ∈ rest, ¬ good c :=
        ((List.exists_mem_cons_iff _ _ _).mp hbad).resolve_left (not_not.mpr hgood)
      exact (h b List.mem_cons_self hgood).untilNone_breaks (hne b List.mem_cons_self)
        (ih (fun c hc => hne c (List.mem_cons_of_mem b hc))
          (fun c hc => h c (List.mem_cons_of_mem b hc))
          (fun c hc => h' c (List.mem_cons_of_mem b hc)) hrest)
    · exact (h' b List.mem_cons_self hgood).untilNone

end Lists

end OpenDiamond.Lib.Framing
