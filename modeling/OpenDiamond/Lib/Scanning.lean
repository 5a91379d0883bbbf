import OpenDiamond.Lib.Streams

/-!
# Scanning a stream for the items that are checked

A reader can fail in two ways: the stream is cut short or malformed, or an item that has been
read does not pass a check. A scanner goes through the stream as the reader does, but collects
the items instead of checking them. Whether the reader fails in the second way is then a
property of the items collected.
-/

namespace OpenDiamond.Lib.Scanning

open Streams

variable {σ τ ε α β γ δ : Type}

/-- A scanner: the items on the way, and the value with the rest of the stream unless the
stream is cut short or malformed. -/
abbrev Scanner (σ τ α : Type) := List σ → List τ × Option (α × List σ)

namespace Scanner

/-- Return a value without scanning. -/
def pure (value : α) : Scanner σ τ α := fun cells => ([], some (value, cells))

/-- Scan and go on with the value. -/
def bind (scanner : Scanner σ τ α) (next : α → Scanner σ τ β) : Scanner σ τ β := fun cells =>
  match scanner cells with
  | (items, none) => (items, none)
  | (items, some (value, rest)) => (items ++ (next value rest).1, (next value rest).2)

/-- A reader without checked items. -/
def ofReader (reader : Reader σ ε α) : Scanner σ τ α := fun cells =>
  match reader.run cells with
  | .error _ => ([], none)
  | .ok (value, rest) => ([], some (value, rest))

/-- A reader without checked items, whose value does not matter. -/
def skip (reader : Reader σ ε α) : Scanner σ τ Unit :=
  (ofReader reader).bind fun _ => pure ()

/-- Collect what a reader has read. -/
def item (reader : Reader σ ε τ) : Scanner σ τ Unit := fun cells =>
  match reader.run cells with
  | .error _ => ([], none)
  | .ok (value, rest) => ([value], some ((), rest))

/-- Scan a fixed number of times. -/
def times (scanner : Scanner σ τ Unit) : ℕ → Scanner σ τ Unit
  | 0 => pure ()
  | count + 1 => scanner.bind fun _ => times scanner count

end Scanner

/-- The reader goes through the stream as the scanner does: when all items are good, it stops
where the scanner stops, with a related value or with an error other than that of the check;
when an item is not good, it fails in the check. -/
structure AgreesOn (good : τ → Prop) (bad : ε) (related : α → β → Prop) (scanner : Scanner σ τ α)
    (reader : Reader σ ε β) (cells : List σ) : Prop where
  /-- The scanner has come through, and so does the reader. -/
  reads : (∀ t ∈ (scanner cells).1, good t) → ∀ value rest,
    (scanner cells).2 = some (value, rest) →
      ∃ value', reader.run cells = .ok (value', rest) ∧ related value value'
  /-- The scanner is stuck, and so is the reader. -/
  stuck : (∀ t ∈ (scanner cells).1, good t) → (scanner cells).2 = none →
    ∃ error, error ≠ bad ∧ reader.run cells = .error error
  /-- An item does not pass. -/
  fails : (¬∀ t ∈ (scanner cells).1, good t) → reader.run cells = .error bad

/-- The reader goes through every stream as the scanner does. -/
def Agrees (good : τ → Prop) (bad : ε) (related : α → β → Prop) (scanner : Scanner σ τ α)
    (reader : Reader σ ε β) : Prop :=
  ∀ cells, AgreesOn good bad related scanner reader cells

variable {good : τ → Prop} {bad : ε}

/-- The scanner is stuck. -/
theorem AgreesOn.of_none {related : α → β → Prop} {scanner : Scanner σ τ α}
    {reader : Reader σ ε β} {cells : List σ} {items : List τ} (hscan : scanner cells = (items, none))
    (hstuck : (∀ t ∈ items, good t) → ∃ error, error ≠ bad ∧ reader.run cells = .error error)
    (hfails : (¬∀ t ∈ items, good t) → reader.run cells = .error bad) :
    AgreesOn good bad related scanner reader cells := by
  constructor
  · intro _ value rest hsome
    rw [hscan] at hsome
    cases hsome
  · intro hgood _
    rw [hscan] at hgood
    exact hstuck hgood
  · intro hno
    rw [hscan] at hno
    exact hfails hno

/-- The scanner has come through. -/
theorem AgreesOn.of_some {related : α → β → Prop} {scanner : Scanner σ τ α}
    {reader : Reader σ ε β} {cells rest : List σ} {items : List τ} {value : α}
    (hscan : scanner cells = (items, some (value, rest)))
    (hreads : (∀ t ∈ items, good t) →
      ∃ value', reader.run cells = .ok (value', rest) ∧ related value value')
    (hfails : (¬∀ t ∈ items, good t) → reader.run cells = .error bad) :
    AgreesOn good bad related scanner reader cells := by
  constructor
  · intro hgood other rest' hsome
    rw [hscan] at hgood hsome
    cases hsome
    exact hreads hgood
  · intro _ hnone
    rw [hscan] at hnone
    cases hnone
  · intro hno
    rw [hscan] at hno
    exact hfails hno

theorem agrees_pure {related : α → β → Prop} {value : α} {value' : β} (h : related value value') :
    Agrees good bad related (Scanner.pure value : Scanner σ τ α) (Pure.pure value') := by
  intro cells
  refine .of_some rfl (fun _ => ⟨value', rfl, h⟩) fun hno => ?_
  exact absurd (fun t ht => absurd ht List.not_mem_nil) hno

theorem agrees_bind {related : α → β → Prop} {related' : γ → δ → Prop} {scanner : Scanner σ τ α}
    {reader : Reader σ ε β} {next : α → Scanner σ τ γ} {next' : β → Reader σ ε δ}
    (h : Agrees good bad related scanner reader)
    (hnext : ∀ value value', related value value' →
      Agrees good bad related' (next value) (next' value')) :
    Agrees good bad related' (scanner.bind next) (reader >>= next') := by
  intro cells
  obtain ⟨hreads, hstuck, hfails⟩ := h cells
  have hrun : (reader >>= next').run cells =
      reader.run cells >>= fun result => (next' result.1).run result.2 := StateT.run_bind ..
  rcases hscan : scanner cells with ⟨items, _ | ⟨value, rest⟩⟩
  · have hbind : scanner.bind next cells = (items, none) := by rw [Scanner.bind, hscan]
    rw [hscan] at hstuck hfails
    refine .of_none hbind (fun hgood => ?_) fun hno => ?_
    · obtain ⟨error, hne, herror⟩ := hstuck hgood rfl
      exact ⟨error, hne, by rw [hrun, herror]; rfl⟩
    · rw [hrun, hfails hno]
      rfl
  · have hbind : scanner.bind next cells =
        (items ++ (next value rest).1, (next value rest).2) := by rw [Scanner.bind, hscan]
    rw [hscan] at hreads hfails
    by_cases hitems : ∀ t ∈ items, good t
    · obtain ⟨value', hvalue, hrelated⟩ := hreads hitems value rest rfl
      obtain ⟨hreads', hstuck', hfails'⟩ := hnext value value' hrelated rest
      have hrest : (reader >>= next').run cells = (next' value').run rest := by
        rw [hrun, hvalue]
        rfl
      have hall : (∀ t ∈ items ++ (next value rest).1, good t) ↔
          ∀ t ∈ (next value rest).1, good t := by
        rw [List.forall_mem_append, and_iff_right hitems]
      constructor
      · rw [hbind, hrest, hall]
        exact hreads'
      · rw [hbind, hrest, hall]
        exact hstuck'
      · rw [hbind, hrest, hall]
        exact hfails'
    · have hno : ¬∀ t ∈ items ++ (next value rest).1, good t :=
        fun hgood => hitems (List.forall_mem_append.mp hgood).1
      constructor
      · rw [hbind]
        exact fun hgood => absurd hgood hno
      · rw [hbind]
        exact fun hgood => absurd hgood hno
      · intro _
        rw [hrun, hfails hitems]
        rfl

/-- A reader that does not check agrees with itself. -/
theorem agrees_ofReader {reader : Reader σ ε α}
    (h : ∀ cells error, reader.run cells = .error error → error ≠ bad) :
    Agrees good bad Eq (Scanner.ofReader reader) reader := by
  intro cells
  have hnone : ¬¬∀ t ∈ ([] : List τ), good t :=
    not_not_intro fun t ht => absurd ht List.not_mem_nil
  cases hrun : reader.run cells with
  | error error =>
    have hscan : (Scanner.ofReader reader : Scanner σ τ α) cells = ([], none) := by
      rw [Scanner.ofReader, hrun]
    exact .of_none hscan (fun _ => ⟨error, h cells error hrun, hrun⟩) fun hno => absurd hno hnone
  | ok result =>
    have hscan : (Scanner.ofReader reader : Scanner σ τ α) cells = ([], some result) := by
      rw [Scanner.ofReader, hrun]
    exact .of_some hscan (fun _ => ⟨result.1, hrun, rfl⟩) fun hno => absurd hno hnone

/-- A conclusion that only depends on what was read. -/
theorem Agrees.conclude {related : α → β → Prop} {related' : α → δ → Prop} {scanner : Scanner σ τ α}
    {reader : Reader σ ε β} {next : β → Reader σ ε δ} (h : Agrees good bad related scanner reader)
    (hnext : ∀ value value', related value value' →
      ∃ result, next value' = Pure.pure result ∧ related' value result) :
    Agrees good bad related' scanner (reader >>= next) := by
  intro cells
  obtain ⟨hreads, hstuck, hfails⟩ := h cells
  have hrun : (reader >>= next).run cells =
      reader.run cells >>= fun result => (next result.1).run result.2 := StateT.run_bind ..
  constructor
  · intro hgood value rest hscan
    obtain ⟨value', hvalue, hvalues⟩ := hreads hgood value rest hscan
    obtain ⟨result, hresult, hrelated⟩ := hnext value value' hvalues
    refine ⟨result, ?_, hrelated⟩
    have hpure : (next value').run rest = .ok (result, rest) := by
      rw [hresult]
      rfl
    rw [hrun, hvalue]
    exact hpure
  · intro hgood hscan
    obtain ⟨error, hne, herror⟩ := hstuck hgood hscan
    exact ⟨error, hne, by rw [hrun, herror]; rfl⟩
  · intro hno
    rw [hrun, hfails hno]
    rfl

/-- A reader without checked items agrees with skipping what it reads. -/
theorem agrees_skip {reader : Reader σ ε α}
    (h : ∀ cells error, reader.run cells = .error error → error ≠ bad) :
    Agrees good bad (fun _ _ => True) (Scanner.skip reader : Scanner σ τ Unit) reader := by
  have hskip : Agrees good bad (fun _ _ => True) (Scanner.skip reader : Scanner σ τ Unit)
      (reader >>= Pure.pure) :=
    agrees_bind (agrees_ofReader h) fun _ _ _ => agrees_pure trivial
  rwa [bind_pure] at hskip

/-- An item that is read and checked agrees with the item collected. -/
theorem agrees_item {reader : Reader σ ε τ} {check : τ → Reader σ ε β}
    (h : ∀ cells error, reader.run cells = .error error → error ≠ bad)
    (hgood : ∀ t, good t → ∃ value, check t = Pure.pure value)
    (hbad : ∀ t, ¬good t → ∀ cells, (check t).run cells = .error bad) :
    Agrees good bad (fun _ _ => True) (Scanner.item reader) (reader >>= check) := by
  intro cells
  have hrun : (reader >>= check).run cells =
      reader.run cells >>= fun result => (check result.1).run result.2 := StateT.run_bind ..
  cases hread : reader.run cells with
  | error error =>
    have hscan : (Scanner.item reader : Scanner σ τ Unit) cells = ([], none) := by
      rw [Scanner.item, hread]
    refine .of_none hscan (fun _ => ?_) fun hno => ?_
    · exact ⟨error, h cells error hread, by rw [hrun, hread]; rfl⟩
    · exact absurd (fun t ht => absurd ht List.not_mem_nil) hno
  | ok result =>
    rcases result with ⟨t, rest⟩
    have hscan : (Scanner.item reader : Scanner σ τ Unit) cells = ([t], some ((), rest)) := by
      rw [Scanner.item, hread]
    have hcheck : (reader >>= check).run cells = (check t).run rest := by
      rw [hrun, hread]
      rfl
    refine .of_some hscan (fun hall => ?_) fun hno => ?_
    · obtain ⟨value', hvalue⟩ := hgood t (hall t List.mem_cons_self)
      exact ⟨value', by rw [hcheck, hvalue]; rfl, trivial⟩
    · have ht : ¬good t := fun ht => hno fun other hother => by rwa [List.mem_singleton.mp hother]
      rw [hcheck, hbad t ht]

/-- Scanning and reading a fixed number of times. -/
theorem agrees_times {scanner : Scanner σ τ Unit} {reader : Reader σ ε β}
    (h : Agrees good bad (fun _ _ => True) scanner reader) (count : ℕ) :
    Agrees good bad (fun _ _ => True) (Scanner.times scanner count) (times reader count) := by
  induction count with
  | zero => exact agrees_pure trivial
  | succ count ih =>
    refine agrees_bind h fun _ value _ => ?_
    exact ih.conclude fun _ values _ => ⟨value :: values, rfl, trivial⟩

end OpenDiamond.Lib.Scanning
