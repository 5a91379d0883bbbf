import Mathlib.Data.List.Basic
import Mathlib.Data.Nat.Init

/-!
# Readers of a byte stream

A reader takes a prefix off a stream of cells and returns a value, or fails. What a
format has to promise is a statement about prefixes: whatever follows the cells that
spell a value, the reader returns the value and leaves exactly what follows.
-/

namespace OpenDiamond.Lib.Streams

variable {σ ε α β : Type}

/-- A reader consumes cells from the front of a stream or fails with an error. -/
abbrev Reader (σ ε : Type) := StateT (List σ) (Except ε)

/-- The reader takes the cells off the front of any stream and returns the value. -/
def Reads (reader : Reader σ ε α) (cells : List σ) (value : α) : Prop :=
  ∀ rest, reader.run (cells ++ rest) = .ok (value, rest)

/-- The reader fails with the error on the cells, whatever follows them. -/
def Fails (reader : Reader σ ε α) (cells : List σ) (error : ε) : Prop :=
  ∀ rest, reader.run (cells ++ rest) = .error error

theorem Fails.not_reads {reader : Reader σ ε α} {cells : List σ} {error : ε}
    (h : Fails reader cells error) (value : α) : ¬ Reads reader cells value := by
  intro hreads
  have hfail := h []
  rw [hreads []] at hfail
  cases hfail

/-- A failure of the first of two readers is a failure of both. -/
theorem Fails.bind {reader : Reader σ ε α} {cells : List σ} {error : ε}
    (h : Fails reader cells error) (next : α → Reader σ ε β) (cells' : List σ) :
    Fails (reader >>= next) (cells ++ cells') error := by
  intro rest
  rw [List.append_assoc, StateT.run_bind, h]
  rfl

/-- The second of two readers fails after the first. -/
theorem Reads.bind_fails {reader : Reader σ ε α} {next : α → Reader σ ε β} {cells cells' : List σ}
    {value : α} {error : ε} (h : Reads reader cells value) (h' : Fails (next value) cells' error) :
    Fails (reader >>= next) (cells ++ cells') error := by
  intro rest
  rw [List.append_assoc, StateT.run_bind, h]
  exact h' rest

/-- Returning a value reads nothing. -/
theorem Reads.pure (value : α) : Reads (Pure.pure value : Reader σ ε α) [] value :=
  fun _ => rfl

/-- Two readers in sequence read the two spellings one after the other. -/
theorem Reads.bind {reader : Reader σ ε α} {next : α → Reader σ ε β} {cells cells' : List σ}
    {value : α} {value' : β} (h : Reads reader cells value)
    (h' : Reads (next value) cells' value') :
    Reads (reader >>= next) (cells ++ cells') value' := by
  intro rest
  rw [List.append_assoc, StateT.run_bind, h]
  exact h' rest

/-- The second of two readers may read nothing. -/
theorem Reads.bind_nil {reader : Reader σ ε α} {next : α → Reader σ ε β} {cells : List σ}
    {value : α} {value' : β} (h : Reads reader cells value) (h' : Reads (next value) [] value') :
    Reads (reader >>= next) cells value' := by
  have hread := h.bind h'
  rwa [List.append_nil] at hread

/-- A function of what was read is read from the same cells. -/
theorem Reads.map {reader : Reader σ ε α} {cells : List σ} {value : α} (f : α → β)
    (h : Reads reader cells value) : Reads (f <$> reader) cells (f value) := by
  intro rest
  rw [StateT.run_map, h]
  rfl

/-- Take a fixed number of cells, or fail when the stream is too short. -/
def take (error : ε) (count : ℕ) : Reader σ ε (List σ) := fun stream =>
  if stream.length < count then .error error else .ok (stream.take count, stream.drop count)

theorem reads_take (error : ε) (cells : List σ) :
    Reads (take error cells.length) cells cells := by
  intro rest
  have hlen : ¬ (cells ++ rest).length < cells.length := by
    rw [List.length_append]
    omega
  simp only [take, StateT.run, if_neg hlen, List.take_left', List.drop_left']

/-- Run a reader a fixed number of times and collect the values. -/
def times (reader : Reader σ ε α) : ℕ → Reader σ ε (List α)
  | 0 => Pure.pure []
  | count + 1 => do
    let value ← reader
    let values ← times reader count
    Pure.pure (value :: values)

/-- A run of items is read when every item is. -/
theorem reads_times {reader : Reader σ ε α} {spell : α → Option (List σ)} {values : List α}
    (h : ∀ value ∈ values, ∃ cells, spell value = some cells ∧ Reads reader cells value) :
    ∃ parts, values.mapM spell = some parts ∧
      Reads (times reader values.length) parts.flatten values := by
  induction values with
  | nil => exact ⟨[], rfl, Reads.pure []⟩
  | cons value values ih =>
    obtain ⟨cells, hspell, hread⟩ := h value List.mem_cons_self
    obtain ⟨parts, hparts, hreads⟩ :=
      ih fun other hother => h other (List.mem_cons_of_mem value hother)
    refine ⟨cells :: parts, ?_, ?_⟩
    · simp [List.mapM_cons, hspell, hparts]
    · have hrest := hreads.map (List.cons value)
      rw [map_eq_pure_bind] at hrest
      exact Reads.bind hread hrest

/-- Take a line with the symbol that ends it; at the end of the stream what is left. -/
def line [DecidableEq σ] (newline : σ) : Reader σ ε (List σ) := fun stream =>
  let count := (stream.takeWhile (· ≠ newline)).length + 1
  .ok (stream.take count, stream.drop count)

theorem reads_line [DecidableEq σ] {newline : σ} {cells : List σ} (h : newline ∉ cells) :
    Reads (line newline : Reader σ ε (List σ)) (cells ++ [newline]) (cells ++ [newline]) := by
  intro rest
  have hfront : ∀ c ∈ cells, decide (c ≠ newline) = true := by
    intro c hc
    have hne : c ≠ newline := fun heq => h (heq ▸ hc)
    exact decide_eq_true hne
  have hcount : ((cells ++ [newline] ++ rest).takeWhile (· ≠ newline)).length + 1 =
      (cells ++ [newline]).length := by
    rw [List.append_assoc, List.takeWhile_append_of_pos hfront]
    simp
  simp only [line, StateT.run]
  rw [hcount, List.take_left', List.drop_left'] <;> rfl

/-- Take at most a number of cells. -/
def upTo (count : ℕ) : Reader σ ε (List σ) := fun stream =>
  .ok (stream.take count, stream.drop count)

theorem reads_upTo (cells : List σ) : Reads (upTo cells.length : Reader σ ε (List σ)) cells cells := by
  intro rest
  simp only [upTo, StateT.run]
  rw [List.take_left', List.drop_left'] <;> rfl

/-- Collect values up to the first absent one. A reader that returns a value without reading
anything would go on forever; the argument is what the loop fails with then. -/
def untilNone (endless : ε) (item : Reader σ ε (Option α)) : Reader σ ε (List α) := fun stream =>
  match item stream with
  | .error error => .error error
  | .ok (none, rest) => .ok ([], rest)
  | .ok (some value, rest) =>
    if rest.length < stream.length then
      match untilNone endless item rest with
      | .error error => .error error
      | .ok (values, rest') => .ok (value :: values, rest')
    else .error endless
termination_by stream => stream.length

/-- The end of the loop. -/
theorem Reads.untilNone_nil {endless : ε} {item : Reader σ ε (Option α)} {cells : List σ}
    (h : Reads item cells none) : Reads (untilNone endless item) cells [] := by
  intro rest
  have hitem : item (cells ++ rest) = .ok (none, rest) := h rest
  rw [StateT.run, untilNone, hitem]

/-- One round of the loop. -/
theorem Reads.untilNone_cons {endless : ε} {item : Reader σ ε (Option α)} {cells cells' : List σ}
    {value : α} {values : List α} (h : Reads item cells (some value)) (hne : cells ≠ [])
    (h' : Reads (untilNone endless item) cells' values) :
    Reads (untilNone endless item) (cells ++ cells') (value :: values) := by
  intro rest
  have hpos := List.length_pos_iff.mpr hne
  have hitem : item (cells ++ (cells' ++ rest)) = .ok (some value, cells' ++ rest) := h _
  have hshorter : (cells' ++ rest).length < (cells ++ (cells' ++ rest)).length := by
    simp only [List.length_append]
    omega
  have hrest : untilNone endless item (cells' ++ rest) = .ok (values, rest) := h' rest
  rw [StateT.run, List.append_assoc, untilNone, hitem]
  simp only [if_pos hshorter, hrest]

/-- The loop fails where the item does. -/
theorem Fails.untilNone {endless : ε} {item : Reader σ ε (Option α)} {cells : List σ} {error : ε}
    (h : Fails item cells error) : Fails (untilNone endless item) cells error := by
  intro rest
  have hitem : item (cells ++ rest) = .error error := h rest
  rw [StateT.run, Streams.untilNone, hitem]

theorem Reads.untilNone_fails {endless : ε} {item : Reader σ ε (Option α)} {cells cells' : List σ}
    {value : α} {error : ε} (h : Reads item cells (some value)) (hne : cells ≠ [])
    (h' : Fails (untilNone endless item) cells' error) :
    Fails (untilNone endless item) (cells ++ cells') error := by
  intro rest
  have hpos := List.length_pos_iff.mpr hne
  have hitem : item (cells ++ (cells' ++ rest)) = .ok (some value, cells' ++ rest) := h _
  have hshorter : (cells' ++ rest).length < (cells ++ (cells' ++ rest)).length := by
    simp only [List.length_append]
    omega
  have hrest : untilNone endless item (cells' ++ rest) = .error error := h' rest
  rw [StateT.run, List.append_assoc, untilNone, hitem]
  simp only [if_pos hshorter, hrest]

end OpenDiamond.Lib.Streams
