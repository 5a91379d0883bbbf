import Mathlib.Data.List.Basic

/-!
# Records of a fixed size

A record is cut off the front of the data and unpacked; data that is too short has none. As many
records as were joined are cut off again, and no fewer cells hold that many.
-/

namespace OpenDiamond.Lib.Records

variable {β α : Type}

/-- Exactly so many cells. -/
abbrev Exact (size : ℕ) (β : Type) := { cells : List β // cells.length = size }

variable {size : ℕ} (unpack : Exact size β → α)

/-- Cut a record off the front. -/
def parse (data : List β) : Option (List β × α) :=
  if h : (data.take size).length = size then
    some (data.drop size, unpack ⟨data.take size, h⟩)
  else none

/-- Cut so many records off the front. -/
def parseMany : ℕ → List β → Option (List α)
  | 0, _ => some []
  | count + 1, data => do
    let (data, first) ← parse unpack data
    let others ← parseMany count data
    return first :: others

/-- The cells of some records. -/
def join (records : List (Exact size β)) : List β := records.flatMap Subtype.val

theorem length_join (records : List (Exact size β)) :
    (join records).length = records.length * size := by
  induction records with
  | nil => exact (Nat.zero_mul size).symm
  | cons record rest ih =>
    rw [join, List.flatMap_cons, List.length_append, record.2, List.length_cons, Nat.succ_mul,
      Nat.add_comm]
    exact congrArg (· + size) ih

/-- A record in front is cut off. -/
theorem parse_append (record : Exact size β) (rest : List β) :
    parse unpack (record.1 ++ rest) = some (rest, unpack record) := by
  obtain ⟨cells, rfl⟩ := record
  unfold parse
  rw [dif_pos (by rw [List.take_left])]
  simp only [List.take_left, List.drop_left]

theorem parse_eq_none {data : List β} (h : data.length < size) : parse unpack data = none := by
  refine dif_neg fun hlength => ?_
  rw [List.length_take] at hlength
  omega

theorem length_of_parse {data rest : List β} {value : α}
    (h : parse unpack data = some (rest, value)) : data.length = size + rest.length := by
  unfold parse at h
  split at h
  · rename_i hlength
    cases h
    rw [List.length_take] at hlength
    rw [List.length_drop]
    omega
  · cases h

/-- Joined records are cut off again. -/
theorem parseMany_join (records : List (Exact size β)) (rest : List β) :
    parseMany unpack records.length (join records ++ rest) = some (records.map unpack) := by
  induction records with
  | nil => rfl
  | cons record records ih =>
    have hjoin : join (record :: records) ++ rest = record.1 ++ (join records ++ rest) :=
      List.append_assoc _ _ _
    rw [List.length_cons, parseMany, hjoin, parse_append]
    simp only [Option.bind_eq_bind, Option.bind_some, ih]
    rfl

/-- Fewer cells do not hold that many records. -/
theorem parseMany_eq_none {count : ℕ} {data : List β} (h : data.length < count * size) :
    parseMany unpack count data = none := by
  induction count generalizing data with
  | zero => omega
  | succ count ih =>
    rw [parseMany]
    cases hparse : parse unpack data with
    | none => rfl
    | some first =>
      have hlength := length_of_parse unpack hparse
      rw [Nat.succ_mul] at h
      have hnone : parseMany unpack count first.1 = none := ih (by omega)
      simp only [Option.bind_eq_bind, Option.bind_some, hnone, Option.bind_none]

end OpenDiamond.Lib.Records
