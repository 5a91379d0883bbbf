import Mathlib.Data.List.Basic

/-!
# Lists joined by a separator

Joining parts by a one-element separator forgets where the parts that contain
the separator themselves ended. What it keeps is the list of the pieces of all
parts, each part cut at every separator.
-/

namespace OpenDiamond.Lib.Joined

variable {α : Type*}

/-- What precedes the first separator is determined. -/
theorem append_cons_inj {sep : α} {a a' b b' : List α} (ha : sep ∉ a) (ha' : sep ∉ a') :
    a ++ sep :: b = a' ++ sep :: b' ↔ a = a' ∧ b = b' := by
  induction a generalizing a' with
  | nil =>
    cases a' with
    | nil => simp
    | cons x rest =>
      have hx : sep ≠ x := fun e => ha' (e ▸ List.mem_cons_self)
      simp [hx]
  | cons x rest ih =>
    cases a' with
    | nil =>
      have hx : x ≠ sep := fun e => ha (e ▸ List.mem_cons_self)
      simp [hx]
    | cons y rest' =>
      have htail := ih (fun h => ha (List.mem_cons_of_mem x h))
        (fun h => ha' (List.mem_cons_of_mem y h))
      simp only [List.cons_append, List.cons.injEq, htail, and_assoc]

variable [DecidableEq α]

/-- The pieces of a joined list are the pieces of its parts. -/
theorem splitOn_intercalate_eq_flatMap (sep : α) {parts : List (List α)} (h : parts ≠ []) :
    ([sep].intercalate parts).splitOn sep = parts.flatMap (List.splitOn sep) := by
  induction parts with
  | nil => exact (h rfl).elim
  | cons part rest ih =>
    cases rest with
    | nil => simp
    | cons next rest =>
      have htail := ih (List.cons_ne_nil next rest)
      rw [List.intercalate_cons_cons, List.append_assoc, List.singleton_append,
        List.splitOn_append_cons_self, htail]
      exact List.flatMap_cons.symm

/-- Two joined lists agree exactly when their parts have the same pieces. -/
theorem intercalate_eq_iff (sep : α) {parts parts' : List (List α)} (h : parts ≠ [])
    (h' : parts' ≠ []) :
    [sep].intercalate parts = [sep].intercalate parts' ↔
      parts.flatMap (List.splitOn sep) = parts'.flatMap (List.splitOn sep) := by
  rw [← splitOn_intercalate_eq_flatMap sep h, ← splitOn_intercalate_eq_flatMap sep h']
  constructor
  · intro heq
    rw [heq]
  · intro heq
    have hjoin := congrArg ([sep].intercalate ·) heq
    simpa only [List.intercalate_splitOn] using hjoin

/-- A part without the separator is one piece. -/
theorem splitOn_of_notMem {sep : α} {part : List α} (h : sep ∉ part) :
    part.splitOn sep = [part] :=
  List.splitOn_eq_singleton h

/-- Parts without the separator are determined by what they are joined to. -/
theorem intercalate_inj {sep : α} {parts parts' : List (List α)} (h : parts ≠ []) (h' : parts' ≠ [])
    (hparts : ∀ part ∈ parts, sep ∉ part) (hparts' : ∀ part ∈ parts', sep ∉ part)
    (heq : [sep].intercalate parts = [sep].intercalate parts') : parts = parts' := by
  have hpieces : ∀ parts : List (List α), (∀ part ∈ parts, sep ∉ part) →
      parts.flatMap (List.splitOn sep) = parts := by
    intro parts hparts
    rw [List.flatMap_congr fun part hpart => splitOn_of_notMem (hparts part hpart)]
    exact List.flatMap_singleton' parts
  have hsame := (intercalate_eq_iff sep h h').mp heq
  rwa [hpieces parts hparts, hpieces parts' hparts'] at hsame

end OpenDiamond.Lib.Joined
