import Mathlib.Data.List.GetD
import Mathlib.Data.List.Range
import Mathlib.Data.Sum.Basic

/-!
# Weaving a list and a sequence by a pattern

Each position of the pattern says whether the next item comes from an endless sequence or from a
list. Where the list has run out the weaving stops.
-/

namespace OpenDiamond.Lib.Weaving

variable {α β : Type*}

/-- The items in the order of the pattern; `true` stands for the sequence. -/
def weave (next : ℕ → β) : ℕ → List α → List Bool → List (α ⊕ β)
  | _, _, [] => []
  | drawn, list, true :: pattern => .inr (next drawn) :: weave next (drawn + 1) list pattern
  | _, [], false :: _ => []
  | drawn, a :: list, false :: pattern => .inl a :: weave next drawn list pattern

/-- The items that come from the list. -/
def lefts (items : List (α ⊕ β)) : List α := items.filterMap Sum.getLeft?

/-- The items that come from the sequence. -/
def rights (items : List (α ⊕ β)) : List β := items.filterMap Sum.getRight?

@[simp] theorem lefts_inl (a : α) (items : List (α ⊕ β)) : lefts (.inl a :: items) = a :: lefts items :=
  rfl

@[simp] theorem lefts_inr (b : β) (items : List (α ⊕ β)) : lefts (.inr b :: items) = lefts items := rfl

@[simp] theorem rights_inl (a : α) (items : List (α ⊕ β)) : rights (.inl a :: items) = rights items :=
  rfl

@[simp] theorem rights_inr (b : β) (items : List (α ⊕ β)) :
    rights (.inr b :: items) = b :: rights items := rfl

/-- The weaving reaches the end of the pattern exactly when the list is long enough. -/
theorem length_weave_eq_iff (next : ℕ → β) (drawn : ℕ) (list : List α) (pattern : List Bool) :
    (weave next drawn list pattern).length = pattern.length ↔
      pattern.count false ≤ list.length := by
  induction pattern generalizing drawn list with
  | nil => simp [weave]
  | cons bit pattern ih =>
    cases bit with
    | true => simpa [weave] using ih (drawn + 1) list
    | false =>
      cases list with
      | nil => simp [weave]
      | cons a list => simpa [weave] using ih drawn list

/-- The list comes in order, as far as the pattern asks for it. -/
theorem lefts_weave (next : ℕ → β) (drawn : ℕ) (list : List α) (pattern : List Bool) :
    lefts (weave next drawn list pattern) = list.take (pattern.count false) := by
  induction pattern generalizing drawn list with
  | nil => simp [weave, lefts]
  | cons bit pattern ih =>
    cases bit with
    | true => simpa [weave] using ih (drawn + 1) list
    | false =>
      cases list with
      | nil => simp [weave, lefts]
      | cons a list => simpa [weave] using ih drawn list

/-- The sequence comes in order, when the list does not run out before. -/
theorem rights_weave (next : ℕ → β) {drawn : ℕ} {list : List α} {pattern : List Bool}
    (h : pattern.count false ≤ list.length) :
    rights (weave next drawn list pattern) =
      (List.range' drawn (pattern.count true)).map next := by
  induction pattern generalizing drawn list with
  | nil => simp [weave, rights]
  | cons bit pattern ih =>
    cases bit with
    | true =>
      have htail : pattern.count false ≤ list.length := by simpa using h
      simp [weave, ih htail, List.range'_succ]
    | false =>
      cases list with
      | nil => simp at h
      | cons a list =>
        have htail : pattern.count false ≤ list.length := by simpa using h
        simpa [weave] using ih htail

end OpenDiamond.Lib.Weaving
