import Mathlib.Data.Finset.Defs
import Mathlib.Data.List.Sort

/-!
# Finite sets in order

A finite set of a linear order is listed from its least member to its greatest, by insertion. The
list can be computed, also by the kernel.
-/

namespace OpenDiamond.Lib.Ordered

variable {α : Type*} [LinearOrder α]

/-- Two listings of the same members have the same order by insertion. -/
theorem insertionSort_eq_of_perm {first second : List α} (h : first.Perm second) :
    first.insertionSort (· ≤ ·) = second.insertionSort (· ≤ ·) :=
  List.Perm.eq_of_pairwise' (List.pairwise_insertionSort (· ≤ ·) first)
    (List.pairwise_insertionSort (· ≤ ·) second)
    ((List.perm_insertionSort (· ≤ ·) first).trans
      (h.trans (List.perm_insertionSort (· ≤ ·) second).symm))

/-- The members in order, by insertion. -/
def inOrder (set : Finset α) : List α :=
  Quot.lift (fun members => members.insertionSort (· ≤ ·))
    (fun _ _ h => insertionSort_eq_of_perm h) set.val

theorem coe_inOrder (set : Finset α) : (inOrder set : Multiset α) = set.val := by
  obtain ⟨⟨members⟩, hnodup⟩ := set
  exact Quot.sound (List.perm_insertionSort (· ≤ ·) members)

/-- Every member is listed, and nothing else. -/
theorem mem_inOrder {set : Finset α} {a : α} : a ∈ inOrder set ↔ a ∈ set := by
  rw [← Multiset.mem_coe, coe_inOrder, Finset.mem_val]

/-- No member is listed twice. -/
theorem nodup_inOrder (set : Finset α) : (inOrder set).Nodup := by
  rw [← Multiset.coe_nodup, coe_inOrder]
  exact set.nodup

end OpenDiamond.Lib.Ordered
