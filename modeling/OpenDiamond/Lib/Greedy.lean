import Mathlib.Data.List.Basic
import Mathlib.Order.Defs.PartialOrder

/-!
# Greedy selection

Candidates are looked at one after another and chosen when they are in conflict with none that was
chosen before. For candidates in order, the chosen ones are exactly those without a conflict with a
smaller chosen one.
-/

namespace OpenDiamond.Lib.Greedy

variable {α : Type*} (conflict : α → α → Bool)

/-- The candidates chosen, after those chosen before. -/
def select (chosen : List α) : List α → List α
  | [] => chosen
  | c :: rest =>
    if chosen.any fun j => conflict j c then select chosen rest else select (chosen ++ [c]) rest

variable {conflict}

theorem select_cons_of_conflict {chosen : List α} {c : α}
    (h : (chosen.any fun j => conflict j c) = true) (rest : List α) :
    select conflict chosen (c :: rest) = select conflict chosen rest := if_pos h

theorem select_cons_of_free {chosen : List α} {c : α}
    (h : ¬(chosen.any fun j => conflict j c) = true) (rest : List α) :
    select conflict chosen (c :: rest) = select conflict (chosen ++ [c]) rest := if_neg h

/-- What was chosen stays chosen. -/
theorem prefix_select (chosen candidates : List α) :
    chosen <+: select conflict chosen candidates := by
  induction candidates generalizing chosen with
  | nil => exact List.prefix_refl chosen
  | cons c rest ih =>
    unfold select
    split
    · exact ih chosen
    · exact (List.prefix_append chosen [c]).trans (ih _)

theorem mem_of_mem_select {chosen candidates : List α} {c : α}
    (h : c ∈ select conflict chosen candidates) : c ∈ chosen ∨ c ∈ candidates := by
  induction candidates generalizing chosen with
  | nil => exact .inl h
  | cons d rest ih =>
    unfold select at h
    split at h
    · exact (ih h).imp_right (List.mem_cons_of_mem d)
    · rcases ih h with hchosen | hrest
      · rcases List.mem_append.mp hchosen with hchosen | hd
        · exact .inl hchosen
        · exact .inr (List.mem_singleton.mp hd ▸ List.mem_cons_self)
      · exact .inr (List.mem_cons_of_mem d hrest)

/-- A candidate is chosen when it is in conflict with no smaller chosen one. -/
theorem mem_select_iff [Preorder α] {chosen candidates : List α}
    (hsorted : candidates.Pairwise (· < ·)) (hchosen : ∀ j ∈ chosen, ∀ c ∈ candidates, j < c)
    {c : α} (hc : c ∈ candidates) :
    c ∈ select conflict chosen candidates ↔
      ∀ j ∈ select conflict chosen candidates, j < c → conflict j c = false := by
  induction candidates generalizing chosen with
  | nil => exact absurd hc List.not_mem_nil
  | cons d rest ih =>
    obtain ⟨hd, hrest⟩ := List.pairwise_cons.mp hsorted
    have hlater : ∀ j ∈ chosen, ∀ c ∈ rest, j < c := fun j hj c hc =>
      hchosen j hj c (List.mem_cons_of_mem d hc)
    by_cases hconflict : (chosen.any fun j => conflict j d) = true
    · rw [select_cons_of_conflict hconflict]
      rcases List.mem_cons.mp hc with rfl | hc
      · obtain ⟨j, hj, hjc⟩ := List.any_eq_true.mp hconflict
        have hjless := hchosen j hj c List.mem_cons_self
        refine iff_of_false (fun hmem => ?_) fun h => ?_
        · rcases mem_of_mem_select hmem with hmem | hmem
          · exact lt_irrefl c (hchosen c hmem c List.mem_cons_self)
          · exact lt_irrefl c (hd c hmem)
        · exact Bool.false_ne_true
            ((h j ((prefix_select chosen rest).sublist.mem hj) hjless).symm.trans hjc)
      · exact ih hrest hlater hc
    · rw [select_cons_of_free hconflict]
      rcases List.mem_cons.mp hc with rfl | hc
      · refine iff_of_true ((prefix_select _ rest).sublist.mem
          (List.mem_append_right chosen List.mem_cons_self)) fun j hj hjc => ?_
        rcases mem_of_mem_select hj with hj | hj
        · rcases List.mem_append.mp hj with hj | hj
          · exact Bool.eq_false_iff.mpr fun h =>
              hconflict (List.any_eq_true.mpr ⟨j, hj, h⟩)
          · exact absurd (List.mem_singleton.mp hj ▸ hjc) (lt_irrefl c)
        · exact absurd (lt_trans hjc (hd j hj)) (lt_irrefl j)
      · refine ih hrest (fun j hj e he => ?_) hc
        rcases List.mem_append.mp hj with hj | hj
        · exact hlater j hj e he
        · exact List.mem_singleton.mp hj ▸ hd e he

end OpenDiamond.Lib.Greedy
