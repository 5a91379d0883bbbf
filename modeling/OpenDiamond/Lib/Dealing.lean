import Mathlib.Algebra.GroupWithZero.Nat
import Mathlib.Data.List.Perm.Basic
import Mathlib.Data.List.Range
import Mathlib.Data.Nat.ModEq

/-!
# Dealing a list out

The items of a list are given to a number of receivers in turn. Together they get a
permutation of the list. What a stride selects is dealt out by the strides that are as many times
longer, begun one after the other.
-/

namespace OpenDiamond.Lib.Dealing

variable {α β : Type*}

/-- What one receiver gets, when a number of items was seen before. -/
def deal (count index : ℕ) : ℕ → List α → List α
  | _, [] => []
  | seen, a :: rest =>
    if seen % count = index then a :: deal count index (seen + 1) rest
    else deal count index (seen + 1) rest

theorem deal_map (f : α → β) (count index seen : ℕ) (list : List α) :
    deal count index seen (list.map f) = (deal count index seen list).map f := by
  induction list generalizing seen with
  | nil => rfl
  | cons a rest ih =>
    rw [List.map_cons, deal, deal, ih]
    split <;> rfl

/-- An item that is given to one of the receivers comes first in a permutation. -/
theorem flatMap_give {κ : Type*} [DecidableEq κ] {receivers : List κ} (hnodup : receivers.Nodup)
    {receiver : κ} (hmem : receiver ∈ receivers) (a : α) (hand : κ → List α) :
    (receivers.flatMap fun i => if receiver = i then a :: hand i else hand i).Perm
      (a :: receivers.flatMap hand) := by
  induction receivers with
  | nil => cases hmem
  | cons i rest ih =>
    obtain ⟨hfresh, hrest⟩ := List.nodup_cons.mp hnodup
    rw [List.flatMap_cons, List.flatMap_cons]
    by_cases hi : receiver = i
    · have hothers : (rest.flatMap fun j => if receiver = j then a :: hand j else hand j) =
          rest.flatMap hand := by
        refine List.flatMap_congr fun j hj => if_neg fun hj' => ?_
        exact hfresh (hi ▸ hj' ▸ hj)
      rw [if_pos hi, hothers]
      exact List.Perm.refl _
    · have htail := ih hrest ((List.mem_cons.mp hmem).resolve_left hi)
      rw [if_neg hi]
      exact (htail.append_left (hand i)).trans List.perm_middle

/-- Every item is given to exactly one receiver. -/
theorem flatMap_deal {count : ℕ} (hcount : 0 < count) (seen : ℕ) (list : List α) :
    ((List.range count).flatMap fun i => deal count i seen list).Perm list := by
  induction list generalizing seen with
  | nil =>
    have hempty : ((List.range count).flatMap fun i => deal count i seen ([] : List α)) = [] :=
      List.flatMap_eq_nil_iff.mpr fun _ _ => rfl
    rw [hempty]
  | cons a rest ih =>
    have hreceiver : seen % count ∈ List.range count := List.mem_range.mpr (Nat.mod_lt _ hcount)
    have hgiven := flatMap_give List.nodup_range hreceiver a
      fun i => deal count i (seen + 1) rest
    exact hgiven.trans ((ih (seen + 1)).cons a)

/-- The receivers get as many items as there are. -/
theorem sum_length_deal {count : ℕ} (hcount : 0 < count) (seen : ℕ) (list : List α) :
    ((List.range count).map fun i => (deal count i seen list).length).sum = list.length := by
  have hlength := (flatMap_deal hcount seen list).length_eq
  rwa [List.length_flatMap] at hlength

/-- Several lists, each dealt out from the first receiver on. -/
theorem flatMap_flatMap_deal {count : ℕ} (hcount : 0 < count) (seen : ℕ) (lists : List (List α)) :
    ((List.range count).flatMap fun i => lists.flatMap (deal count i seen)).Perm lists.flatten := by
  induction lists with
  | nil =>
    have hempty : ((List.range count).flatMap fun i =>
        ([] : List (List α)).flatMap (deal count i seen)) = [] :=
      List.flatMap_eq_nil_iff.mpr fun _ _ => rfl
    rw [hempty]
    exact List.Perm.refl _
  | cons list rest ih =>
    exact (List.flatMap_append_perm _ _ _).symm.trans ((flatMap_deal hcount seen list).append ih)

/-! ## Strides -/

/-- The items at the next index and then at every step, before the stop; the list begins at the
first index that is given. -/
def stride (stop : Option ℕ) (step : ℕ) : ℕ → ℕ → List α → List α
  | _, _, [] => []
  | next, i, a :: rest =>
    if stop.any (· ≤ i) then []
    else if i = next then a :: stride stop step (next + step) (i + 1) rest
    else stride stop step next (i + 1) rest

/-- A stride whose next index lies behind the stop selects nothing. -/
theorem stride_behind {stop next i : ℕ} (hstop : stop ≤ next) (hi : i ≤ next) (step : ℕ)
    (list : List α) : stride (some stop) step next i list = [] := by
  induction list generalizing i with
  | nil => rfl
  | cons a rest ih =>
    rw [stride]
    split
    · rfl
    · rename_i hbefore
      have hlt : i < stop := by
        rw [Option.any_some, decide_eq_true_eq] at hbefore
        omega
      rw [if_neg (by omega)]
      exact ih (by omega)

/-- The longer stride that begins when it is a receiver's turn selects what the receiver gets. -/
theorem stride_deal {count index seen turn step : ℕ} (hstep : 0 < step) (hturn : turn < count)
    (hindex : (seen + turn) % count = index) (stop : Option ℕ) {next i : ℕ} (hi : i ≤ next)
    (list : List α) :
    stride stop (step * count) (next + turn * step) i list =
      deal count index seen (stride stop step next i list) := by
  induction list generalizing next i seen turn with
  | nil => rfl
  | cons a rest ih =>
    rw [stride, stride]
    split
    · rfl
    · rcases Nat.eq_or_lt_of_le hi with rfl | hlt
      · rw [if_pos rfl, deal]
        cases turn with
        | zero =>
          -- it is the receiver's turn, and then that of all the others first
          have hnext : i + 0 * step + step * count = i + step + (count - 1) * step := by
            have hcount : count = count - 1 + 1 := by omega
            rw [zero_mul, Nat.add_zero, Nat.add_assoc, mul_comm step count]
            conv_lhs => rw [hcount, Nat.add_mul, one_mul]
            rw [Nat.add_comm step]
          have hlater : (seen + 1 + (count - 1)) % count = index := by
            have hsum : seen + 1 + (count - 1) = seen + count := by omega
            rw [hsum, Nat.add_mod_right]
            exact hindex
          rw [Nat.add_zero] at hindex
          rw [if_pos (by omega), if_pos hindex, hnext, ih (by omega) hlater (by omega)]
        | succ turn =>
          have hother : ¬ seen % count = index := by
            intro heq
            have hzero : (seen + (turn + 1)) % count = (seen + 0) % count := by
              rw [hindex, Nat.add_zero, heq]
            have hmod := Nat.ModEq.add_left_cancel' seen hzero
            rw [Nat.ModEq, Nat.mod_eq_of_lt hturn, Nat.zero_mod] at hmod
            omega
          have hapart : ¬ i = i + (turn + 1) * step := by
            have hpos : 0 < (turn + 1) * step := Nat.mul_pos (Nat.succ_pos turn) hstep
            omega
          have hnext : i + (turn + 1) * step = i + step + turn * step := by
            rw [Nat.add_mul, one_mul]
            omega
          have hlater : (seen + 1 + turn) % count = index := by
            have hsum : seen + 1 + turn = seen + (turn + 1) := by omega
            rw [hsum]
            exact hindex
          rw [if_neg hapart, if_neg hother, hnext, ih (by omega) hlater (by omega)]
      · rw [if_neg (by omega), if_neg (by omega), ih hturn hindex hlt]

end OpenDiamond.Lib.Dealing
