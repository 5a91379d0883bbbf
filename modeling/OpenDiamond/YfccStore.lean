import Mathlib.Data.List.Nodup
import Mathlib.Tactic.Ring
import OpenDiamond.Lib.Dealing
import OpenDiamond.Lib.Splitting
import OpenDiamond.Lib.Words

/-!
# Slices of the YFCC100M metadata

A request takes a slice of the lines of the metadata file and one server's share of it. The share
is a slice again, with a later start and a longer step. The servers share the slice as long as
`itertools.islice` takes the adjusted numbers, which are bounded, and the index after a line stays
in the same bounds.
-/

namespace OpenDiamond.YfccStore

open Lib.Dealing Lib.Splitting Lib.Unicode Lib.Words

/-! ## The program -/

/-- `sys.maxsize`. -/
def sysMaxsize : ℤ := 2 ^ 63 - 1

/-- A slice of the query string. -/
structure Slice where
  /-- The start, if there is one. -/
  start : Option ℤ
  /-- The stop, if there is one. -/
  stop : Option ℤ
  /-- The step, if there is one. -/
  step : Option ℤ

/-- A number of a slice, absent when the text is empty; `none` when it is no number. -/
def readBound (text : Text) : Option (Option ℤ) :=
  if text = [] then some none else (readInt text).map some

/-- The slice of a query string, `none` for an exception. -/
def readSlice (text : Text) : Option Slice :=
  match (text.splitOn (codePoint ':')).take 3 with
  | [start, stop, step] => do
    let start ← readBound start
    let stop ← readBound stop
    let step ← readBound step
    return ⟨start, stop, step⟩
  | _ => none

/-- The number of a server and of all of them in a query string, `none` for an exception. -/
def readDistribute (text : Text) : Option (ℤ × ℤ) :=
  match cut (ofString "of") text with
  | none => none
  | some (n, rest) => do
    let n ← readInt n
    let m ← readInt (((cut (ofString "of") rest).map Prod.fst).getD rest)
    return (n, m)

/-- `start or 0`. -/
def Slice.startOr (slice : Slice) : ℤ := slice.start.getD 0

/-- `step or 1`. -/
def Slice.stepOr (slice : Slice) : ℤ := if slice.step.getD 0 = 0 then 1 else slice.step.getD 0

/-- The start, stop and step that go to `islice`. -/
structure Adjusted where
  /-- `start`. -/
  start : ℤ
  /-- `stop`. -/
  stop : Option ℤ
  /-- `step`. -/
  step : ℤ

/-- The adjustment of `get_scope` for a server, `none` when it aborts. -/
def adjust (slice : Slice) (n m : ℤ) : Option Adjusted :=
  if 0 < slice.stepOr ∧ 1 ≤ n ∧ n ≤ m then
    some ⟨slice.startOr + (n - 1) * slice.stepOr, slice.stop, slice.stepOr * m⟩
  else none

/-- `get_scope` up to the adjusted slice, `none` when it aborts. -/
def getScope (slice distribute : Option Text) : Option Adjusted := do
  let slice ← readSlice (slice.getD (ofString "::"))
  let (n, m) ← readDistribute (distribute.getD (ofString "1of1"))
  adjust slice n m

/-- The next index of `islice` after a line: the stop, once the sum passes it or the largest
`Py_ssize_t`. Without a stop that is -1. -/
def isliceAdvance (stop : Option ℤ) (step next : ℤ) : ℤ :=
  if sysMaxsize < next + step ∨ stop.any (· < next + step) then stop.getD (-1) else next + step

/-- The lines that `islice` yields when the next line has the index `cnt`. -/
def isliceFrom {α : Type} (stop : Option ℤ) (step : ℤ) : ℤ → ℤ → List α → List α
  | _, _, [] => []
  | next, cnt, line :: rest =>
    if cnt < next then isliceFrom stop step next (cnt + 1) rest
    else if stop.any (· ≤ cnt) then []
    else line :: isliceFrom stop step (isliceAdvance stop step next) (cnt + 1) rest

/-- `itertools.islice`, `none` for its `ValueError`. -/
def islice {α : Type} (slice : Adjusted) (lines : List α) : Option (List α) :=
  if (0 ≤ slice.start ∧ slice.start ≤ sysMaxsize) ∧
      (∀ stop ∈ slice.stop, 0 ≤ stop ∧ stop ≤ sysMaxsize) ∧
      1 ≤ slice.step ∧ slice.step ≤ sysMaxsize then
    some (isliceFrom slice.stop slice.step slice.start 0 lines)
  else none

/-- The lines that the request of a server selects, none when it fails. -/
def selected {α : Type} (lines : List α) (slice : Slice) (n m : ℤ) : List α :=
  ((adjust slice n m).bind fun adjusted => islice adjusted lines).getD []

/-- The path of the image of a line, absent for a video; `none` for an exception. -/
def imageSuffix (line : Text) : Option (Option Text) := do
  let tokens := (strip line).splitOn (codePoint '\t')
  let mediaHash ← tokens[2]?
  let _ ← tokens[23]?
  let isVideo ← tokens[24]?.bind readInt
  return if isVideo ≠ 0 then none
    else some (mediaHash.take 3 ++ ofString "/" ++ (mediaHash.drop 3).take 3 ++ ofString "/" ++
      mediaHash ++ ofString ".jpg")

/-- The images that `generate` yields for the selected lines, up to an exception. -/
def generate : List Text → List Text
  | [] => []
  | line :: rest =>
    match imageSuffix line with
    | none => []
    | some none => generate rest
    | some (some suffix) => suffix :: generate rest

/-! ## The servers share the slice -/

/-- Numbered lines of a file: the servers select them apart from each other, together what the
slice selects, and each in file order. -/
structure Shares {α : Type} (lines : List α) (slice : Slice) (m : ℕ) : Prop where
  /-- No line is selected for two servers. -/
  disjoint : ∀ i < m, ∀ j < m, i ≠ j →
    (selected lines.zipIdx slice (i + 1) m).Disjoint (selected lines.zipIdx slice (j + 1) m)
  /-- Together the servers select what is selected without them. -/
  together : ((List.range m).flatMap fun i : ℕ => selected lines.zipIdx slice (i + 1) m).Perm
    (selected lines.zipIdx slice 1 1)
  /-- In file order. -/
  ordered : ∀ i < m, (selected lines.zipIdx slice (i + 1) m).Sublist lines.zipIdx

theorem isliceFrom_sublist {α : Type} (stop : Option ℤ) (step next cnt : ℤ) (lines : List α) :
    (isliceFrom stop step next cnt lines).Sublist lines := by
  induction lines generalizing next cnt with
  | nil => exact List.Sublist.slnil
  | cons line rest ih =>
    rw [isliceFrom]
    split
    · exact (ih next (cnt + 1)).cons line
    split
    · exact List.nil_sublist _
    · exact (ih _ (cnt + 1)).cons_cons line

/-- Every request selects a part of the file, in file order. -/
theorem selected_sublist {α : Type} (lines : List α) (slice : Slice) (n m : ℤ) :
    (selected lines slice n m).Sublist lines := by
  unfold selected
  cases adjust slice n m with
  | none => exact List.nil_sublist _
  | some adjusted =>
    simp only [Option.bind_some, islice]
    split
    · rw [Option.getD_some]
      exact isliceFrom_sublist _ _ _ _ _
    · exact List.nil_sublist _

/-- Once the next index is the stop, nothing comes any more. -/
theorem isliceFrom_stop {α : Type} (stop step cnt : ℤ) (lines : List α) :
    isliceFrom (some stop) step stop cnt lines = [] := by
  induction lines generalizing cnt with
  | nil => rfl
  | cons line rest ih =>
    rw [isliceFrom]
    split
    · exact ih (cnt + 1)
    · rw [if_pos (by rw [Option.any_some, decide_eq_true_eq]; omega)]

/-- Behind the stop nothing comes any more. -/
theorem isliceFrom_behind {α : Type} {stop cnt : ℤ} (h : stop ≤ cnt) (step next : ℤ)
    (lines : List α) : isliceFrom (some stop) step next cnt lines = [] := by
  induction lines generalizing cnt with
  | nil => rfl
  | cons line rest ih =>
    rw [isliceFrom]
    split
    · exact ih (by omega)
    · rw [if_pos (by rw [Option.any_some, decide_eq_true_eq]; exact h)]

/-- Up to a stop, `islice` takes a stride of the lines. -/
theorem isliceFrom_some {α : Type} {stop step : ℕ} (hstep : 0 < step)
    (hmax : (stop : ℤ) ≤ sysMaxsize) (lines : List α) {next cnt : ℕ} (hnext : cnt ≤ next) :
    isliceFrom (some (stop : ℤ)) step next cnt lines = stride (some stop) step next cnt lines := by
  induction lines generalizing next cnt with
  | nil => rfl
  | cons line rest ih =>
    have hstop : (some stop).any (· ≤ cnt) = decide (stop ≤ cnt) := rfl
    by_cases hpast : stop ≤ cnt
    · -- behind the stop neither takes a line
      rw [isliceFrom_behind (by omega), stride, hstop, if_pos (decide_eq_true hpast)]
    have hbefore : ¬ decide (stop ≤ cnt) = true := by rwa [decide_eq_true_eq]
    rw [isliceFrom, stride, hstop, if_neg hbefore]
    rcases Nat.eq_or_lt_of_le hnext with rfl | hlt
    · have hbefore' : ¬ (some (stop : ℤ)).any (· ≤ (cnt : ℤ)) = true := by
        rw [Option.any_some, decide_eq_true_eq]
        omega
      rw [if_neg (lt_irrefl _), if_neg hbefore', if_pos rfl, isliceAdvance]
      by_cases hlast : stop < cnt + step
      · -- the index after the line lies behind the stop
        have hclip : (some (stop : ℤ)).any (· < (cnt : ℤ) + step) = true := by
          rw [Option.any_some, decide_eq_true_eq]
          omega
        rw [if_pos (Or.inr hclip), Option.getD_some, isliceFrom_stop,
          stride_behind (by omega) (by omega)]
      · have hinside : ¬ (sysMaxsize < (cnt : ℤ) + step ∨
            (some (stop : ℤ)).any (· < (cnt : ℤ) + step) = true) := by
          rw [Option.any_some, decide_eq_true_eq]
          omega
        rw [if_neg hinside]
        exact congrArg (line :: ·) (by exact_mod_cast ih (by omega))
    · rw [if_pos (by omega), if_neg (by omega)]
      exact_mod_cast ih (by omega)

/-- Without a stop it takes one as long as an index that has a line behind it leaves room for the
step. -/
theorem isliceFrom_none {α : Type} {step : ℕ} (hstep : 0 < step) (lines : List α) {next cnt : ℕ}
    (hnext : cnt ≤ next) (hroom : ∀ k : ℕ, next + k * step + 1 < cnt + lines.length →
      ((next + k * step + step : ℕ) : ℤ) ≤ sysMaxsize) :
    isliceFrom none step next cnt lines = stride none step next cnt lines := by
  induction lines generalizing next cnt with
  | nil => rfl
  | cons line rest ih =>
    rw [List.length_cons] at hroom
    rw [isliceFrom, stride]
    have hnever : ¬ (none : Option ℤ).any (· ≤ (cnt : ℤ)) = true := Bool.false_ne_true
    have hnever' : ¬ (none : Option ℕ).any (· ≤ cnt) = true := Bool.false_ne_true
    rw [if_neg hnever, if_neg hnever']
    rcases Nat.eq_or_lt_of_le hnext with rfl | hlt
    · rw [if_neg (lt_irrefl _), if_pos rfl]
      refine congrArg (line :: ·) ?_
      cases rest with
      | nil => rfl
      | cons following rest =>
        have hfirst := hroom 0 (by rw [List.length_cons]; omega)
        have hinside : ¬ (sysMaxsize < (cnt : ℤ) + step ∨
            (none : Option ℤ).any (· < (cnt : ℤ) + step) = true) := by
          rintro (hover | hnone)
          · push_cast at hfirst
            omega
          · exact Bool.false_ne_true hnone
        rw [isliceAdvance, if_neg hinside]
        have hlater : ∀ k : ℕ, cnt + step + k * step + 1 < cnt + 1 + (following :: rest).length →
            ((cnt + step + k * step + step : ℕ) : ℤ) ≤ sysMaxsize := by
          intro k hk
          have hshift : cnt + step + k * step = cnt + (k + 1) * step := by ring
          rw [hshift] at hk ⊢
          exact hroom (k + 1) (by omega)
        exact_mod_cast ih (by omega) hlater
    · rw [if_pos (by omega), if_neg (by omega)]
      exact_mod_cast ih (by omega)
        fun k hk => hroom k (by omega)

/-- What `islice` selects by numbers that it takes, unless it does not take the stop. -/
theorem islice_eq {α : Type} (lines : List α) (stop : Option ℤ) {start step : ℕ} (hstep : 0 < step)
    (hstart : (start : ℤ) ≤ sysMaxsize) (hmax : (step : ℤ) ≤ sysMaxsize)
    (hroom : stop = none → ∀ k : ℕ, start + k * step + 1 < lines.length →
      ((start + k * step + step : ℕ) : ℤ) ≤ sysMaxsize) :
    islice ⟨start, stop, step⟩ lines =
      if ∀ s ∈ stop, 0 ≤ s ∧ s ≤ sysMaxsize then
        some (stride (stop.map Int.toNat) step start 0 lines)
      else none := by
  have hstart' : 0 ≤ (start : ℤ) ∧ (start : ℤ) ≤ sysMaxsize := ⟨Int.natCast_nonneg start, hstart⟩
  have hstep' : 1 ≤ (step : ℤ) ∧ (step : ℤ) ≤ sysMaxsize := ⟨by omega, hmax⟩
  unfold islice
  by_cases hstop : ∀ s ∈ stop, 0 ≤ s ∧ s ≤ sysMaxsize
  · rw [if_pos ⟨hstart', hstop, hstep'⟩, if_pos hstop]
    refine congrArg some ?_
    cases stop with
    | none =>
      exact isliceFrom_none hstep lines (Nat.zero_le start) fun k hk =>
        hroom rfl k (by rwa [Nat.zero_add] at hk)
    | some s =>
      obtain ⟨hpositive, hbound⟩ := hstop s rfl
      obtain ⟨stop, rfl⟩ := Int.eq_ofNat_of_zero_le hpositive
      exact isliceFrom_some hstep hbound lines (Nat.zero_le start)
  · rw [if_neg fun h => hstop h.2.1, if_neg hstop]

/-- Without a stop, the index of a selected line that has a line behind it leaves room for the
longest step. -/
def LeavesRoom (slice : Slice) (m length : ℕ) : Prop :=
  slice.stop = none → ∀ k : ℕ, slice.startOr + k * slice.stepOr + 1 < length →
    slice.startOr + k * slice.stepOr + slice.stepOr * m ≤ sysMaxsize

/-- Each server is dealt its share of the slice. -/
theorem selected_eq_deal {α : Type} (lines : List α) {slice : Slice} {m i : ℕ} (hi : i < m)
    (hstart : 0 ≤ slice.startOr) (hstep : 1 ≤ slice.stepOr)
    (hlast : slice.startOr + (m - 1) * slice.stepOr ≤ sysMaxsize)
    (hstride : slice.stepOr * m ≤ sysMaxsize) (hroom : LeavesRoom slice m lines.length) :
    selected lines slice (i + 1) m = deal m i 0 (selected lines slice 1 1) := by
  obtain ⟨start, hstartEq⟩ := Int.eq_ofNat_of_zero_le hstart
  obtain ⟨step, hstepEq⟩ := Int.eq_ofNat_of_zero_le (Int.le_trans Int.one_nonneg hstep)
  have hpositive : 0 < step := by omega
  have hshare : adjust slice (i + 1) m = some ⟨(start + i * step : ℕ), slice.stop, (step * m : ℕ)⟩ := by
    rw [adjust, if_pos ⟨by omega, by omega, by omega⟩, hstartEq, hstepEq]
    have hturn : ((i : ℤ) + 1 - 1) * step = (i * step : ℕ) := by push_cast; ring
    rw [hturn]
    push_cast
    rfl
  have hwhole : adjust slice 1 1 = some ⟨start, slice.stop, step⟩ := by
    rw [adjust, if_pos ⟨by omega, by omega, by omega⟩, hstartEq, hstepEq]
    norm_num
  have hlast' : ((start + (m - 1) * step : ℕ) : ℤ) ≤ sysMaxsize := by
    have hm : ((m - 1 : ℕ) : ℤ) = m - 1 := by omega
    rw [hstartEq, hstepEq] at hlast
    push_cast
    rw [hm]
    exact hlast
  have hstride' : ((step * m : ℕ) : ℤ) ≤ sysMaxsize := by
    rw [hstepEq] at hstride
    exact_mod_cast hstride
  have hturn : i * step ≤ (m - 1) * step := Nat.mul_le_mul_right _ (by omega)
  have hlong : step * 1 ≤ step * m := Nat.mul_le_mul_left _ (by omega)
  have hroom' : slice.stop = none → ∀ k : ℕ, start + k * step + 1 < lines.length →
      ((start + k * step + step * m : ℕ) : ℤ) ≤ sysMaxsize := by
    intro hnone k hk
    have hwide := hroom hnone k (by rw [hstartEq, hstepEq]; exact_mod_cast hk)
    rw [hstartEq, hstepEq] at hwide
    exact_mod_cast hwide
  have hroomShare : slice.stop = none → ∀ k : ℕ,
      start + i * step + k * (step * m) + 1 < lines.length →
      ((start + i * step + k * (step * m) + step * m : ℕ) : ℤ) ≤ sysMaxsize := by
    intro hnone k hk
    have hindex : start + i * step + k * (step * m) = start + (i + k * m) * step := by ring
    rw [hindex] at hk ⊢
    exact hroom' hnone _ hk
  have hroomWhole : slice.stop = none → ∀ k : ℕ, start + k * step + 1 < lines.length →
      ((start + k * step + step : ℕ) : ℤ) ≤ sysMaxsize := by
    intro hnone k hk
    have hwide := hroom' hnone k hk
    omega
  unfold selected
  rw [hshare, hwhole, Option.bind_some, Option.bind_some,
    islice_eq lines _ (by omega) (by omega) hstride' hroomShare,
    islice_eq lines _ hpositive (by omega) (by omega) hroomWhole]
  split
  · exact stride_deal hpositive hi (by rw [Nat.zero_add, Nat.mod_eq_of_lt hi]) _ (Nat.zero_le start)
      lines
  · rfl

/-- The servers share the slice when `islice` takes the last start and the longer step, and no index
that it comes to passes the largest one: each selected line is selected by one server, and each
server selects in file order. -/
theorem distribute_shares {α : Type} (lines : List α) {slice : Slice} {m : ℕ} (hm : 1 ≤ m)
    (hstart : 0 ≤ slice.startOr) (hstep : 1 ≤ slice.stepOr)
    (hlast : slice.startOr + (m - 1) * slice.stepOr ≤ sysMaxsize)
    (hstride : slice.stepOr * m ≤ sysMaxsize) (hroom : LeavesRoom slice m lines.length) :
    Shares lines slice m := by
  have hdeal : ∀ i < m, selected lines.zipIdx slice (i + 1) m =
      deal m i 0 (selected lines.zipIdx slice 1 1) := fun i hi =>
    selected_eq_deal lines.zipIdx hi hstart hstep hlast hstride (by rwa [List.length_zipIdx])
  have htogether : ((List.range m).flatMap fun i : ℕ => selected lines.zipIdx slice (i + 1) m).Perm
      (selected lines.zipIdx slice 1 1) := by
    rw [List.flatMap_congr fun i hi => hdeal i (List.mem_range.mp hi)]
    exact flatMap_deal hm 0 _
  have hnodup : ((List.range m).flatMap fun i : ℕ => selected lines.zipIdx slice (i + 1) m).Nodup := by
    have hlines : lines.zipIdx.Nodup := by
      refine List.Nodup.of_map Prod.snd ?_
      rw [List.zipIdx_map_snd]
      exact List.nodup_range'
    exact htogether.nodup_iff.mpr (hlines.sublist (selected_sublist _ slice 1 1))
  refine ⟨fun i hi j hj hne => ?_, htogether, fun i _ => selected_sublist _ slice _ _⟩
  have hpairwise := (List.nodup_flatMap.mp hnodup).2
  have hsymm : Std.Symm (Function.onFun List.Disjoint
      fun k : ℕ => selected lines.zipIdx slice (k + 1) m) := ⟨fun _ _ h _ ha hb => h hb ha⟩
  exact hpairwise.forall (List.mem_range.mpr hi) (List.mem_range.mpr hj) hne

/-- Every third line from the second on, without an end, for two servers. -/
theorem distribute_shares_two :
    (1 ≤ 2 ∧ (0 : ℤ) ≤ Slice.startOr ⟨some 1, none, some 3⟩ ∧
      (1 : ℤ) ≤ Slice.stepOr ⟨some 1, none, some 3⟩) ∧
      Shares (List.range 12) ⟨some 1, none, some 3⟩ 2 := by
  refine ⟨by decide, distribute_shares (List.range 12) (by decide) (by decide) (by decide)
    (by decide) (by decide) fun _ k hk => ?_⟩
  rw [List.length_range] at hk
  have hindex : (1 : ℤ) + k * 3 + 1 < 12 := hk
  have hbound : (1 : ℤ) + k * 3 + 3 * (2 : ℕ) ≤ 2 ^ 63 - 1 := by omega
  exact hbound

/-- Beyond the largest index `islice` begins anew: it takes the line after the last one. -/
example : selected [0, 1, 2, 3] ⟨some 2, none, some (2 ^ 62 - 1)⟩ 1 2 = [2, 3] ∧
    selected [0, 1, 2, 3] ⟨some 2, none, some (2 ^ 62 - 1)⟩ 1 1 = [2] := by decide

/-- One line and a step that is in range, but not when it is multiplied by the number of servers:
no server selects the line. -/
theorem line_not_shared :
    selected [()].zipIdx ⟨none, none, some (2 ^ 62)⟩ 1 1 = [((), 0)] ∧
      ¬ Shares [()] ⟨none, none, some (2 ^ 62)⟩ 4 := by
  have hwhole : selected [()].zipIdx ⟨none, none, some (2 ^ 62)⟩ 1 1 = [((), 0)] := by decide
  refine ⟨hwhole, fun h => ?_⟩
  have hparts : ((List.range 4).flatMap fun i : ℕ =>
      selected [()].zipIdx ⟨none, none, some (2 ^ 62)⟩ (i + 1) 4) = [] := by decide
  have hperm := h.together
  rw [hwhole] at hperm
  exact List.cons_ne_nil _ _ ((List.nil_perm.mp (hparts ▸ hperm)))

/-- The images of lines that can all be read. -/
theorem generate_eq {lines : List Text} (h : ∀ line ∈ lines, (imageSuffix line).isSome) :
    generate lines = lines.filterMap fun line => (imageSuffix line).join := by
  induction lines with
  | nil => rfl
  | cons line rest ih =>
    have hrest := ih fun l hl => h l (List.mem_cons_of_mem line hl)
    obtain ⟨image, himage⟩ := Option.isSome_iff_exists.mp (h line List.mem_cons_self)
    rw [generate, himage]
    cases image with
    | none => rw [List.filterMap_cons_none (by rw [himage]; rfl)]; exact hrest
    | some suffix =>
      rw [List.filterMap_cons_some (by rw [himage]; rfl)]
      exact congrArg (suffix :: ·) hrest

/-- The servers together yield the images of the slice. -/
theorem generate_shares {lines : List Text} {slice : Slice} {m : ℕ} (hm : 1 ≤ m)
    (hstart : 0 ≤ slice.startOr) (hstep : 1 ≤ slice.stepOr)
    (hlast : slice.startOr + (m - 1) * slice.stepOr ≤ sysMaxsize)
    (hstride : slice.stepOr * m ≤ sysMaxsize) (hroom : LeavesRoom slice m lines.length)
    (h : ∀ line ∈ lines, (imageSuffix line).isSome) :
    ((List.range m).flatMap fun i : ℕ => generate (selected lines slice (i + 1) m)).Perm
      (generate (selected lines slice 1 1)) := by
  have hread : ∀ n k, generate (selected lines slice n k) =
      (selected lines slice n k).filterMap fun line => (imageSuffix line).join := fun n k =>
    generate_eq fun line hline => h line ((selected_sublist lines slice n k).mem hline)
  have hdeal : ∀ i ∈ List.range m, selected lines slice ((i : ℕ) + 1) m =
      deal m i 0 (selected lines slice 1 1) := fun i hi =>
    selected_eq_deal lines (List.mem_range.mp hi) hstart hstep hlast hstride hroom
  have htogether := flatMap_deal hm 0 (selected lines slice 1 1)
  rw [← List.flatMap_congr hdeal] at htogether
  simp only [hread]
  rw [← List.filterMap_flatMap]
  exact htogether.filterMap _

end OpenDiamond.YfccStore
