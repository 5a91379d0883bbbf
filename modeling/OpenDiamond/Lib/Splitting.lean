import Mathlib.Data.List.Basic

/-!
# Splitting a list at a separator

The list is cut at the first place where the separator occurs, and the separator is left
out, as by a split that is limited to one cut.
-/

namespace OpenDiamond.Lib.Splitting

variable {α : Type*} [DecidableEq α]

/-- The parts before and after the first occurrence of a separator. -/
def cut (separator : List α) : List α → Option (List α × List α)
  | [] => if separator = [] then some ([], []) else none
  | c :: rest =>
    if separator <+: c :: rest then some ([], (c :: rest).drop separator.length)
    else (cut separator rest).map fun parts => (c :: parts.1, parts.2)

/-- The two parts of a list around the first occurrence of a separator. -/
structure FirstCut (separator list front back : List α) : Prop where
  /-- The separator stands between the parts. -/
  joined : list = front ++ separator ++ back
  /-- It does not occur earlier. -/
  first : ∀ before after, list = before ++ separator ++ after → front.length ≤ before.length

/-- A list is cut at the first occurrence of the separator. -/
theorem cut_eq_some_iff {separator list front back : List α} :
    cut separator list = some (front, back) ↔ FirstCut separator list front back := by
  induction list generalizing front back with
  | nil =>
    constructor
    · intro h
      rw [cut, Option.ite_none_right_eq_some, Option.some.injEq, Prod.mk.injEq] at h
      obtain ⟨rfl, rfl, rfl⟩ := h
      exact ⟨rfl, fun _ _ _ => Nat.zero_le _⟩
    · intro h
      obtain ⟨hfront, hback⟩ := List.append_eq_nil_iff.mp h.joined.symm
      obtain ⟨hfront, hseparator⟩ := List.append_eq_nil_iff.mp hfront
      rw [cut, if_pos hseparator, hfront, hback]
  | cons c rest ih =>
    by_cases hstart : separator <+: c :: rest
    · obtain ⟨after, hafter⟩ := hstart
      have hcut : cut separator (c :: rest) = some ([], after) := by
        rw [cut, if_pos ⟨after, hafter⟩, ← hafter, List.drop_left]
      rw [hcut, Option.some.injEq, Prod.mk.injEq]
      constructor
      · rintro ⟨rfl, rfl⟩
        exact ⟨hafter.symm, fun _ _ _ => Nat.zero_le _⟩
      · intro h
        have hempty : front = [] := List.eq_nil_of_length_eq_zero
          (Nat.le_zero.mp (h.first [] after hafter.symm))
        have hjoined := h.joined
        rw [← hafter, hempty, List.nil_append] at hjoined
        exact ⟨hempty.symm, List.append_cancel_left hjoined⟩
    · rw [cut, if_neg hstart]
      constructor
      · intro h
        obtain ⟨parts, hparts, heq⟩ := Option.map_eq_some_iff.mp h
        cases heq
        have hrest := ih.mp hparts
        refine ⟨congrArg (c :: ·) hrest.joined, ?_⟩
        intro before after hlist
        cases before with
        | nil => exact absurd ⟨after, hlist.symm⟩ hstart
        | cons d before => exact Nat.succ_le_succ (hrest.first before after (List.cons.inj hlist).2)
      · intro h
        cases front with
        | nil => exact absurd ⟨back, h.joined.symm⟩ hstart
        | cons d front =>
          obtain ⟨rfl, hrest⟩ := List.cons.inj h.joined
          have htail : FirstCut separator rest front back := by
            refine ⟨hrest, fun before after hlist => ?_⟩
            exact Nat.le_of_succ_le_succ (h.first (c :: before) after (congrArg (c :: ·) hlist))
          rw [ih.mpr htail]
          rfl

/-- No separator starts in a part without the first symbol of the separator. -/
theorem cut_append_of_notMem {s : α} {tail part : List α} (h : s ∉ part) (rest : List α) :
    cut (s :: tail) (part ++ rest) =
      (cut (s :: tail) rest).map fun parts => (part ++ parts.1, parts.2) := by
  induction part with
  | nil => simp
  | cons c part ih =>
    have hc : s ≠ c := fun heq => h (heq ▸ List.mem_cons_self)
    have hno : ¬(s :: tail) <+: c :: (part ++ rest) := by
      intro hstart
      exact hc (List.cons_prefix_cons.mp hstart).1
    rw [List.cons_append, cut, if_neg hno, ih fun hmem => h (List.mem_cons_of_mem _ hmem)]
    cases cut (s :: tail) rest <;> rfl

theorem cut_separator (separator rest : List α) (hne : separator ≠ []) :
    cut separator (separator ++ rest) = some ([], rest) := by
  cases separator with
  | nil => exact absurd rfl hne
  | cons s tail =>
    have hstart : (s :: tail) <+: s :: (tail ++ rest) := List.prefix_append (s :: tail) rest
    rw [List.cons_append, cut, if_pos hstart]
    simp

/-- A part without the separator's first symbol is cut off in front of the separator. -/
theorem cut_append {s : α} {tail part : List α} (h : s ∉ part) (rest : List α) :
    cut (s :: tail) (part ++ (s :: tail) ++ rest) = some (part, rest) := by
  rw [List.append_assoc, cut_append_of_notMem h, cut_separator _ _ (List.cons_ne_nil s tail)]
  simp

/-- Lines are cut at the first blank one. -/
theorem cut_lines {newline : α} {lines : List (List α)} (hlines : lines ≠ [])
    (hmem : ∀ line ∈ lines, newline ∉ line) (hne : ∀ line ∈ lines, line ≠ []) (rest : List α) :
    cut [newline, newline] ([newline].intercalate lines ++ newline :: newline :: rest) =
      some ([newline].intercalate lines, rest) := by
  induction lines with
  | nil => exact absurd rfl hlines
  | cons line lines ih =>
    have hline := hmem line List.mem_cons_self
    cases lines with
    | nil =>
      have hcut : cut [newline, newline] (line ++ [newline, newline] ++ rest) =
          some (line, rest) := cut_append hline rest
      simpa using hcut
    | cons next lines =>
      have htail := ih (List.cons_ne_nil _ _)
        (fun other hother => hmem other (List.mem_cons_of_mem _ hother))
        (fun other hother => hne other (List.mem_cons_of_mem _ hother))
      obtain ⟨c, more, rfl⟩ := List.exists_cons_of_ne_nil (hne next (by simp))
      have hc : newline ≠ c := by
        intro heq
        exact hmem (c :: more) (by simp) (heq ▸ List.mem_cons_self)
      generalize hjoined : [newline].intercalate ((c :: more) :: lines) = joined at htail
      obtain ⟨others, rfl⟩ : ∃ others, joined = c :: others := by
        rw [← hjoined]
        cases lines <;> simp [List.intercalate_cons_cons]
      have hno : ¬[newline, newline] <+: newline :: c :: (others ++ newline :: newline :: rest) := by
        intro hstart
        have hsecond := (List.cons_prefix_cons.mp hstart).2
        exact hc (List.cons_prefix_cons.mp hsecond).1
      rw [List.cons_append] at htail
      rw [List.intercalate_cons_cons, hjoined, List.append_assoc, List.append_assoc,
        cut_append_of_notMem hline]
      rw [List.singleton_append, List.cons_append, cut, if_neg hno, htail]
      simp

omit [DecidableEq α] in
/-- Parts without separators, joined by one of them, are split again. -/
theorem splitOnP_intercalate {p : α → Bool} {separator : α} (hseparator : p separator = true)
    {parts : List (List α)} (hne : parts ≠ []) (h : ∀ part ∈ parts, ∀ c ∈ part, p c = false) :
    ([separator].intercalate parts).splitOnP p = parts := by
  induction parts with
  | nil => exact absurd rfl hne
  | cons part rest ih =>
    have hpart := h part List.mem_cons_self
    cases rest with
    | nil => simpa using List.splitOnP_eq_singleton hpart
    | cons next rest =>
      have hrest := ih (List.cons_ne_nil next rest) fun other hother =>
        h other (List.mem_cons_of_mem _ hother)
      rw [List.intercalate_cons_cons, List.append_assoc, List.singleton_append,
        List.splitOnP_append_cons_of_forall_mem hpart separator hseparator, hrest]

end OpenDiamond.Lib.Splitting
