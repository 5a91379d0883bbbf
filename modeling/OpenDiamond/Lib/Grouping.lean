import OpenDiamond.Lib.Dealing
import OpenDiamond.Lib.OrderedDict

/-!
# Grouping values by key

Entries are added one after the other to a dictionary of lists. A key that occurs has the values
that came with it, in the order in which they came.
-/

namespace OpenDiamond.Lib.Grouping

open OrderedDict

variable {α β : Type*} [DecidableEq α]

/-- `setdefault(key, []).append(value)`. -/
def add (groups : Dict α (List β)) (entry : α × β) : Dict α (List β) :=
  groups.set entry.1 ((groups.get? entry.1).getD [] ++ [entry.2])

/-- All entries, from no groups. -/
def group (entries : List (α × β)) : Dict α (List β) := entries.foldl add Dict.empty

/-- The values that come with a key. -/
def valuesOf (entries : List (α × β)) (key : α) : List β :=
  (entries.filter fun entry => entry.1 = key).map Prod.snd

@[simp] theorem valuesOf_nil (key : α) : valuesOf ([] : List (α × β)) key = [] := rfl

theorem valuesOf_append (entries more : List (α × β)) (key : α) :
    valuesOf (entries ++ more) key = valuesOf entries key ++ valuesOf more key := by
  rw [valuesOf, List.filter_append, List.map_append]
  rfl

theorem valuesOf_singleton (other key : α) (value : β) :
    valuesOf [(other, value)] key = if other = key then [value] else [] := by
  by_cases hkey : other = key <;> simp [valuesOf, hkey]

/-- One value under many keys is there once for each of them. -/
theorem valuesOf_map_mk {keys : List α} (h : keys.Nodup) (value : β) (key : α) :
    valuesOf (keys.map fun other => (other, value)) key = if key ∈ keys then [value] else [] := by
  induction keys with
  | nil => rfl
  | cons other rest ih =>
    obtain ⟨hfresh, hrest⟩ := List.nodup_cons.mp h
    have hhead : (other, value) :: rest.map (fun other => (other, value)) =
        [(other, value)] ++ rest.map fun other => (other, value) := rfl
    rw [List.map_cons, hhead, valuesOf_append, ih hrest]
    rw [valuesOf_singleton]
    by_cases hkey : other = key
    · rw [if_pos hkey, ← hkey, if_neg hfresh, if_pos List.mem_cons_self, List.append_nil]
    · rw [if_neg hkey, List.nil_append]
      exact if_congr (by simp [Ne.symm hkey]) rfl rfl

/-- What the entries leave under a key. -/
theorem get?_foldl_add (entries : List (α × β)) (groups : Dict α (List β)) (key : α) :
    (entries.foldl add groups).get? key =
      if valuesOf entries key = [] then groups.get? key
      else some ((groups.get? key).getD [] ++ valuesOf entries key) := by
  induction entries generalizing groups with
  | nil => rfl
  | cons entry rest ih =>
    have hcons : entry :: rest = [entry] ++ rest := rfl
    rw [List.foldl_cons, ih, add, Dict.get?_set, hcons, valuesOf_append, valuesOf_singleton]
    by_cases hkey : entry.1 = key
    · rw [if_pos hkey, if_pos hkey, List.singleton_append, if_neg (List.cons_ne_nil _ _), hkey]
      by_cases hnil : valuesOf rest key = []
      · rw [if_pos hnil, hnil]
      · rw [if_neg hnil, Option.getD_some, List.append_assoc, List.singleton_append]
    · rw [if_neg hkey, if_neg hkey, List.nil_append]

/-- A key has the values that came with it; a key that did not occur has no group. -/
theorem get?_group (entries : List (α × β)) (key : α) :
    (group entries).get? key =
      if valuesOf entries key = [] then none else some (valuesOf entries key) := by
  rw [group, get?_foldl_add]
  rfl

/-- The keys are those of the entries. -/
theorem mem_keys_group (entries : List (α × β)) (key : α) :
    key ∈ (group entries).keys ↔ key ∈ entries.map Prod.fst := by
  rw [Dict.mem_keys_iff, get?_group]
  have hempty : valuesOf entries key = [] ↔ key ∉ entries.map Prod.fst := by
    rw [valuesOf, List.map_eq_nil_iff, List.filter_eq_nil_iff, List.mem_map]
    constructor
    · rintro h ⟨entry, hentry, rfl⟩
      exact h entry hentry (by simp)
    · rintro h entry hentry hkey
      exact h ⟨entry, hentry, of_decide_eq_true hkey⟩
  by_cases hnil : valuesOf entries key = []
  · rw [if_pos hnil]
    exact iff_of_false Bool.false_ne_true (hempty.mp hnil)
  · rw [if_neg hnil]
    exact iff_of_true rfl (not_not.mp (mt hempty.mpr hnil))

/-- The groups share the values out: each value is in the group of its key. -/
theorem flatMap_valuesOf (entries : List (α × β)) :
    ((group entries).keys.flatMap (valuesOf entries)).Perm (entries.map Prod.snd) := by
  have hshare : ∀ keys : List α, keys.Nodup → ∀ some : List (α × β),
      (∀ entry ∈ some, entry.1 ∈ keys) → (keys.flatMap (valuesOf some)).Perm (some.map Prod.snd) := by
    intro keys hkeys some hsome
    induction some with
    | nil =>
      have hnil : keys.flatMap (valuesOf ([] : List (α × β))) = [] :=
        List.flatMap_eq_nil_iff.mpr fun _ _ => rfl
      rw [hnil]
      exact List.Perm.refl _
    | cons entry rest ih =>
      have hvalues : valuesOf (entry :: rest) = fun key =>
          if entry.1 = key then entry.2 :: valuesOf rest key else valuesOf rest key := by
        funext key
        by_cases hkey : entry.1 = key <;> simp [valuesOf, hkey]
      have hgiven := Dealing.flatMap_give hkeys (hsome entry List.mem_cons_self) entry.2
        (valuesOf rest)
      rw [hvalues, List.map_cons]
      exact hgiven.trans ((ih fun other hother =>
        hsome other (List.mem_cons_of_mem entry hother)).cons entry.2)
  exact hshare _ (group entries).nodup entries fun entry hentry =>
    (mem_keys_group entries entry.1).mpr (List.mem_map_of_mem hentry)

end OpenDiamond.Lib.Grouping
