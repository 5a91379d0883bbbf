import Mathlib.Data.Finset.Defs
import Mathlib.Data.List.Nodup

/-!
# Insertion-ordered dictionaries

A finite map is kept as the list of its entries in the order in which the
keys were first assigned. Assigning a key that is present rewrites its entry
in place, assigning a new key appends one. Lookups determine the map; the
order is only seen by a traversal of the entries.
-/

namespace OpenDiamond.Lib.OrderedDict

variable {α β γ : Type*} [DecidableEq α]

/-- The value stored with a key in a list of entries. -/
def find : List (α × β) → α → Option β
  | [], _ => none
  | (k, v) :: rest, key => if k = key then some v else find rest key

/-- Rewrite the entry of a key in place, or append a new entry. -/
def assign : List (α × β) → α → β → List (α × β)
  | [], key, value => [(key, value)]
  | (k, v) :: rest, key, value =>
    if k = key then (k, value) :: rest else (k, v) :: assign rest key value

/-- What is assigned is found under its key, and what was there under any other. -/
theorem find_assign (entries : List (α × β)) (key key' : α) (value : β) :
    find (assign entries key value) key' =
      if key = key' then some value else find entries key' := by
  induction entries with
  | nil => simp [assign, find]
  | cons entry rest ih =>
    rcases entry with ⟨k, v⟩
    by_cases hk : k = key
    · subst hk
      by_cases hk' : k = key' <;> simp [assign, find, hk']
    · by_cases hk' : k = key'
      · subst hk'
        simp [assign, find, hk, Ne.symm hk]
      · simp [assign, find, hk, hk', ih]

/-- The values can be rewritten key by key. -/
theorem find_map (f : α → β → γ) (entries : List (α × β)) (key : α) :
    find (entries.map fun entry => (entry.1, f entry.1 entry.2)) key =
      (find entries key).map (f key) := by
  induction entries with
  | nil => rfl
  | cons entry rest ih =>
    rcases entry with ⟨k, v⟩
    rw [List.map_cons, find, find]
    split
    · rename_i hk
      rw [hk, Option.map_some]
    · exact ih

/-- A new key goes to the end. -/
theorem assign_of_find_eq_none {entries : List (α × β)} {key : α} (h : find entries key = none)
    (value : β) : assign entries key value = entries ++ [(key, value)] := by
  induction entries with
  | nil => rfl
  | cons entry rest ih =>
    rcases entry with ⟨k, v⟩
    by_cases hk : k = key
    · simp [find, hk] at h
    · simp only [find, if_neg hk] at h
      simp [assign, hk, ih h]

/-- Assignment keeps the order of the keys, and puts a new key at the end. -/
theorem assign_keys (entries : List (α × β)) (key : α) (value : β) :
    (assign entries key value).map Prod.fst =
      if key ∈ entries.map Prod.fst then entries.map Prod.fst
      else entries.map Prod.fst ++ [key] := by
  induction entries with
  | nil => simp [assign]
  | cons entry rest ih =>
    rcases entry with ⟨k, v⟩
    by_cases hk : k = key
    · simp [assign, hk]
    · have hne : ¬key = k := fun h => hk h.symm
      simp only [assign, if_neg hk, List.map_cons, ih, List.mem_cons, hne, false_or]
      split <;> simp

/-- Assignment keeps the keys distinct. -/
theorem assign_nodup {entries : List (α × β)} (h : (entries.map Prod.fst).Nodup)
    (key : α) (value : β) : ((assign entries key value).map Prod.fst).Nodup := by
  rw [assign_keys]
  split
  · exact h
  · rename_i hk
    exact h.append (List.nodup_singleton key) (by simpa using hk)

/-- With distinct keys a value is found exactly when it stands beside its key. -/
theorem find_eq_some_iff {entries : List (α × β)} (h : (entries.map Prod.fst).Nodup)
    (key : α) (value : β) : find entries key = some value ↔ (key, value) ∈ entries := by
  induction entries with
  | nil => simp [find]
  | cons entry rest ih =>
    rcases entry with ⟨k, v⟩
    obtain ⟨hfresh, hrest⟩ := List.nodup_cons.mp h
    by_cases hk : k = key
    · subst hk
      have hnot : ∀ w, (k, w) ∉ rest := fun w hw =>
        hfresh (List.mem_map.mpr ⟨(k, w), hw, rfl⟩)
      simp [find, hnot, eq_comm]
    · have hne : ¬key = k := fun e => hk e.symm
      simp [find, hk, hne, ih hrest]

/-- Nothing is found exactly under a key that is not there. -/
theorem find_eq_none_iff (entries : List (α × β)) (key : α) :
    find entries key = none ↔ key ∉ entries.map Prod.fst := by
  induction entries with
  | nil => simp [find]
  | cons entry rest ih =>
    rcases entry with ⟨k, v⟩
    by_cases hk : k = key
    · simp [find, hk]
    · have hne : ¬key = k := fun e => hk e.symm
      simp [find, hk, hne, ih]

/-- The entry of a key is the only one that goes when the key is removed. -/
theorem count_filter_of_find [DecidableEq β] {entries : List (α × β)}
    (hnodup : (entries.map Prod.fst).Nodup) {key : α} {value : β}
    (h : find entries key = some value) (value' : β) :
    (entries.map Prod.snd).count value' =
      ((entries.filter fun e => decide (e.1 ≠ key)).map Prod.snd).count value' +
        if value = value' then 1 else 0 := by
  induction entries with
  | nil => cases h
  | cons entry rest ih =>
    rcases entry with ⟨k, v⟩
    obtain ⟨hfresh, hrest⟩ := List.nodup_cons.mp hnodup
    by_cases hk : k = key
    · subst hk
      have hkeep : rest.filter (fun e => decide (e.1 ≠ k)) = rest := by
        refine List.filter_eq_self.mpr fun e he => decide_eq_true fun heq => hfresh ?_
        exact List.mem_map.mpr ⟨e, he, heq⟩
      simp only [find, if_true, Option.some.injEq] at h
      subst h
      rw [List.filter_cons_of_neg (by simp), hkeep, List.map_cons, List.count_cons]
      simp
    · simp only [find, if_neg hk] at h
      have htail := ih hrest h
      rw [List.filter_cons_of_pos (by simpa using hk), List.map_cons, List.map_cons,
        List.count_cons, List.count_cons, htail]
      omega

/-- Assign every pair of a list, in order. -/
def assignAll (entries : List (α × β)) (pairs : List (α × β)) : List (α × β) :=
  pairs.foldl (fun entries pair => assign entries pair.1 pair.2) entries

/-- Any number of assignments keep the keys distinct. -/
theorem assignAll_nodup {entries : List (α × β)} (h : (entries.map Prod.fst).Nodup)
    (pairs : List (α × β)) : ((assignAll entries pairs).map Prod.fst).Nodup := by
  induction pairs generalizing entries with
  | nil => exact h
  | cons pair rest ih => exact ih (assign_nodup h pair.1 pair.2)

/-- A key of the result was there before or has been assigned. -/
theorem mem_keys_assignAll {entries pairs : List (α × β)} {key : α}
    (h : key ∈ (assignAll entries pairs).map Prod.fst) :
    key ∈ entries.map Prod.fst ∨ key ∈ pairs.map Prod.fst := by
  induction pairs generalizing entries with
  | nil => exact Or.inl h
  | cons pair rest ih =>
    rw [List.map_cons, List.mem_cons]
    rcases ih h with hassigned | hrest
    · rw [assign_keys] at hassigned
      split at hassigned
      · exact Or.inl hassigned
      · rcases List.mem_append.mp hassigned with hold | hnew
        · exact Or.inl hold
        · exact Or.inr (Or.inl (List.mem_singleton.mp hnew))
    · exact Or.inr (Or.inr hrest)

omit [DecidableEq α] in
/-- Entries with the same keys in the same order differ only in their values. -/
theorem eq_of_keys_of_mem {entries entries' : List (α × β)}
    (hkeys : entries.map Prod.fst = entries'.map Prod.fst)
    (h : (entries'.map Prod.fst).Nodup)
    (hmem : ∀ entry ∈ entries, entry ∈ entries') : entries = entries' := by
  induction entries generalizing entries' with
  | nil => exact (List.map_eq_nil_iff.mp hkeys.symm).symm
  | cons entry rest ih =>
    rcases entry with ⟨k, v⟩
    cases entries' with
    | nil => simp at hkeys
    | cons entry' rest' =>
      rcases entry' with ⟨k', v'⟩
      obtain ⟨rfl, hrest⟩ : k = k' ∧ rest.map Prod.fst = rest'.map Prod.fst := by
        simpa using hkeys
      obtain ⟨hfresh, hnodup⟩ := List.nodup_cons.mp h
      have hnot : ∀ w, (k, w) ∉ rest' := fun w hw =>
        hfresh (List.mem_map.mpr ⟨(k, w), hw, rfl⟩)
      have hhead : v = v' := by
        have hcase := hmem (k, v) List.mem_cons_self
        simpa [hnot] using hcase
      have htail : ∀ entry ∈ rest, entry ∈ rest' := by
        intro entry hentry
        rcases List.mem_cons.mp (hmem entry (List.mem_cons_of_mem _ hentry)) with rfl | hin
        · refine absurd ?_ hfresh
          exact hrest ▸ List.mem_map_of_mem hentry
        · exact hin
      rw [hhead, ih hrest hnodup htail]

/-- Assigning to entries the pairs of a target with the same keys builds the target,
when every key whose entry differs is assigned. -/
theorem assignAll_eq {entries target pairs : List (α × β)}
    (hkeys : entries.map Prod.fst = target.map Prod.fst)
    (h : (target.map Prod.fst).Nodup)
    (hpairs : ∀ pair ∈ pairs, pair ∈ target)
    (hall : ∀ entry ∈ entries, entry ∈ target ∨ entry.1 ∈ pairs.map Prod.fst) :
    assignAll entries pairs = target := by
  induction pairs generalizing entries with
  | nil =>
    refine eq_of_keys_of_mem hkeys h ?_
    intro entry hentry
    simpa using hall entry hentry
  | cons pair rest ih =>
    have hpair := hpairs pair List.mem_cons_self
    have hkey : pair.1 ∈ entries.map Prod.fst := hkeys ▸ List.mem_map_of_mem hpair
    have hkeys' : (assign entries pair.1 pair.2).map Prod.fst = target.map Prod.fst := by
      rw [assign_keys, if_pos hkey, hkeys]
    have hnodup := hkeys' ▸ h
    refine ih hkeys' (fun other hother => hpairs other (List.mem_cons_of_mem _ hother)) ?_
    intro entry hentry
    have hfind := (find_eq_some_iff hnodup entry.1 entry.2).mpr hentry
    rw [find_assign] at hfind
    by_cases hk : pair.1 = entry.1
    · rw [if_pos hk, Option.some.injEq] at hfind
      have heq : entry = pair := Prod.ext hk.symm hfind.symm
      exact Or.inl (heq ▸ hpair)
    · rw [if_neg hk] at hfind
      have hmem := (find_eq_some_iff (hkeys ▸ h) entry.1 entry.2).mp hfind
      rcases hall entry hmem with htarget | hlater
      · exact Or.inl htarget
      · rw [List.map_cons, List.mem_cons] at hlater
        exact Or.inr (hlater.resolve_left (Ne.symm hk))

/-- A dictionary: its entries in insertion order, each key once. -/
structure Dict (α β : Type*) where
  /-- Entries in the order of first assignment. -/
  entries : List (α × β)
  /-- No key occurs twice. -/
  nodup : (entries.map Prod.fst).Nodup

namespace Dict

/-- The dictionary without entries. -/
def empty : Dict α β := ⟨[], List.nodup_nil⟩

/-- Look a key up. -/
def get? (d : Dict α β) (key : α) : Option β := find d.entries key

/-- Assign a key. -/
def set (d : Dict α β) (key : α) (value : β) : Dict α β :=
  ⟨assign d.entries key value, assign_nodup d.nodup key value⟩

/-- The keys in insertion order. -/
def keys (d : Dict α β) : List α := d.entries.map Prod.fst

/-- Assign every entry of a list, in order. -/
def setAll (d : Dict α β) (entries : List (α × β)) : Dict α β :=
  entries.foldl (fun d e => d.set e.1 e.2) d

/-- Apply a function to every value. -/
def mapValues (f : β → γ) (d : Dict α β) : Dict α γ :=
  ⟨d.entries.map (fun e => (e.1, f e.2)), by
    simpa [List.map_map, Function.comp_def] using d.nodup⟩

omit [DecidableEq α] in
/-- Two dictionaries with the same entries in the same order are equal. -/
theorem ext {d e : Dict α β} (h : d.entries = e.entries) : d = e := by
  cases d
  cases e
  cases h
  rfl

@[simp] theorem get?_empty (key : α) : (empty : Dict α β).get? key = none := rfl

/-- Looking a key up after an assignment. -/
theorem get?_set (d : Dict α β) (key key' : α) (value : β) :
    (d.set key value).get? key' = if key = key' then some value else d.get? key' :=
  find_assign d.entries key key' value

/-- The key that was assigned has its new value. -/
@[simp] theorem get?_set_self (d : Dict α β) (key : α) (value : β) :
    (d.set key value).get? key = some value := by
  simp [get?_set]

/-- The other keys keep theirs. -/
theorem get?_set_of_ne (d : Dict α β) {key key' : α} (value : β) (h : key ≠ key') :
    (d.set key value).get? key' = d.get? key' := by
  simp [get?_set, h]

/-- A key has a value exactly when the two are an entry. -/
theorem get?_eq_some_iff (d : Dict α β) (key : α) (value : β) :
    d.get? key = some value ↔ (key, value) ∈ d.entries :=
  find_eq_some_iff d.nodup key value

/-- The keys are those that have a value. -/
theorem mem_keys_iff (d : Dict α β) (key : α) : key ∈ d.keys ↔ (d.get? key).isSome := by
  rw [Option.isSome_iff_ne_none, ne_eq, get?, find_eq_none_iff, not_not, keys]

/-- Changing all values changes what is looked up in the same way. -/
theorem get?_mapValues (f : β → γ) (d : Dict α β) (key : α) :
    (d.mapValues f).get? key = (d.get? key).map f := by
  obtain ⟨entries, _⟩ := d
  simp only [get?, mapValues]
  induction entries with
  | nil => rfl
  | cons entry rest ih =>
    rcases entry with ⟨k, v⟩
    by_cases hk : k = key
    · simp [find, hk]
    · simpa [find, hk] using ih (List.nodup_cons.mp ‹_›).2

@[simp] theorem setAll_nil (d : Dict α β) : d.setAll [] = d := rfl

@[simp] theorem setAll_cons (d : Dict α β) (entry : α × β) (rest : List (α × β)) :
    d.setAll (entry :: rest) = (d.set entry.1 entry.2).setAll rest := rfl

/-- Assigning entries with distinct keys leaves each of them in place and
every other key as it was. -/
theorem get?_setAll {entries : List (α × β)} (h : (entries.map Prod.fst).Nodup)
    (d : Dict α β) (key : α) :
    (d.setAll entries).get? key = (find entries key).or (d.get? key) := by
  induction entries generalizing d with
  | nil => simp [find]
  | cons entry rest ih =>
    rcases entry with ⟨k, v⟩
    obtain ⟨hfresh, hrest⟩ := List.nodup_cons.mp h
    rw [setAll_cons, ih hrest, get?_set]
    by_cases hk : k = key
    · subst hk
      have hnone := (find_eq_none_iff rest k).mpr hfresh
      simp [find, hnone]
    · simp [find, hk]

/-- A value was there before or is assigned. -/
theorem mem_of_get?_setAll {entries : List (α × β)} {d : Dict α β} {key : α} {value : β}
    (h : (d.setAll entries).get? key = some value) :
    (key, value) ∈ entries ∨ d.get? key = some value := by
  induction entries generalizing d with
  | nil => exact Or.inr h
  | cons entry rest ih =>
    rcases ih h with hrest | hset
    · exact Or.inl (List.mem_cons_of_mem entry hrest)
    · rw [get?_set] at hset
      split at hset
      · rename_i hkey
        cases hset
        subst hkey
        exact Or.inl List.mem_cons_self
      · exact Or.inr hset

/-- A key that is assigned is there. -/
theorem isSome_get?_setAll {entries : List (α × β)} {d : Dict α β} {key : α}
    (h : key ∈ entries.map Prod.fst ∨ (d.get? key).isSome) :
    ((d.setAll entries).get? key).isSome := by
  induction entries generalizing d with
  | nil => exact h.resolve_left List.not_mem_nil
  | cons entry rest ih =>
    refine ih ?_
    rw [get?_set]
    by_cases hkey : entry.1 = key
    · exact Or.inr (by rw [if_pos hkey]; rfl)
    · rw [if_neg hkey]
      rcases h with hmem | hd
      · rw [List.map_cons, List.mem_cons] at hmem
        exact Or.inl (hmem.resolve_left (Ne.symm hkey))
      · exact Or.inr hd

/-- Combine every entry of a list, in order, with the value of its key, which is first
set to a default when the key is new. -/
def combineAll (default : β) (f : β → γ → β) (d : Dict α β) (entries : List (α × γ)) : Dict α β :=
  entries.foldl (fun d e => d.set e.1 (f ((d.get? e.1).getD default) e.2)) d

/-- Entries with distinct keys are each combined once. -/
theorem get?_combineAll {entries : List (α × γ)} (h : (entries.map Prod.fst).Nodup)
    (default : β) (f : β → γ → β) (d : Dict α β) (key : α) :
    (d.combineAll default f entries).get? key =
      match find entries key with
      | none => d.get? key
      | some value => some (f ((d.get? key).getD default) value) := by
  induction entries generalizing d with
  | nil => rfl
  | cons entry rest ih =>
    rcases entry with ⟨k, v⟩
    obtain ⟨hfresh, hrest⟩ := List.nodup_cons.mp h
    have htail := ih hrest (d.set k (f ((d.get? k).getD default) v))
    have hstep : d.combineAll default f ((k, v) :: rest) =
        (d.set k (f ((d.get? k).getD default) v)).combineAll default f rest := rfl
    rw [hstep, htail, find]
    by_cases hk : k = key
    · subst hk
      have hnone := (find_eq_none_iff rest k).mpr hfresh
      simp [hnone]
    · rw [if_neg hk, get?_set_of_ne d _ hk]

/-- Remove a key. -/
def erase (d : Dict α β) (key : α) : Dict α β :=
  ⟨d.entries.filter (fun e => decide (e.1 ≠ key)),
    d.nodup.sublist ((List.filter_sublist).map Prod.fst)⟩

/-- An erased key has no value, and the other keys keep theirs. -/
theorem get?_erase (d : Dict α β) (key key' : α) :
    (d.erase key).get? key' = if key = key' then none else d.get? key' := by
  have hmem : ∀ value, (d.erase key).get? key' = some value ↔
      key ≠ key' ∧ d.get? key' = some value := by
    intro value
    rw [get?_eq_some_iff, get?_eq_some_iff, erase, List.mem_filter, decide_eq_true_eq]
    exact ⟨fun h => ⟨Ne.symm h.2, h.1⟩, fun h => ⟨h.2, Ne.symm h.1⟩⟩
  ext value
  rw [hmem]
  by_cases hk : key = key' <;> simp [hk]

/-- The values in insertion order. -/
def values (d : Dict α β) : List β := d.entries.map Prod.snd

/-- A new key adds its value to the values. -/
theorem count_values_set [DecidableEq β] (d : Dict α β) {key : α} (h : d.get? key = none)
    (value value' : β) :
    (d.set key value).values.count value' =
      d.values.count value' + if value = value' then 1 else 0 := by
  have hset : (d.set key value).entries = d.entries ++ [(key, value)] :=
    assign_of_find_eq_none h value
  rw [values, hset, values, List.map_append, List.count_append]
  by_cases hvalue : value = value' <;> simp [hvalue]

/-- The value of a key that is removed is taken from the values once. -/
theorem count_values_erase [DecidableEq β] (d : Dict α β) {key : α} {value : β}
    (h : d.get? key = some value) (value' : β) :
    d.values.count value' =
      (d.erase key).values.count value' + if value = value' then 1 else 0 :=
  count_filter_of_find d.nodup h value'

/-- The entries whose keys are in a set. -/
def restrict (d : Dict α β) (keys : Finset α) : Dict α β :=
  ⟨d.entries.filter (fun e => decide (e.1 ∈ keys)),
    d.nodup.sublist ((List.filter_sublist).map Prod.fst)⟩

/-- A restricted dictionary has the values of the keys that were kept. -/
theorem get?_restrict (d : Dict α β) (keys : Finset α) (key : α) :
    (d.restrict keys).get? key = if key ∈ keys then d.get? key else none := by
  obtain ⟨entries, _⟩ := d
  simp only [get?, restrict]
  induction entries with
  | nil => simp [find]
  | cons entry rest ih =>
    rcases entry with ⟨k, v⟩
    have htail := ih (List.nodup_cons.mp ‹_›).2
    by_cases hk : k = key
    · subst hk
      by_cases hmem : k ∈ keys
      · simp [find, hmem]
      · simp only [hmem, if_false] at htail
        simp [hmem, htail]
    · by_cases hmem : k ∈ keys
      · simp [find, hk, hmem, htail]
      · simp [find, hk, hmem, htail]

end Dict

end OpenDiamond.Lib.OrderedDict
