import Mathlib.Data.List.Perm.Basic

/-!
# The entries in force

Entries with and without a key come one after another. An entry with a key is in force until the
next one with its key, an entry without a key for good.
-/

namespace OpenDiamond.Lib.Latest

variable {α κ : Type*} [DecidableEq κ] (key : α → Option κ)

/-- The entries in force. -/
def current : List α → List α
  | [] => []
  | x :: rest => if key x ≠ none ∧ key x ∈ rest.map key then current rest else x :: current rest

/-- An entry that a later one leaves in force. -/
def Unaffected (later x : α) : Prop := key x = none ∨ key x ≠ key later

instance (later x : α) : Decidable (Unaffected key later x) := inferInstanceAs (Decidable (_ ∨ _))

variable {key}

theorem current_cons_of_again {x : α} {rest : List α} (h : key x ≠ none ∧ key x ∈ rest.map key) :
    current key (x :: rest) = current key rest := if_pos h

theorem current_cons_of_last {x : α} {rest : List α} (h : ¬(key x ≠ none ∧ key x ∈ rest.map key)) :
    current key (x :: rest) = x :: current key rest := if_neg h

theorem current_sublist (entries : List α) : (current key entries).Sublist entries := by
  induction entries with
  | nil => exact .slnil
  | cons x rest ih =>
    unfold current
    split
    · exact ih.cons x
    · exact ih.cons_cons x

/-- A new entry ends the one with its key. -/
theorem current_append_singleton (entries : List α) (e : α) :
    current key (entries ++ [e]) =
      (current key entries).filter (fun x => decide (Unaffected key e x)) ++ [e] := by
  induction entries with
  | nil => exact current_cons_of_last fun h => List.not_mem_nil h.2
  | cons x rest ih =>
    have hlater : key x ∈ (rest ++ [e]).map key ↔ key x ∈ rest.map key ∨ key x = key e := by
      rw [List.map_append, List.mem_append, List.map_singleton, List.mem_singleton]
    rw [List.cons_append]
    by_cases hrest : key x ≠ none ∧ key x ∈ rest.map key
    · rw [current_cons_of_again hrest, current_cons_of_again ⟨hrest.1, hlater.mpr (.inl hrest.2)⟩, ih]
    · rw [current_cons_of_last hrest]
      by_cases he : key x ≠ none ∧ key x = key e
      · have hended : ¬Unaffected key e x := fun h => h.elim he.1 fun hne => hne he.2
        rw [current_cons_of_again ⟨he.1, hlater.mpr (.inr he.2)⟩, ih,
          List.filter_cons_of_neg (by simpa using hended)]
      · have hkept : Unaffected key e x := by
          by_cases hnone : key x = none
          · exact .inl hnone
          · exact .inr fun heq => he ⟨hnone, heq⟩
        rw [current_cons_of_last, ih, List.filter_cons_of_pos (by simpa using hkept),
          List.cons_append]
        rintro ⟨hkey, hmem⟩
        rcases hlater.mp hmem with hmem | hmem
        · exact hrest ⟨hkey, hmem⟩
        · exact he ⟨hkey, hmem⟩

/-- Entries under another representation. -/
theorem current_map {β : Type*} (f : β → α) (entries : List β) :
    current key (entries.map f) = (current (key ∘ f) entries).map f := by
  induction entries with
  | nil => rfl
  | cons x rest ih =>
    have hkeys : key (f x) ∈ (rest.map f).map key ↔ (key ∘ f) x ∈ rest.map (key ∘ f) := by
      rw [List.map_map]
      rfl
    rw [List.map_cons]
    by_cases hended : key (f x) ≠ none ∧ key (f x) ∈ (rest.map f).map key
    · have hended' : (key ∘ f) x ≠ none ∧ (key ∘ f) x ∈ rest.map (key ∘ f) :=
        ⟨hended.1, hkeys.mp hended.2⟩
      rw [current_cons_of_again hended, current_cons_of_again hended', ih]
    · have hlast : ¬((key ∘ f) x ≠ none ∧ (key ∘ f) x ∈ rest.map (key ∘ f)) := fun h =>
        hended ⟨h.1, hkeys.mpr h.2⟩
      rw [current_cons_of_last hended, current_cons_of_last hlast, ih, List.map_cons]

/-- At most one entry of a key is in force. -/
theorem pairwise_current (entries : List α) :
    (current key entries).Pairwise fun x y => key x ≠ none → key x ≠ key y := by
  induction entries with
  | nil => exact .nil
  | cons x rest ih =>
    unfold current
    split
    · exact ih
    · rename_i hlast
      refine .cons (fun y hy hkey heq => hlast ⟨hkey, heq ▸ ?_⟩) ih
      exact List.mem_map_of_mem ((current_sublist rest).mem hy)

/-- Every key has an entry in force. -/
theorem exists_current {entries : List α} {k : κ} (h : some k ∈ entries.map key) :
    ∃ x ∈ current key entries, key x = some k := by
  induction entries with
  | nil => exact absurd h List.not_mem_nil
  | cons x rest ih =>
    unfold current
    rcases List.mem_cons.mp h with hx | hrest
    · split
      · rename_i hagain
        exact ih (hx ▸ hagain.2)
      · exact ⟨x, List.mem_cons_self, hx.symm⟩
    · obtain ⟨y, hy, hkey⟩ := ih hrest
      split
      · exact ⟨y, hy, hkey⟩
      · exact ⟨y, List.mem_cons_of_mem _ hy, hkey⟩

/-- An entry in force and the others. -/
theorem current_perm_cons {entries : List α} {x e : α} (hx : x ∈ current key entries)
    (hkey : key x = key e) (hnone : key e ≠ none) :
    (current key entries).Perm
      (x :: (current key entries).filter fun y => decide (Unaffected key e y)) := by
  have hpairwise : (current key entries).Pairwise fun x y => key x ≠ none → key x ≠ key y :=
    pairwise_current entries
  generalize current key entries = entries at hx hpairwise ⊢
  have hended : ¬Unaffected key e x := fun h => h.elim (hkey ▸ hnone) fun hne => hne hkey
  induction entries with
  | nil => exact absurd hx List.not_mem_nil
  | cons y rest ih =>
    obtain ⟨hy, hrest⟩ := List.pairwise_cons.mp hpairwise
    rcases List.mem_cons.mp hx with rfl | hx
    · rw [List.filter_cons_of_neg (by simpa using hended)]
      refine .cons x (.of_eq (List.filter_eq_self.mpr fun z hz => ?_).symm)
      exact decide_eq_true (.inr fun heq => hy z hz (hkey ▸ hnone) (hkey.trans heq.symm))
    · have hkept : Unaffected key e y := by
        by_cases h : key y = none
        · exact .inl h
        · exact .inr fun heq => hy x hx h (heq.trans hkey.symm)
      rw [List.filter_cons_of_pos (by simpa using hkept)]
      exact ((ih hx hrest).cons y).trans (.swap x y _)

/-- Entries of one kind, when the entries of a key are of one kind. -/
theorem filter_current {entries : List α} {kind : α → Bool}
    (h : ∀ x ∈ entries, ∀ y ∈ entries, key x ≠ none → key x = key y → kind x = kind y) :
    (current key entries).filter kind = current key (entries.filter kind) := by
  induction entries with
  | nil => rfl
  | cons x rest ih =>
    have htail := ih fun y hy z hz =>
      h y (List.mem_cons_of_mem _ hy) z (List.mem_cons_of_mem _ hz)
    by_cases hkind : kind x = true
    · rw [List.filter_cons_of_pos hkind]
      have hagain : key x ≠ none ∧ key x ∈ rest.map key ↔
          key x ≠ none ∧ key x ∈ (rest.filter kind).map key := by
        refine and_congr_right fun hkey => ⟨fun hmem => ?_, fun hmem => ?_⟩
        · obtain ⟨y, hy, hyx⟩ := List.mem_map.mp hmem
          have hsame := h x List.mem_cons_self y (List.mem_cons_of_mem _ hy) hkey hyx.symm
          exact List.mem_map.mpr ⟨y, List.mem_filter.mpr ⟨hy, hsame ▸ hkind⟩, hyx⟩
        · exact (List.filter_sublist.map key).mem hmem
      by_cases hended : key x ≠ none ∧ key x ∈ rest.map key
      · rw [current_cons_of_again hended, current_cons_of_again (hagain.mp hended), htail]
      · rw [current_cons_of_last hended, current_cons_of_last fun hmem => hended (hagain.mpr hmem),
          List.filter_cons_of_pos hkind, htail]
    · rw [List.filter_cons_of_neg hkind]
      by_cases hended : key x ≠ none ∧ key x ∈ rest.map key
      · rw [current_cons_of_again hended, htail]
      · rw [current_cons_of_last hended, List.filter_cons_of_neg hkind, htail]

end OpenDiamond.Lib.Latest
