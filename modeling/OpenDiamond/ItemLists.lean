import Mathlib.Data.List.Induction
import Mathlib.Data.List.Nodup
import Mathlib.Data.List.TakeWhile
import OpenDiamond.Lib.Latest

/-!
# The item lists of a proxy filter

An item list keeps names and feature vectors in two lists of their own and replaces the vector of a
name at the place the name has among the names. Vectors without a name shift the vectors of later
names, so that a replacement hits the vector of another item.
-/

namespace OpenDiamond.ItemLists

open Lib.Latest

variable {N F : Type*} [DecidableEq N]

/-! ## The program -/

/-- `Item`. -/
structure Item (N F : Type*) where
  /-- `label`. -/
  label : ℤ
  /-- `name`. -/
  name : Option N
  /-- `feature`. -/
  feature : F

/-- `ItemList`. -/
structure ItemList (N F : Type*) where
  /-- `_names`. -/
  names : List N
  /-- `_features`. -/
  features : List F
  /-- Every name has an index among the features. -/
  names_le : names.length ≤ features.length

/-- `ItemList.__init__`. -/
def ItemList.new : ItemList N F := ⟨[], [], le_rfl⟩

/-- `ItemList.add`. -/
def ItemList.add (list : ItemList N F) (item : Item N F) : ItemList N F :=
  match item.name with
  | none =>
    ⟨list.names, list.features ++ [item.feature], by
      rw [List.length_append]
      exact list.names_le.trans (Nat.le_add_right _ _)⟩
  | some name =>
    if name ∈ list.names then
      ⟨list.names, list.features.set (list.names.idxOf name) item.feature, by
        rw [List.length_set]
        exact list.names_le⟩
    else
      ⟨list.names ++ [name], list.features ++ [item.feature], by
        rw [List.length_append, List.length_append]
        exact Nat.add_le_add_right list.names_le _⟩

/-- `ItemList.size`. -/
def ItemList.size (list : ItemList N F) : ℕ := list.features.length

/-- The list after some items. -/
def addAll (items : List (Item N F)) : ItemList N F := items.foldl ItemList.add .new

/-! ## One item -/

section Add

variable {list : ItemList N F} {item : Item N F} {n : N}

/-- An item without a name is added at the end, and gets no place among the names. -/
theorem add_unnamed (h : item.name = none) :
    (list.add item).names = list.names ∧
      (list.add item).features = list.features ++ [item.feature] := by
  unfold ItemList.add
  rw [h]
  exact ⟨rfl, rfl⟩

/-- An item with a name that is there overwrites the vector at the place of the name, which may be
another item's if items without a name came before. -/
theorem add_known (h : item.name = some n) (hn : n ∈ list.names) :
    (list.add item).names = list.names ∧
      (list.add item).features = list.features.set (list.names.idxOf n) item.feature := by
  unfold ItemList.add
  rw [h]
  simp only [if_pos hn, and_self]

/-- An item with a new name is added at the end of both lists. -/
theorem add_new (h : item.name = some n) (hn : n ∉ list.names) :
    (list.add item).names = list.names ++ [n] ∧
      (list.add item).features = list.features ++ [item.feature] := by
  unfold ItemList.add
  rw [h]
  simp only [if_neg hn, and_self]

/-- Adding items in a row is adding the last one to what the others leave. -/
theorem addAll_append_singleton (items : List (Item N F)) (item : Item N F) :
    addAll (items ++ [item]) = (addAll items).add item := List.foldl_concat _ _ _ _

end Add

/-! ## Names -/

/-- The names are those of the items, each once. -/
theorem names_spec (items : List (Item N F)) :
    (addAll items).names.Nodup ∧ ∀ n, n ∈ (addAll items).names ↔ some n ∈ items.map Item.name := by
  induction items using List.reverseRecOn with
  | nil => exact ⟨.nil, fun n => iff_of_false List.not_mem_nil List.not_mem_nil⟩
  | append_singleton items item ih =>
    obtain ⟨hnodup, hmem⟩ := ih
    rw [addAll_append_singleton]
    simp only [List.map_append, List.map_singleton, List.mem_append, List.mem_singleton]
    cases hname : item.name with
    | none =>
      rw [(add_unnamed hname).1]
      exact ⟨hnodup, fun n => by rw [hmem, or_iff_left (Option.some_ne_none n)]⟩
    | some m =>
      by_cases hm : m ∈ (addAll items).names
      · rw [(add_known hname hm).1]
        refine ⟨hnodup, fun n => ?_⟩
        rw [hmem, or_iff_left_of_imp]
        intro h
        cases h
        exact (hmem m).mp hm
      · rw [(add_new hname hm).1]
        refine ⟨List.nodup_append.mpr ⟨hnodup, List.nodup_singleton m, ?_⟩, fun n => ?_⟩
        · rintro n hn k hk rfl
          exact hm (List.mem_singleton.mp hk ▸ hn)
        · rw [List.mem_append, List.mem_singleton, hmem, Option.some_inj]

/-- Only items without a name have a feature more than the names. -/
theorem length_features (items : List (Item N F)) :
    (addAll items).features.length =
      (addAll items).names.length + (items.map Item.name).count none := by
  induction items using List.reverseRecOn with
  | nil => rfl
  | append_singleton items item ih =>
    rw [addAll_append_singleton, List.map_append, List.count_append, List.map_singleton]
    cases hname : item.name with
    | none =>
      rw [(add_unnamed hname).1, (add_unnamed hname).2, List.length_append, ih]
      exact Nat.add_assoc _ _ _
    | some m =>
      rw [List.count_singleton, if_neg (by simp)]
      by_cases hm : m ∈ (addAll items).names
      · rw [(add_known hname hm).1, (add_known hname hm).2, List.length_set, ih]
        rfl
      · rw [(add_new hname hm).1, (add_new hname hm).2, List.length_append, List.length_append, ih]
        exact Nat.add_right_comm _ _ _

/-- An item with another representation of its feature. -/
def Item.map {G : Type*} (g : F → G) (item : Item N F) : Item N G :=
  ⟨item.label, item.name, g item.feature⟩

/-- The features are only stored. -/
theorem addAll_map {G : Type*} (g : F → G) (items : List (Item N F)) :
    (addAll (items.map (Item.map g))).names = (addAll items).names ∧
      (addAll (items.map (Item.map g))).features = (addAll items).features.map g := by
  induction items using List.reverseRecOn with
  | nil => exact ⟨rfl, rfl⟩
  | append_singleton items item ih =>
    obtain ⟨hnames, hfeatures⟩ := ih
    rw [List.map_append, List.map_singleton, addAll_append_singleton, addAll_append_singleton]
    cases hname : item.name with
    | none =>
      have hname' : (item.map g).name = none := hname
      rw [(add_unnamed hname).1, (add_unnamed hname).2, (add_unnamed hname').1,
        (add_unnamed hname').2, hnames, hfeatures, List.map_append]
      exact ⟨rfl, rfl⟩
    | some m =>
      have hname' : (item.map g).name = some m := hname
      by_cases hm : m ∈ (addAll items).names
      · have hm' := hnames.symm ▸ hm
        rw [(add_known hname hm).1, (add_known hname hm).2, (add_known hname' hm').1,
          (add_known hname' hm').2, hnames, hfeatures, List.map_set]
        exact ⟨rfl, rfl⟩
      · have hm' := hnames.symm ▸ hm
        rw [(add_new hname hm).1, (add_new hname hm).2, (add_new hname' hm').1,
          (add_new hname' hm').2, hnames, hfeatures, List.map_append]
        exact ⟨rfl, rfl⟩

/-! ## Items without a name in front -/

/-- No item without a name comes before the first with this one. -/
def Leading (items : List (Item N F)) (n : N) : Prop :=
  none ∉ (items.map Item.name).takeWhile fun name => decide (name ≠ some n)

/-- Only names in front of all items without one are given again. -/
def Orderly (items : List (Item N F)) : Prop :=
  ∀ n, 2 ≤ (items.map Item.name).count (some n) → Leading items n

/-- Items that all have a name may be given again in any order. -/
theorem orderly_of_named {items : List (Item N F)} (h : none ∉ items.map Item.name) :
    Orderly items :=
  fun _ _ hmem => h ((List.takeWhile_sublist _).mem hmem)

/-- An item behind the first one with a name does not change whether that one is in front. -/
theorem leading_append_of_mem {items : List (Item N F)} {n : N}
    (h : some n ∈ items.map Item.name) (item : Item N F) :
    Leading (items ++ [item]) n ↔ Leading items n := by
  unfold Leading
  rw [List.map_append, List.takeWhile_append, if_neg]
  intro hall
  have hself := (List.takeWhile_prefix _).eq_of_length hall
  have hne := List.mem_takeWhile_imp (hself.symm ▸ h)
  simp at hne

/-- A new name at the end is in front only of lists in which every item has one. -/
theorem leading_append_of_new {items : List (Item N F)} {n : N}
    (h : some n ∉ items.map Item.name) {item : Item N F} (hname : item.name = some n) :
    Leading (items ++ [item]) n ↔ none ∉ items.map Item.name := by
  unfold Leading
  rw [List.map_append, List.takeWhile_append_of_pos, List.map_singleton, List.takeWhile_cons_of_neg,
    List.append_nil]
  · simp [hname]
  · intro name hmem
    exact decide_eq_true fun heq => h (heq ▸ hmem)

/-- What is orderly was so before its last item. -/
theorem Orderly.of_append {items : List (Item N F)} {item : Item N F}
    (h : Orderly (items ++ [item])) : Orderly items := by
  intro n hn
  have hmem : some n ∈ items.map Item.name :=
    List.count_pos_iff.mp (Nat.lt_of_lt_of_le Nat.zero_lt_two hn)
  refine (leading_append_of_mem hmem item).mp (h n (hn.trans ?_))
  rw [List.map_append, List.count_append]
  exact Nat.le_add_right _ _

/-- A name that is given again is in front. -/
theorem Orderly.leading {items : List (Item N F)} {item : Item N F} {n : N}
    (h : Orderly (items ++ [item])) (hname : item.name = some n)
    (hmem : some n ∈ items.map Item.name) : Leading items n := by
  refine (leading_append_of_mem hmem item).mp (h n ?_)
  have hseen := List.count_pos_iff.mpr hmem
  rw [List.map_append, List.count_append, List.map_singleton, hname, List.count_singleton_self]
  exact Nat.succ_le_succ hseen

/-- An item keeps a list orderly unless it gives a name again that is not in front. -/
theorem orderly_append_iff {items : List (Item N F)} {item : Item N F} :
    Orderly (items ++ [item]) ↔ Orderly items ∧
      ∀ n, item.name = some n → some n ∈ items.map Item.name → Leading items n := by
  refine ⟨fun h => ⟨h.of_append, fun n hname hmem => h.leading hname hmem⟩, ?_⟩
  rintro ⟨hitems, hitem⟩ n hn
  rw [List.map_append, List.count_append, List.map_singleton, List.count_singleton] at hn
  have hmem : some n ∈ items.map Item.name := by
    refine List.count_pos_iff.mp ?_
    split at hn <;> omega
  refine (leading_append_of_mem hmem item).mpr ?_
  split at hn
  · rename_i heq
    exact hitem n (beq_iff_eq.mp heq) hmem
  · exact hitems n hn

/-! ## Features -/

/-- What stands at a place stays there when the list gets longer. -/
theorem getElem?_append_of_eq_some {α : Type*} {list : List α} {i : ℕ} {a : α}
    (h : list[i]? = some a) (more : List α) : (list ++ more)[i]? = some a := by
  rw [List.getElem?_append_left (List.getElem?_eq_some_iff.mp h).1, h]

/-- The name of an item in force is one of the names that were given. -/
theorem mem_names_of_current {items : List (Item N F)} {item : Item N F} {n : N}
    (h : item ∈ current Item.name items) (hname : item.name = some n) :
    some n ∈ items.map Item.name :=
  List.mem_map.mpr ⟨item, (current_sublist items).mem h, hname⟩

/-- A name in front has its current feature at its own index. -/
theorem get?_of_leading {items : List (Item N F)} {item : Item N F} {n : N}
    (hitem : item ∈ current Item.name items) (hname : item.name = some n)
    (hleading : Leading items n) :
    (addAll items).features[(addAll items).names.idxOf n]? = some item.feature := by
  induction items using List.reverseRecOn generalizing item with
  | nil => exact absurd hitem List.not_mem_nil
  | append_singleton items e ih =>
    obtain ⟨hnodup, hnames⟩ := names_spec items
    have hle := (addAll items).names_le
    -- the vector of an item given before `e` stays where it was found
    have hold : item ∈ current Item.name items → n ∈ (addAll items).names ∧
        (addAll items).features[(addAll items).names.idxOf n]? = some item.feature := fun h =>
      ⟨(hnames n).mpr (mem_names_of_current h hname),
        ih h hname ((leading_append_of_mem (mem_names_of_current h hname) e).mp hleading)⟩
    rw [current_append_singleton, List.mem_append, List.mem_filter, List.mem_singleton,
      decide_eq_true_eq] at hitem
    rw [addAll_append_singleton]
    cases he : e.name with
    | none =>
      rcases hitem with ⟨hcurrent, -⟩ | rfl
      · obtain ⟨-, hget⟩ := hold hcurrent
        rw [(add_unnamed he).1, (add_unnamed he).2]
        exact getElem?_append_of_eq_some hget _
      · cases hname.symm.trans he
    | some m =>
      by_cases hm : m ∈ (addAll items).names
      · rw [(add_known he hm).1, (add_known he hm).2]
        rcases hitem with ⟨hcurrent, hkept⟩ | rfl
        · obtain ⟨hn, hget⟩ := hold hcurrent
          have hne : m ≠ n := by
            rintro rfl
            exact hkept.elim (fun h => nomatch hname.symm.trans h)
              fun h => h (hname.trans he.symm)
          rw [List.getElem?_set_ne fun h => hne ((List.idxOf_inj hm).mp h), hget]
        · cases hname.symm.trans he
          exact List.getElem?_set_self ((List.idxOf_lt_length_of_mem hm).trans_le hle)
      · rw [(add_new he hm).1, (add_new he hm).2]
        rcases hitem with ⟨hcurrent, -⟩ | rfl
        · obtain ⟨hn, hget⟩ := hold hcurrent
          rw [List.idxOf_append_of_mem hn]
          exact getElem?_append_of_eq_some hget _
        · cases hname.symm.trans he
          have hnone := (leading_append_of_new (fun h => hm ((hnames n).mpr h)) hname).mp hleading
          have hlength := length_features items
          rw [List.count_eq_zero.mpr hnone, Nat.add_zero] at hlength
          rw [List.idxOf_append_of_notMem hm, List.idxOf_cons_self, Nat.add_zero, ← hlength,
            List.getElem?_concat_length]

/-- In an orderly list the features are those in force. -/
theorem features_perm {items : List (Item N F)} (h : Orderly items) :
    (addAll items).features.Perm ((current Item.name items).map Item.feature) := by
  induction items using List.reverseRecOn with
  | nil => exact .refl _
  | append_singleton items e ih =>
    have hperm := ih h.of_append
    obtain ⟨hnodup, hnames⟩ := names_spec items
    rw [addAll_append_singleton, current_append_singleton, List.map_append, List.map_singleton]
    have happend : (∀ x ∈ items, Unaffected Item.name e x) →
        ((addAll items).features ++ [e.feature]).Perm
          (((current Item.name items).filter
            (fun x => decide (Unaffected Item.name e x))).map Item.feature ++ [e.feature]) := by
      intro hall
      rw [List.filter_eq_self.mpr fun x hx =>
        decide_eq_true (hall x ((current_sublist items).mem hx))]
      exact hperm.append_right _
    cases he : e.name with
    | none =>
      rw [(add_unnamed he).2]
      refine happend fun x _ => ?_
      by_cases hx : x.name = none
      · exact .inl hx
      · exact .inr fun heq => hx (heq.trans he)
    | some m =>
      by_cases hm : m ∈ (addAll items).names
      · obtain ⟨x, hx, hxname⟩ := exists_current ((hnames m).mp hm)
        have hget := get?_of_leading hx hxname (h.leading he ((hnames m).mp hm))
        obtain ⟨hlt, hfeature⟩ := List.getElem?_eq_some_iff.mp hget
        have hothers := hperm.trans ((current_perm_cons hx (hxname.trans he.symm)
          (by rw [he]; exact Option.some_ne_none m)).map Item.feature)
        rw [List.map_cons] at hothers
        have hslot := List.getElem_cons_eraseIdx_perm hlt
        rw [hfeature] at hslot
        rw [(add_known he hm).2]
        exact ((List.set_perm_cons_eraseIdx hlt e.feature).trans
          ((hslot.trans hothers).cons_inv.cons e.feature)).trans (List.perm_append_singleton _ _).symm
      · rw [(add_new he hm).2]
        refine happend fun x hx => .inr fun heq => hm ((hnames m).mpr ?_)
        exact List.mem_map.mpr ⟨x, hx, heq.trans he⟩

/-- A name that is not in front has its current feature behind its index. -/
theorem exists_get?_of_not_leading {items : List (Item N F)}
    (hnodup : (items.map Item.feature).Nodup) (h : Orderly items) {item : Item N F} {n : N}
    (hitem : item ∈ current Item.name items) (hname : item.name = some n)
    (hleading : ¬Leading items n) :
    ∃ s, (addAll items).names.idxOf n < s ∧ (addAll items).features[s]? = some item.feature := by
  induction items using List.reverseRecOn generalizing item with
  | nil => exact absurd hitem List.not_mem_nil
  | append_singleton items e ih =>
    rw [List.map_append] at hnodup
    have hitems := (List.nodup_append.mp hnodup).1
    obtain ⟨-, hnames⟩ := names_spec items
    have hold : item ∈ current Item.name items → n ∈ (addAll items).names ∧
        ∃ s, (addAll items).names.idxOf n < s ∧
          (addAll items).features[s]? = some item.feature := fun hcurrent =>
      ⟨(hnames n).mpr (mem_names_of_current hcurrent hname),
        ih hitems h.of_append hcurrent hname fun hfront => hleading
          ((leading_append_of_mem (mem_names_of_current hcurrent hname) e).mpr hfront)⟩
    rw [current_append_singleton, List.mem_append, List.mem_filter, List.mem_singleton] at hitem
    rw [addAll_append_singleton]
    cases he : e.name with
    | none =>
      rcases hitem with ⟨hcurrent, -⟩ | rfl
      · obtain ⟨-, s, hs, hget⟩ := hold hcurrent
        rw [(add_unnamed he).1, (add_unnamed he).2]
        exact ⟨s, hs, getElem?_append_of_eq_some hget _⟩
      · cases hname.symm.trans he
    | some m =>
      by_cases hm : m ∈ (addAll items).names
      · rw [(add_known he hm).1, (add_known he hm).2]
        have hfront := h.leading he ((hnames m).mp hm)
        rcases hitem with ⟨hcurrent, hkept⟩ | rfl
        · obtain ⟨-, s, hs, hget⟩ := hold hcurrent
          refine ⟨s, hs, ?_⟩
          rw [List.getElem?_set_ne, hget]
          -- the index of `m` holds the vector of `m`, not that of `n`
          rintro rfl
          obtain ⟨x, hx, hxname⟩ := exists_current ((hnames m).mp hm)
          have hsame := Option.some_inj.mp ((get?_of_leading hx hxname hfront).symm.trans hget)
          have heq := List.inj_on_of_nodup_map hitems ((current_sublist items).mem hx)
            ((current_sublist items).mem hcurrent) hsame
          exact (of_decide_eq_true hkept).elim (fun hnone => nomatch hname.symm.trans hnone)
            fun hne => hne ((heq ▸ hxname).trans he.symm)
        · cases hname.symm.trans he
          exact absurd ((leading_append_of_mem ((hnames n).mp hm) _).mpr hfront) hleading
      · rw [(add_new he hm).1, (add_new he hm).2]
        rcases hitem with ⟨hcurrent, -⟩ | rfl
        · obtain ⟨hn, s, hs, hget⟩ := hold hcurrent
          rw [List.idxOf_append_of_mem hn]
          exact ⟨s, hs, getElem?_append_of_eq_some hget _⟩
        · cases hname.symm.trans he
          rw [leading_append_of_new (fun hmem => hm ((hnames n).mpr hmem)) hname, not_not] at hleading
          have hlength := length_features items
          have hpos := List.count_pos_iff.mpr hleading
          refine ⟨(addAll items).features.length, ?_, List.getElem?_concat_length⟩
          rw [List.idxOf_append_of_notMem hm, List.idxOf_cons_self]
          omega

/-- Giving a name again that is not in front overwrites another item. -/
theorem not_perm_of_not_leading {items : List (Item N F)} {e : Item N F} {n : N}
    (hnodup : (items.map Item.feature).Nodup) (h : Orderly items) (hname : e.name = some n)
    (hmem : some n ∈ items.map Item.name) (hleading : ¬Leading items n) :
    ¬(addAll (items ++ [e])).features.Perm
      ((current Item.name (items ++ [e])).map Item.feature) := by
  intro hafter
  have hm := ((names_spec items).2 n).mpr hmem
  obtain ⟨x, hx, hxname⟩ := exists_current hmem
  obtain ⟨s, hs, hget⟩ := exists_get?_of_not_leading hnodup h hx hxname hleading
  have hlt : (addAll items).names.idxOf n < (addAll items).features.length :=
    (List.idxOf_lt_length_of_mem hm).trans_le (addAll items).names_le
  have hbefore := (features_perm h).trans ((current_perm_cons hx (hxname.trans hname.symm)
    (by rw [hname]; exact Option.some_ne_none n)).map Item.feature)
  rw [addAll_append_singleton, (add_known hname hm).2, current_append_singleton, List.map_append,
    List.map_singleton] at hafter
  have hrest := ((List.set_perm_cons_eraseIdx hlt e.feature).symm.trans
    (hafter.trans (List.perm_append_singleton _ _))).cons_inv
  have hslot := ((List.getElem_cons_eraseIdx_perm hlt).trans hbefore).trans
    (hrest.symm.cons x.feature)
  have hfeature : (addAll items).features[(addAll items).names.idxOf n] = x.feature :=
    List.singleton_perm_singleton.mp ((List.perm_append_right_iff _).mp hslot)
  have hfeatures : (addAll items).features.Nodup :=
    (features_perm h).nodup_iff.mpr (hnodup.sublist ((current_sublist items).map Item.feature))
  obtain ⟨hslt, hsfeature⟩ := List.getElem?_eq_some_iff.mp hget
  exact hs.ne ((List.Nodup.getElem_inj_iff hfeatures).mp (hfeature.trans hsfeature.symm))

end OpenDiamond.ItemLists
