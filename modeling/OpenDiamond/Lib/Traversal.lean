import Mathlib.Data.List.Forall2

/-!
# Fallible traversals of lists

A function that may fail, applied to the members of a list in order. The traversal gives
one value per member, or stops at the first failure.
-/

namespace OpenDiamond.Lib.Traversal

universe u v

variable {α β : Type u} {ε : Type v}

/-- Every value of a pairing has a partner. -/
theorem exists_of_mem_forall₂ {r : α → β → Prop} {list : List α} {values : List β}
    (h : List.Forall₂ r list values) {b : β} (hb : b ∈ values) : ∃ a ∈ list, r a b := by
  induction h with
  | nil => cases hb
  | cons hfirst _ ih =>
    rcases List.mem_cons.mp hb with rfl | hb
    · exact ⟨_, List.mem_cons_self, hfirst⟩
    · obtain ⟨a, ha, hab⟩ := ih hb
      exact ⟨a, List.mem_cons_of_mem _ ha, hab⟩

/-- A partial function has no value on a list, or a first one. -/
theorem all_none_or_first {γ : Type*} (f : α → Option γ) (list : List α) :
    (∀ a ∈ list, f a = none) ∨ ∃ before a after b, list = before ++ a :: after ∧
      (∀ other ∈ before, f other = none) ∧ f a = some b := by
  induction list with
  | nil => exact Or.inl fun a ha => absurd ha List.not_mem_nil
  | cons a rest ih =>
    cases hfirst : f a with
    | some b => exact Or.inr ⟨[], a, rest, b, rfl, fun _ h => absurd h List.not_mem_nil, hfirst⟩
    | none =>
      rcases ih with hnone | ⟨before, a', after, b, rfl, hbefore, hsome⟩
      · exact Or.inl (List.forall_mem_cons.mpr ⟨hfirst, hnone⟩)
      · exact Or.inr ⟨a :: before, a', after, b, rfl,
          List.forall_mem_cons.mpr ⟨hfirst, hbefore⟩, hsome⟩

/-- Every member has its value beside it, whatever the members are listed by. -/
theorem exists_mem_zip_of_forall₂ {γ : Type*} {r : α → β → Prop} {list : List α} {values : List β}
    (h : List.Forall₂ r list values) (f : α → γ) {a : α} (ha : a ∈ list) :
    ∃ b, r a b ∧ (f a, b) ∈ (list.map f).zip values := by
  induction h with
  | nil => cases ha
  | cons hfirst _ ih =>
    rcases List.mem_cons.mp ha with rfl | ha
    · exact ⟨_, hfirst, List.mem_cons_self⟩
    · obtain ⟨b, hb, hmem⟩ := ih ha
      exact ⟨b, hb, List.mem_cons_of_mem _ hmem⟩

/-! ## Failures without a reason -/

section Optional

variable {f : α → Option β} {list : List α} {values : List β}

/-- A traversal succeeds exactly when it succeeds on every member. -/
theorem isSome_mapM_iff : (list.mapM f).isSome ↔ ∀ a ∈ list, (f a).isSome := by
  induction list with
  | nil => simp
  | cons a rest ih =>
    rw [List.mapM_cons, List.forall_mem_cons, ← ih]
    cases f a <;> cases rest.mapM f <;> simp

/-- A successful traversal pairs the members with their values. -/
theorem forall₂_of_mapM_some (h : list.mapM f = some values) :
    List.Forall₂ (fun a b => f a = some b) list values := by
  induction list generalizing values with
  | nil =>
    cases h
    exact .nil
  | cons a rest ih =>
    rw [List.mapM_cons] at h
    obtain ⟨first, hfirst, h⟩ := Option.bind_eq_some_iff.mp h
    obtain ⟨others, hothers, h⟩ := Option.bind_eq_some_iff.mp h
    cases h
    exact .cons hfirst (ih hothers)

end Optional

/-! ## Failures with an exception -/

section Raising

theorem bind_eq_ok {first : Except ε α} {next : α → Except ε β} {b : β}
    (h : first >>= next = .ok b) : ∃ a, first = .ok a ∧ next a = .ok b := by
  cases first with
  | error raised => cases h
  | ok a => exact ⟨a, rfl, h⟩

theorem bind_eq_error {first : Except ε α} {next : α → Except ε β} {raised : ε}
    (h : first >>= next = .error raised) :
    first = .error raised ∨ ∃ a, first = .ok a ∧ next a = .error raised := by
  cases first with
  | error other =>
    cases h
    exact Or.inl rfl
  | ok a => exact Or.inr ⟨a, rfl, h⟩

variable {f : α → Except ε β} {list : List α}

/-- A traversal that returns pairs the members with their values. -/
theorem forall₂_of_mapM_ok {values : List β} (h : list.mapM f = .ok values) :
    List.Forall₂ (fun a b => f a = .ok b) list values := by
  induction list generalizing values with
  | nil =>
    cases h
    exact .nil
  | cons a rest ih =>
    rw [List.mapM_cons] at h
    obtain ⟨first, hfirst, h⟩ := bind_eq_ok h
    obtain ⟨others, hothers, h⟩ := bind_eq_ok h
    cases h
    exact .cons hfirst (ih hothers)

/-- A traversal raises what it raised on one of the members. -/
theorem exists_of_mapM_error {raised : ε} (h : list.mapM f = .error raised) :
    ∃ a ∈ list, f a = .error raised := by
  induction list with
  | nil => cases h
  | cons a rest ih =>
    rw [List.mapM_cons] at h
    rcases bind_eq_error h with h | ⟨first, _, h⟩
    · exact ⟨a, List.mem_cons_self, h⟩
    rcases bind_eq_error h with h | ⟨others, _, h⟩
    · obtain ⟨b, hb, hraised⟩ := ih h
      exact ⟨b, List.mem_cons_of_mem _ hb, hraised⟩
    · cases h

end Raising

/-! ## Tables whose entries stay -/

/-- When a step fills an entry that is missing and leaves the others, every entry is what the
first step with a value for it made. -/
theorem foldl_firstCome {σ κ : Type*} {step : σ → α → σ} {look : σ → κ → Option β}
    {made : α → κ → Option β}
    (hstep : ∀ state a key, look (step state a) key = (look state key).or (made a key))
    (steps : List α) (state : σ) (key : κ) :
    look (steps.foldl step state) key =
      (look state key).or (steps.findSome? fun a => made a key) := by
  induction steps generalizing state with
  | nil => rw [List.foldl_nil, List.findSome?_nil, Option.or_none]
  | cons a rest ih =>
    rw [List.foldl_cons, ih, hstep, Option.or_assoc, List.findSome?_cons]
    cases made a key <;> rfl

end OpenDiamond.Lib.Traversal
