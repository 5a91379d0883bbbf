import Mathlib.Order.FixedPoints
import Mathlib.Data.Nat.Find
import Mathlib.Data.Set.Lattice
import Mathlib.Order.CompletePartialOrder

/-!
# Derivations over a graph of needs and offers

Each node has a finite list of needs, or no way to be had at all; each need is
met by any node that offers it. A node can be had when all its needs are met by
nodes that can be had: the least such set. A search that never returns to a
node on its own path loses nothing, since a derivation of least height does
not use the node it derives.
-/

namespace OpenDiamond.Lib.Derivations

variable {α ι : Type*}

/-- Nodes with their needs, and who offers what. -/
structure Graph (α ι : Type*) where
  /-- The needs of a node; none when it cannot be had. -/
  needs : α → Option (List ι)
  /-- The node meets the need. -/
  offers : ι → α → Prop

namespace Graph

variable (g : Graph α ι)

/-- All needs of the node are met inside the set. -/
def MetBy (known : Set α) (a : α) : Prop :=
  ∃ needs, g.needs a = some needs ∧ ∀ n ∈ needs, ∃ b ∈ known, g.offers n b

variable {g} in
theorem MetBy.mono {known known' : Set α} (h : known ⊆ known') {a : α} (ha : g.MetBy known a) :
    g.MetBy known' a := by
  obtain ⟨needs, hneeds, hmet⟩ := ha
  refine ⟨needs, hneeds, fun n hn => ?_⟩
  obtain ⟨b, hb, hoffer⟩ := hmet n hn
  exact ⟨b, h hb, hoffer⟩

/-- One round: the nodes whose needs are met. -/
def round : Set α →o Set α := ⟨fun known => {a | g.MetBy known a}, fun _ _ h _ ha => ha.mono h⟩

/-- The nodes that can be had: the least set closed under a round. -/
def derivable : Set α := g.round.lfp

variable {g}

theorem derivable_of_metBy {a : α} (h : g.MetBy g.derivable a) : a ∈ g.derivable :=
  g.round.map_le_lfp le_rfl h

/-- A set that is closed under a round holds every derivable node. -/
theorem derivable_subset {known : Set α} (h : ∀ a, g.MetBy known a → a ∈ known) :
    g.derivable ⊆ known :=
  g.round.lfp_le h

/-- Each node of the set has its needs met inside the set. -/
def Supported (g : Graph α ι) (known : Set α) : Prop := ∀ a ∈ known, g.MetBy known a

theorem Supported.union {known known' : Set α} (h : g.Supported known)
    (h' : g.Supported known') : g.Supported (known ∪ known') := by
  intro a ha
  rcases ha with ha | ha
  · exact (h a ha).mono Set.subset_union_left
  · exact (h' a ha).mono Set.subset_union_right

/-- A node whose needs are met inside a supported set can be added to it. -/
theorem Supported.insert {known : Set α} (h : g.Supported known) {a : α}
    (ha : g.MetBy known a) : g.Supported (insert a known) := by
  intro b hb
  rcases Set.mem_insert_iff.mp hb with rfl | hb
  · exact ha.mono (Set.subset_insert b known)
  · exact (h b hb).mono (Set.subset_insert a known)

/-- The nodes with a derivation of at most the given height that uses no node
of a set. -/
def within (g : Graph α ι) (avoid : Set α) : ℕ → Set α
  | 0 => ∅
  | n + 1 => {a | a ∉ avoid ∧ g.MetBy (within g avoid n) a}

theorem within_subset_succ (avoid : Set α) (n : ℕ) : g.within avoid n ⊆ g.within avoid (n + 1) := by
  induction n with
  | zero => exact Set.empty_subset _
  | succ n ih => exact fun a ha => ⟨ha.1, ha.2.mono ih⟩

theorem within_mono (avoid : Set α) : Monotone (g.within avoid) :=
  monotone_nat_of_le_succ (within_subset_succ avoid)

/-- Needs that are all met at some height are met at one height. -/
theorem exists_height {avoid : Set α} (needs : List ι)
    (h : ∀ need ∈ needs, ∃ b ∈ ⋃ n, g.within avoid n, g.offers need b) :
    ∃ n, ∀ need ∈ needs, ∃ b ∈ g.within avoid n, g.offers need b := by
  induction needs with
  | nil => exact ⟨0, fun need hneed => by simp at hneed⟩
  | cons first rest ih =>
    obtain ⟨n, hrest⟩ := ih fun need hneed => h need (List.mem_cons_of_mem first hneed)
    obtain ⟨b, hb, hoffer⟩ := h first List.mem_cons_self
    obtain ⟨k, hk⟩ := Set.mem_iUnion.mp hb
    refine ⟨max n k, fun need hneed => ?_⟩
    rcases List.mem_cons.mp hneed with rfl | hneed
    · exact ⟨b, within_mono avoid (le_max_right n k) hk, hoffer⟩
    · obtain ⟨c, hc, hoffer'⟩ := hrest need hneed
      exact ⟨c, within_mono avoid (le_max_left n k) hc, hoffer'⟩

/-- Every derivable node has a derivation of some height. -/
theorem exists_within_of_derivable {a : α} (h : a ∈ g.derivable) : ∃ n, a ∈ g.within ∅ n := by
  have hclosed : g.derivable ⊆ ⋃ n, g.within ∅ n := by
    refine derivable_subset fun b hb => ?_
    obtain ⟨needs, hneeds, hmet⟩ := hb
    obtain ⟨n, hn⟩ := exists_height needs hmet
    exact Set.mem_iUnion.mpr ⟨n + 1, Set.notMem_empty b, needs, hneeds, hn⟩
  exact Set.mem_iUnion.mp (hclosed h)

/-- Below the least height of a node, no derivation uses the node. -/
theorem within_insert {avoid : Set α} {a : α} {n : ℕ} (ha : a ∉ g.within avoid n) :
    g.within avoid n ⊆ g.within (insert a avoid) n := by
  induction n with
  | zero => exact Set.empty_subset _
  | succ n ih =>
    intro b hb
    have hne : b ≠ a := fun heq => ha (heq ▸ hb)
    have hbelow : a ∉ g.within avoid n := fun h => ha (within_subset_succ avoid n h)
    exact ⟨by simp [hne, hb.1], hb.2.mono (ih hbelow)⟩

/-- Cutting cycles loses no derivation: a node with a derivation that avoids a
set has its needs met by nodes with derivations that avoid the node too. -/
theorem metBy_within_insert {avoid : Set α} {a : α} (h : ∃ n, a ∈ g.within avoid n) :
    a ∉ avoid ∧ ∃ n, g.MetBy (g.within (insert a avoid) n) a := by
  classical
  have hleast := Nat.find_spec h
  have hbelow := fun k (hk : k < Nat.find h) => Nat.find_min h hk
  cases hn : Nat.find h with
  | zero =>
    rw [hn] at hleast
    exact absurd hleast (Set.notMem_empty a)
  | succ n =>
    rw [hn] at hleast
    exact ⟨hleast.1, n, hleast.2.mono (within_insert (hbelow n (by omega)))⟩

end Graph

end OpenDiamond.Lib.Derivations
