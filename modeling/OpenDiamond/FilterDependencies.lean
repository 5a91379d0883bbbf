import Mathlib.Data.Finset.Card
import Mathlib.Data.Finset.Range
import Mathlib.Logic.Relation
import OpenDiamond.FilterOrder

/-!
# Which filter stacks can be built

`FilterStack` rejects a dependency on a name that no filter has and a dependency cycle.
The depth-first search that sorts the filters succeeds exactly on the lists without either.
-/

namespace OpenDiamond.FilterDependencies

open Lib.OrderedDict FilterStackRunner FilterOrder

/-- A filter declares a dependency on another; a name stands for the last filter with it. -/
def Depends (filters : List Filter) (i j : ℕ) : Prop :=
  ∃ filter, filters[i]? = some filter ∧
    ∃ depname ∈ filter.dependencies, (filterNames filters).get? depname = some j

/-- Every dependency is the name of a filter, and no filter depends on itself. -/
structure Resolvable (filters : List Filter) : Prop where
  /-- Every declared name is the name of a filter. -/
  known : ∀ filter ∈ filters, ∀ depname ∈ filter.dependencies,
    ∃ other ∈ filters, other.config.name = depname
  /-- No chain of dependencies leads back to its start. -/
  acyclic : ∀ i, ¬Relation.TransGen (Depends filters) i i

variable {filters : List Filter}

/-- A key has its old value, or one that was assigned. -/
theorem get?_setAll_or (d : Dict String ℕ) (entries : List (String × ℕ)) (key : String) :
    (d.setAll entries).get? key = d.get? key ∧ key ∉ entries.map Prod.fst ∨
      ∃ value, (d.setAll entries).get? key = some value ∧ (key, value) ∈ entries := by
  induction entries generalizing d with
  | nil => simp
  | cons entry rest ih =>
    rw [Dict.setAll_cons]
    rcases ih (d.set entry.1 entry.2) with ⟨hget, hrest⟩ | ⟨value, hget, hmem⟩
    · by_cases hkey : entry.1 = key
      · right
        refine ⟨entry.2, ?_, ?_⟩
        · rw [hget, ← hkey, Dict.get?_set_self]
        · rw [← hkey]
          exact List.mem_cons_self
      · left
        rw [Dict.get?_set_of_ne _ _ hkey] at hget
        simp [hget, hrest, Ne.symm hkey]
    · exact Or.inr ⟨value, hget, List.mem_cons_of_mem _ hmem⟩

/-- A name is found exactly when some filter has it, and then it is the name of the filter
at the position found. -/
theorem get?_filterNames {depname : String} {j : ℕ}
    (h : (filterNames filters).get? depname = some j) :
    ∃ filter, filters[j]? = some filter ∧ filter.config.name = depname := by
  rcases get?_setAll_or Dict.empty
    (filters.zipIdx.map fun entry => (entry.1.config.name, entry.2)) depname with
    ⟨hget, _⟩ | ⟨value, hget, hmem⟩
  · rw [filterNames, hget] at h
    cases h
  · rw [filterNames, hget, Option.some.injEq] at h
    subst h
    obtain ⟨⟨filter, i⟩, hentry, heq⟩ := List.mem_map.mp hmem
    cases heq
    exact ⟨filter, List.mem_zipIdx_iff_getElem?.mp hentry, rfl⟩

/-- The name of a filter is looked up with success. -/
theorem exists_get?_filterNames {other : Filter} (h : other ∈ filters) :
    ∃ j, (filterNames filters).get? other.config.name = some j := by
  rcases get?_setAll_or Dict.empty
    (filters.zipIdx.map fun entry => (entry.1.config.name, entry.2)) other.config.name with
    ⟨_, hmem⟩ | ⟨value, hget, _⟩
  · obtain ⟨i, hi⟩ := List.mem_iff_getElem?.mp h
    have hentry : (other, i) ∈ filters.zipIdx := List.mem_zipIdx_iff_getElem?.mpr hi
    exact absurd (List.mem_map.mpr ⟨_, List.mem_map_of_mem hentry, rfl⟩) hmem
  · exact ⟨value, hget⟩

/-- Only filters of the list depend on others. -/
theorem Depends.lt_length_left {i j : ℕ} (h : Depends filters i j) : i < filters.length := by
  obtain ⟨_, hfilter, _⟩ := h
  exact (List.getElem?_eq_some_iff.mp hfilter).1

/-! ## What a successful search has placed -/

/-- Every filter comes after the filters it depends on. -/
def Placed (filters : List Filter) (order : List ℕ) : Prop :=
  ∀ before i after, order = before ++ i :: after →
    (∀ filter, filters[i]? = some filter → ∀ depname ∈ filter.dependencies,
      ∃ j ∈ before, (filterNames filters).get? depname = some j)

/-- The state of the search: the placed filters are in order. -/
structure Sorted (filters : List Filter) (sorting : Sorting) : Prop where
  /-- `resolved` is the set of the filters placed. -/
  resolved : ∀ i, i ∈ sorting.resolved ↔ i ∈ sorting.order
  /-- The order respects the dependencies. -/
  placed : Placed filters sorting.order

/-- A filter is placed well behind those that it depends on. -/
theorem Placed.snoc {order : List ℕ} (h : Placed filters order) {i : ℕ}
    (hi : ∀ filter, filters[i]? = some filter → ∀ depname ∈ filter.dependencies,
      ∃ j ∈ order, (filterNames filters).get? depname = some j) : Placed filters (order ++ [i]) := by
  intro before k after heq
  rcases List.eq_nil_or_concat after with rfl | ⟨after, last, rfl⟩
  · have hparts := List.append_inj' heq rfl
    rw [List.singleton_inj] at hparts
    rw [← hparts.1, ← hparts.2]
    exact hi
  · have hassoc : before ++ k :: (after ++ [last]) = before ++ k :: after ++ [last] := by simp
    rw [List.concat_eq_append, hassoc] at heq
    exact h before k after (List.append_inj' heq rfl).1

/-- What a successful step of the search guarantees. -/
structure Advanced (filters : List Filter) (before after : Sorting) : Prop where
  /-- The order is kept. -/
  sorted : Sorted filters after
  /-- Nothing that was placed is lost. -/
  subset : before.resolved ⊆ after.resolved

/-- Resolving all dependencies of a filter gets the sorting on, if resolving a single one does. -/
theorem resolveDependencies_advanced {resolve : Sorting → ℕ → Except FilterDependencyError Sorting}
    (hresolve : ∀ {sorting sorting' j}, j < filters.length → Sorted filters sorting →
      resolve sorting j = .ok sorting' →
        Advanced filters sorting sorting' ∧ j ∈ sorting'.resolved)
    {depnames : List String} {sorting sorting' : Sorting} (hsorted : Sorted filters sorting)
    (h : resolveDependencies (filterNames filters) resolve depnames sorting = .ok sorting') :
    Advanced filters sorting sorting' ∧ ∀ depname ∈ depnames,
      ∃ j ∈ sorting'.resolved, (filterNames filters).get? depname = some j := by
  induction depnames generalizing sorting with
  | nil =>
    cases h
    exact ⟨⟨hsorted, Finset.Subset.refl _⟩, by simp⟩
  | cons depname rest ih =>
    rw [resolveDependencies] at h
    split at h
    · cases h
    · rename_i j hj
      split at h
      · cases h
      · rename_i next hnext
        obtain ⟨other, hother, _⟩ := get?_filterNames hj
        have hlt := (List.getElem?_eq_some_iff.mp hother).1
        obtain ⟨hadvanced, hmem⟩ := hresolve hlt hsorted hnext
        obtain ⟨hlast, hnames⟩ := ih hadvanced.sorted h
        refine ⟨⟨hlast.sorted, hadvanced.subset.trans hlast.subset⟩, ?_⟩
        intro name hname
        rcases List.mem_cons.mp hname with rfl | hname
        · exact ⟨j, hlast.subset hmem, hj⟩
        · exact hnames name hname

/-- A successful search from a filter places it, and everything in order. -/
theorem resolveFilter_advanced {depth : ℕ} {inprocess : Finset ℕ}
    (hbelow : inprocess ⊆ Finset.range filters.length)
    (hdepth : filters.length + 1 ≤ depth + inprocess.card) {sorting sorting' : Sorting} {i : ℕ}
    (hi : i < filters.length) (hsorted : Sorted filters sorting)
    (h : resolveFilter filters (filterNames filters) depth inprocess sorting i = .ok sorting') :
    Advanced filters sorting sorting' ∧ i ∈ sorting'.resolved := by
  induction depth generalizing inprocess sorting sorting' i with
  | zero =>
    have hcard := Finset.card_le_card hbelow
    rw [Finset.card_range] at hcard
    omega
  | succ depth ih =>
    rw [resolveFilter, List.getElem?_eq_getElem hi] at h
    dsimp only at h
    split at h
    · rename_i hresolved
      cases h
      exact ⟨⟨hsorted, Finset.Subset.refl _⟩, hresolved⟩
    · split at h
      · cases h
      · rename_i hfresh
        split at h
        · cases h
        · rename_i hunresolved next hnext
          cases h
          have hbelow' : insert i inprocess ⊆ Finset.range filters.length :=
            Finset.insert_subset (Finset.mem_range.mpr hi) hbelow
          have hdepth' : filters.length + 1 ≤ depth + (insert i inprocess).card := by
            rw [Finset.card_insert_of_notMem hfresh]
            omega
          obtain ⟨hadvanced, hnames⟩ := resolveDependencies_advanced
            (fun hj hsorted hstep => ih hbelow' hdepth' hj hsorted hstep) hsorted hnext
          refine ⟨⟨⟨?_, ?_⟩, ?_⟩, Finset.mem_insert_self _ _⟩
          · intro k
            rw [Finset.mem_insert, hadvanced.sorted.resolved k, List.mem_append,
              List.mem_singleton, or_comm]
          · apply hadvanced.sorted.placed.snoc
            intro filter hfilter depname hdepname
            rw [List.getElem?_eq_getElem hi, Option.some.injEq] at hfilter
            rw [← hfilter] at hdepname
            obtain ⟨j, hj, hget⟩ := hnames depname hdepname
            exact ⟨j, (hadvanced.sorted.resolved j).mp hj, hget⟩
          · exact hadvanced.subset.trans (Finset.subset_insert _ _)

/-- The loop over the filters places every one of them. -/
theorem resolveFilters_advanced {indices : List ℕ} (hindices : ∀ i ∈ indices, i < filters.length)
    {sorting sorting' : Sorting} (hsorted : Sorted filters sorting)
    (h : resolveFilters filters indices sorting = .ok sorting') :
    Advanced filters sorting sorting' ∧ ∀ i ∈ indices, i ∈ sorting'.resolved := by
  induction indices generalizing sorting with
  | nil =>
    cases h
    exact ⟨⟨hsorted, Finset.Subset.refl _⟩, by simp⟩
  | cons i rest ih =>
    rw [resolveFilters] at h
    split at h
    · cases h
    · rename_i next hnext
      obtain ⟨hfirst, hmem⟩ := resolveFilter_advanced (Finset.empty_subset _) (by simp)
        (hindices i List.mem_cons_self) hsorted hnext
      obtain ⟨hlast, hall⟩ :=
        ih (fun k hk => hindices k (List.mem_cons_of_mem _ hk)) hfirst.sorted h
      refine ⟨⟨hlast.sorted, hfirst.subset.trans hlast.subset⟩, ?_⟩
      intro k hk
      rcases List.mem_cons.mp hk with rfl | hk
      · exact hlast.subset hmem
      · exact hall k hk

/-- A filter in order comes after those it depends on. -/
theorem Placed.idxOf_lt {order : List ℕ} (h : Placed filters order) {i j : ℕ} (hi : i ∈ order)
    (hdepends : Depends filters i j) : order.idxOf j < order.idxOf i := by
  obtain ⟨before, after, heq, hfresh⟩ := List.eq_append_cons_of_mem hi
  obtain ⟨filter, hfilter, depname, hdepname, hget⟩ := hdepends
  obtain ⟨k, hk, hk'⟩ := h before i after heq filter hfilter depname hdepname
  rw [hget, Option.some.injEq] at hk'
  subst hk'
  have hidx : order.idxOf i = before.length := by
    rw [heq, List.idxOf_append_of_notMem hfresh, List.idxOf_cons_self, Nat.add_zero]
  rw [hidx, heq, List.idxOf_append_of_mem hk]
  exact List.idxOf_lt_length_iff.mpr hk

/-- A sorting that ends well shows that the names are known and that there is no cycle: a filter on
a cycle would have to stand before itself. -/
theorem resolvable_of_ok {sorting : Sorting}
    (h : resolveFilters filters (List.range filters.length) ⟨[], ∅⟩ = .ok sorting) :
    Resolvable filters := by
  have hinitial : Sorted filters ⟨[], ∅⟩ := by
    constructor
    · simp
    · intro before i after heq
      simp at heq
  obtain ⟨hadvanced, hall⟩ :=
    resolveFilters_advanced (fun i hi => List.mem_range.mp hi) hinitial h
  have horder : ∀ i < filters.length, i ∈ sorting.order := by
    intro i hi
    exact (hadvanced.sorted.resolved i).mp (hall i (List.mem_range.mpr hi))
  constructor
  · intro filter hfilter depname hdepname
    obtain ⟨i, hi⟩ := List.mem_iff_getElem?.mp hfilter
    obtain ⟨before, after, heq⟩ :=
      List.append_of_mem (horder i (List.getElem?_eq_some_iff.mp hi).1)
    obtain ⟨j, _, hget⟩ := hadvanced.sorted.placed before i after heq filter hi depname hdepname
    obtain ⟨other, hother, hname⟩ := get?_filterNames hget
    exact ⟨other, List.mem_of_getElem? hother, hname⟩
  · intro i hcycle
    -- the position in the order falls along every dependency
    have hfalls : ∀ j, Relation.TransGen (Depends filters) i j →
        sorting.order.idxOf j < sorting.order.idxOf i := by
      intro j hpath
      induction hpath with
      | single hstep =>
        have hi := horder i hstep.lt_length_left
        exact hadvanced.sorted.placed.idxOf_lt hi hstep
      | tail hpath hstep ih =>
        have hk := horder _ hstep.lt_length_left
        exact (hadvanced.sorted.placed.idxOf_lt hk hstep).trans ih
    exact lt_irrefl _ (hfalls i hcycle)

/-! ## The search on resolvable filters -/

/-- Where names are known and nothing is cyclic, no filter meets itself among those in process, so
that its resolution ends well. -/
theorem resolveFilter_ok (h : Resolvable filters) (depth : ℕ) {inprocess : Finset ℕ} {i : ℕ}
    (hinprocess : ∀ k ∈ inprocess, Relation.TransGen (Depends filters) k i) (sorting : Sorting) :
    ∃ sorting', resolveFilter filters (filterNames filters) depth inprocess sorting i =
      .ok sorting' := by
  induction depth generalizing inprocess i sorting with
  | zero => exact ⟨sorting, rfl⟩
  | succ depth ih =>
    rw [resolveFilter]
    cases hfilter : filters[i]? with
    | none => exact ⟨sorting, rfl⟩
    | some filter =>
      dsimp only
      by_cases hresolved : i ∈ sorting.resolved
      · exact ⟨sorting, by rw [if_pos hresolved]⟩
      by_cases hcycle : i ∈ inprocess
      · exact absurd (hinprocess i hcycle) (h.acyclic i)
      rw [if_neg hresolved, if_neg hcycle]
      have hdependencies : ∀ depnames, (∀ depname ∈ depnames, depname ∈ filter.dependencies) →
          ∀ sorting, ∃ sorting', resolveDependencies (filterNames filters)
            (resolveFilter filters (filterNames filters) depth (insert i inprocess)) depnames
            sorting = .ok sorting' := by
        intro depnames hdepnames
        induction depnames with
        | nil => exact fun sorting => ⟨sorting, rfl⟩
        | cons depname rest ihrest =>
          intro sorting
          have hdepname := hdepnames depname List.mem_cons_self
          obtain ⟨other, hother, hname⟩ :=
            h.known filter (List.mem_of_getElem? hfilter) depname hdepname
          obtain ⟨j, hj⟩ := exists_get?_filterNames hother
          rw [hname] at hj
          have hstep : Depends filters i j := ⟨filter, hfilter, depname, hdepname, hj⟩
          have hinprocess' : ∀ k ∈ insert i inprocess, Relation.TransGen (Depends filters) k j := by
            intro k hk
            rcases Finset.mem_insert.mp hk with rfl | hk
            · exact .single hstep
            · exact (hinprocess k hk).tail hstep
          obtain ⟨next, hnext⟩ := ih hinprocess' sorting
          obtain ⟨last, hlast⟩ :=
            ihrest (fun name hmem => hdepnames name (List.mem_cons_of_mem _ hmem)) next
          exact ⟨last, by simp only [resolveDependencies, hj, hnext, hlast]⟩
      obtain ⟨next, hnext⟩ := hdependencies filter.dependencies (fun _ hmem => hmem) sorting
      exact ⟨_, by rw [hnext]⟩

/-- The sorting succeeds exactly on lists of filters without unknown names and cycles. -/
theorem resolveFilters_ok_iff :
    (∃ sorting, resolveFilters filters (List.range filters.length) ⟨[], ∅⟩ = .ok sorting) ↔
      Resolvable filters := by
  constructor
  · rintro ⟨sorting, h⟩
    exact resolvable_of_ok h
  · intro h
    have hall : ∀ indices sorting, ∃ sorting',
        resolveFilters filters indices sorting = .ok sorting' := by
      intro indices
      induction indices with
      | nil => exact fun sorting => ⟨sorting, rfl⟩
      | cons i rest ih =>
        intro sorting
        have hempty : ∀ k ∈ (∅ : Finset ℕ), Relation.TransGen (Depends filters) k i := by simp
        obtain ⟨next, hnext⟩ := resolveFilter_ok h (filters.length + 1) hempty sorting
        obtain ⟨last, hlast⟩ := ih next
        exact ⟨last, by simp only [resolveFilters, hnext, hlast]⟩
    exact hall _ _

end OpenDiamond.FilterDependencies
