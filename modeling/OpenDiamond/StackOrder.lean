import OpenDiamond.FilterSources

/-!
# The order of a filter stack is topological

The depth-first search of `FilterStack` places every filter once, after its dependencies, or
finds an unknown name or a cycle. The filters of a list are different objects, known by their
positions. The search is never deeper than there are filters.
-/

namespace OpenDiamond.StackOrder

open FilterOrder FilterDependencies

variable {filters : List FilterStackRunner.Filter}

/-! ## Every filter once -/

/-- The filters placed so far are different ones, and none of them is in process. -/
structure Distinct (filters : List FilterStackRunner.Filter) (inprocess : Finset ℕ)
    (sorting : Sorting) : Prop where
  /-- `resolved` is the set of the filters placed. -/
  resolved : ∀ i, i ∈ sorting.resolved ↔ i ∈ sorting.order
  /-- No filter is placed twice. -/
  nodup : sorting.order.Nodup
  /-- Filters of the list are placed. -/
  below : ∀ i ∈ sorting.order, i < filters.length
  /-- A filter in process has not been placed. -/
  unplaced : ∀ i ∈ inprocess, i ∉ sorting.resolved

/-- Resolving all dependencies of a filter lists no filter twice, if resolving a single one does
not. -/
theorem resolveDependencies_distinct {names : Lib.OrderedDict.Dict String ℕ} {inprocess : Finset ℕ}
    {resolve : Sorting → ℕ → Except FilterDependencyError Sorting}
    (hresolve : ∀ {sorting sorting' j}, Distinct filters inprocess sorting →
      resolve sorting j = .ok sorting' → Distinct filters inprocess sorting')
    {depnames : List String} {sorting sorting' : Sorting}
    (hdistinct : Distinct filters inprocess sorting)
    (h : resolveDependencies names resolve depnames sorting = .ok sorting') :
    Distinct filters inprocess sorting' := by
  induction depnames generalizing sorting with
  | nil =>
    cases h
    exact hdistinct
  | cons depname rest ih =>
    rw [resolveDependencies] at h
    split at h
    · cases h
    · split at h
      · cases h
      · rename_i next hnext
        exact ih (hresolve hdistinct hnext) h

/-- Placing a filter when its dependencies are done keeps the filters different. -/
theorem Distinct.place {inprocess : Finset ℕ} {sorting : Sorting} {i : ℕ} (hi : i < filters.length)
    (hfresh : i ∉ inprocess) (h : Distinct filters (insert i inprocess) sorting) :
    Distinct filters inprocess ⟨sorting.order ++ [i], insert i sorting.resolved⟩ := by
  have hunplaced : i ∉ sorting.resolved := h.unplaced i (Finset.mem_insert_self i inprocess)
  constructor
  · intro k
    rw [Finset.mem_insert, h.resolved, List.mem_append, List.mem_singleton, or_comm]
  · rw [← List.concat_eq_append, List.nodup_concat]
    exact ⟨fun hmem => hunplaced ((h.resolved i).mpr hmem), h.nodup⟩
  · intro k hk
    rcases List.mem_append.mp hk with hk | hk
    · exact h.below k hk
    · rwa [List.mem_singleton.mp hk]
  · intro k hk hmem
    rcases Finset.mem_insert.mp hmem with rfl | hmem
    · exact hfresh hk
    · exact h.unplaced k (Finset.mem_insert_of_mem hk) hmem

/-- Nor does the resolution of one filter with everything below it. -/
theorem resolveFilter_distinct {names : Lib.OrderedDict.Dict String ℕ} {depth : ℕ}
    {inprocess : Finset ℕ} {sorting sorting' : Sorting} {i : ℕ}
    (hdistinct : Distinct filters inprocess sorting)
    (h : resolveFilter filters names depth inprocess sorting i = .ok sorting') :
    Distinct filters inprocess sorting' := by
  induction depth generalizing inprocess sorting sorting' i with
  | zero =>
    cases h
    exact hdistinct
  | succ depth ih =>
    rw [resolveFilter] at h
    split at h
    · cases h
      exact hdistinct
    · rename_i filter hfilter
      split at h
      · cases h
        exact hdistinct
      · rename_i hunresolved
        split at h
        · cases h
        · rename_i hfresh
          split at h
          · cases h
          · rename_i next hnext
            cases h
            have hinner : Distinct filters (insert i inprocess) sorting := by
              refine ⟨hdistinct.resolved, hdistinct.nodup, hdistinct.below, ?_⟩
              intro k hk
              rcases Finset.mem_insert.mp hk with rfl | hk
              · exact hunresolved
              · exact hdistinct.unplaced k hk
            have hi := (List.getElem?_eq_some_iff.mp hfilter).1
            exact (resolveDependencies_distinct ih hinner hnext).place hi hfresh

/-- Nor does the whole loop. -/
theorem resolveFilters_distinct {indices : List ℕ} {sorting sorting' : Sorting}
    (hdistinct : Distinct filters ∅ sorting)
    (h : resolveFilters filters indices sorting = .ok sorting') :
    Distinct filters ∅ sorting' := by
  induction indices generalizing sorting with
  | nil =>
    cases h
    exact hdistinct
  | cons i rest ih =>
    rw [resolveFilters] at h
    split at h
    · cases h
    · rename_i next hnext
      exact ih (resolveFilter_distinct hdistinct hnext) h

/-! ## The depth of the search -/

/-- Resolving dependencies looks at the recursion for these dependencies alone. -/
theorem resolveDependencies_congr {names : Lib.OrderedDict.Dict String ℕ}
    {resolve resolve' : Sorting → ℕ → Except FilterDependencyError Sorting} {depnames : List String}
    (h : ∀ depname ∈ depnames, ∀ j, names.get? depname = some j →
      ∀ sorting, resolve sorting j = resolve' sorting j) (sorting : Sorting) :
    resolveDependencies names resolve depnames sorting =
      resolveDependencies names resolve' depnames sorting := by
  induction depnames generalizing sorting with
  | nil => rfl
  | cons depname rest ih =>
    have hrest := ih fun name hname => h name (List.mem_cons_of_mem depname hname)
    rw [resolveDependencies, resolveDependencies]
    cases hget : names.get? depname with
    | none => rfl
    | some j =>
      dsimp only
      rw [h depname List.mem_cons_self j hget sorting]
      cases resolve' sorting j with
      | error error => rfl
      | ok next => exact hrest next

/-- A bound above the number of filters that are not in process is never reached. -/
theorem resolveFilter_depth {depth depth' : ℕ} {inprocess : Finset ℕ}
    (hbelow : inprocess ⊆ Finset.range filters.length)
    (hdepth : filters.length + 1 ≤ depth + inprocess.card)
    (hdepth' : filters.length + 1 ≤ depth' + inprocess.card) {i : ℕ} (hi : i < filters.length)
    (sorting : Sorting) :
    resolveFilter filters (filterNames filters) depth inprocess sorting i =
      resolveFilter filters (filterNames filters) depth' inprocess sorting i := by
  have hcard := Finset.card_le_card hbelow
  rw [Finset.card_range] at hcard
  induction depth generalizing depth' inprocess sorting i with
  | zero => omega
  | succ depth ih =>
    obtain ⟨depth', rfl⟩ : ∃ smaller, depth' = smaller + 1 := ⟨depth' - 1, by omega⟩
    rw [resolveFilter, resolveFilter, List.getElem?_eq_getElem hi]
    dsimp only
    by_cases hresolved : i ∈ sorting.resolved
    · rw [if_pos hresolved, if_pos hresolved]
    rw [if_neg hresolved, if_neg hresolved]
    by_cases hfresh : i ∈ inprocess
    · rw [if_pos hfresh, if_pos hfresh]
    rw [if_neg hfresh, if_neg hfresh]
    have hbelow' : insert i inprocess ⊆ Finset.range filters.length :=
      Finset.insert_subset (Finset.mem_range.mpr hi) hbelow
    have hcard' := Finset.card_le_card hbelow'
    rw [Finset.card_range] at hcard'
    have hinsert := Finset.card_insert_of_notMem hfresh
    have hsame : ∀ depname ∈ filters[i].dependencies, ∀ j,
        (filterNames filters).get? depname = some j → ∀ next,
          resolveFilter filters (filterNames filters) depth (insert i inprocess) next j =
            resolveFilter filters (filterNames filters) depth' (insert i inprocess) next j := by
      intro depname _ j hget next
      obtain ⟨other, hother, _⟩ := get?_filterNames hget
      have hj := (List.getElem?_eq_some_iff.mp hother).1
      exact ih hbelow' (by omega) (by omega) hj next hcard'
    rw [resolveDependencies_congr hsame]

/-! ## The stack -/

/-- An order of the positions of all filters, in which each comes after its dependencies. -/
structure Topological (filters : List FilterStackRunner.Filter) (order : List ℕ) : Prop where
  /-- Every filter occurs once. -/
  perm : order.Perm (List.range filters.length)
  /-- A filter comes after the filters it depends on. -/
  after : ∀ i j, Depends filters i j → order.idxOf j < order.idxOf i

/-- A sorting that ends well lists every filter once, each behind those that it depends on. -/
theorem topological_of_ok {sorting : Sorting}
    (h : resolveFilters filters (List.range filters.length) ⟨[], ∅⟩ = .ok sorting) :
    Topological filters sorting.order := by
  have hsorted : Sorted filters ⟨[], ∅⟩ := ⟨by simp, by simp [Placed]⟩
  have hdistinct : Distinct filters ∅ ⟨[], ∅⟩ :=
    ⟨by simp, List.nodup_nil, by simp, by simp⟩
  obtain ⟨hadvanced, hall⟩ := resolveFilters_advanced (fun i => List.mem_range.mp) hsorted h
  have hafter := resolveFilters_distinct hdistinct h
  have hmem : ∀ i, i ∈ sorting.order ↔ i ∈ List.range filters.length := by
    intro i
    refine ⟨fun hi => List.mem_range.mpr (hafter.below i hi), ?_⟩
    intro hi
    exact (hafter.resolved i).mp (hall i hi)
  constructor
  · exact (List.perm_ext_iff_of_nodup hafter.nodup List.nodup_range).mpr hmem
  · intro i j hdepends
    have hi := (hmem i).mpr (List.mem_range.mpr hdepends.lt_length_left)
    exact hadvanced.sorted.placed.idxOf_lt hi hdepends

/-- What the construction of a filter stack does, whatever the filters are called and depend
on. -/
structure Sorts (filters : List FilterSources.Filter) : Prop where
  /-- It fails exactly on an unknown name or a cycle. -/
  raises : (∃ message, FilterSources.FilterStack.new filters =
      .error (.filterDependencyError message)) ↔
    (∃ filter ∈ filters, ∃ depname ∈ filter.dependencies,
      ∀ other ∈ filters, other.name ≠ depname) ∨
    ∃ i, Relation.TransGen (Depends (filters.map FilterSources.Filter.declaration)) i i
  /-- It does not fail in another way. -/
  error : ∀ raised, FilterSources.FilterStack.new filters = .error raised →
    ∃ message, raised = .filterDependencyError message
  /-- The order of a stack is topological. -/
  ordered : ∀ stack, FilterSources.FilterStack.new filters = .ok stack →
    ∃ order, Topological (filters.map FilterSources.Filter.declaration) order ∧
      stack.order = order.filterMap (filters[·]?) ∧ stack.order.Perm filters
  /-- The search from a filter ends within the depth it is given. -/
  terminates : ∀ i < filters.length, ∀ sorting, ∀ depth ≥ filters.length + 1,
    resolveFilter (filters.map FilterSources.Filter.declaration)
        (filterNames (filters.map FilterSources.Filter.declaration)) depth ∅ sorting i =
      resolveFilter (filters.map FilterSources.Filter.declaration)
        (filterNames (filters.map FilterSources.Filter.declaration)) (filters.length + 1) ∅ sorting i

/-- Going through all places of a list gives the list. -/
theorem filterMap_range {α : Type*} (list : List α) :
    (List.range list.length).filterMap (list[·]?) = list := by
  induction list using List.reverseRecOn with
  | nil => rfl
  | append_singleton rest a ih =>
    have hlast : (rest ++ [a])[rest.length]? = some a := by simp
    have hrest : (List.range rest.length).filterMap ((rest ++ [a])[·]?) =
        (List.range rest.length).filterMap (rest[·]?) := by
      refine List.filterMap_congr fun i hi => ?_
      exact List.getElem?_append_left (List.mem_range.mp hi)
    rw [List.length_append, List.length_singleton, List.range_succ, List.filterMap_append, hrest,
      ih, List.filterMap_cons, hlast, List.filterMap_nil]

/-- A stack cannot be resolved exactly when a dependency is unknown or some filter depends on itself
through others. -/
theorem not_resolvable_iff (filters : List FilterSources.Filter) :
    ¬Resolvable (filters.map FilterSources.Filter.declaration) ↔
      (∃ filter ∈ filters, ∃ depname ∈ filter.dependencies,
        ∀ other ∈ filters, other.name ≠ depname) ∨
      ∃ i, Relation.TransGen (Depends (filters.map FilterSources.Filter.declaration)) i i := by
  constructor
  · intro h
    by_contra hcon
    rw [not_or] at hcon
    refine h ⟨?_, fun i hi => hcon.2 ⟨i, hi⟩⟩
    intro declared hdeclared depname hdepname
    obtain ⟨filter, hfilter, rfl⟩ := List.mem_map.mp hdeclared
    by_contra hunknown
    refine hcon.1 ⟨filter, hfilter, depname, hdepname, ?_⟩
    intro other hother hname
    exact hunknown ⟨_, List.mem_map_of_mem hother, hname⟩
  · rintro (⟨filter, hfilter, depname, hdepname, hunknown⟩ | ⟨i, hcycle⟩) h
    · obtain ⟨declared, hdeclared, hname⟩ :=
        h.known _ (List.mem_map_of_mem hfilter) depname hdepname
      obtain ⟨other, hother, rfl⟩ := List.mem_map.mp hdeclared
      exact hunknown other hother hname
    · exact h.acyclic i hcycle

/-- The construction of a filter stack is a correct topological sort: it fails exactly for unknown
or cyclic dependencies, and otherwise lists every filter once, behind those that it depends on. -/
theorem filterStack_sorts (filters : List FilterSources.Filter) : Sorts filters := by
  have hlength : (filters.map FilterSources.Filter.declaration).length = filters.length :=
    List.length_map _
  have herror : ∀ raised, FilterSources.FilterStack.new filters = .error raised →
      ∃ message, raised = .filterDependencyError message := by
    intro raised h
    unfold FilterSources.FilterStack.new at h
    split at h
    · cases h
      exact ⟨_, rfl⟩
    · cases h
  constructor
  · rw [← not_resolvable_iff, ← FilterSources.FilterStack.new_ok_iff]
    cases hnew : FilterSources.FilterStack.new filters with
    | error raised =>
      obtain ⟨message, rfl⟩ := herror raised hnew
      simp
    | ok stack => simp
  · exact herror
  · intro stack h
    unfold FilterSources.FilterStack.new at h
    split at h
    · cases h
    · rename_i sorting hsorting
      cases h
      rw [← hlength] at hsorting
      have htopological := topological_of_ok hsorting
      refine ⟨sorting.order, htopological, rfl, ?_⟩
      have hperm := htopological.perm
      rw [hlength] at hperm
      have hall := hperm.filterMap (filters[·]?)
      rwa [filterMap_range] at hall
  · intro i hi sorting depth hdepth
    refine resolveFilter_depth (Finset.empty_subset _) ?_ ?_ ?_ sorting
    · rw [hlength]
      omega
    · rw [hlength]
      omega
    · rwa [hlength]

end OpenDiamond.StackOrder
