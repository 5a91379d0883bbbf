import OpenDiamond.Lib.Greedy
import OpenDiamond.ProxyFilters

/-!
# The models of the proxy

The models are sorted by their score on all examples and pruned: a model is left out when its
predictions go with those of a better one. The first two models are always taken, and the scan of
the others begins with the fourth.
-/

namespace OpenDiamond.ProxyModels

open Lib.Greedy ProxyFilters

variable {F M P : Type}

/-! ## The program -/

/-- What the packages do. -/
structure Learning (F M P : Type) where
  /-- `random.sample` of all elements, by the number of the call. -/
  sample : ℕ → List F → List F
  /-- `predict`. -/
  predict : M → List F → P
  /-- `f1_score`. -/
  f1Score : List ℤ → P → Float
  /-- `argsort`. -/
  argsort : List Float → List ℕ
  /-- The correlation of `pearsonr`. -/
  pearsonr : P → P → Float

variable (learning : Learning F M P)

/-- A slice that ends at some index. -/
def upTo {α : Type} (stop : ℤ) (list : List α) : List α :=
  list.take (if 0 ≤ stop then stop.toNat else list.length - (-stop).toNat)

/-- `ProxyFilter.sortModels`. -/
def sortModels (f : ProxyFilter F M) : ProxyFilter F M × List P :=
  let mTest := learning.sample 0 f.positiveItems.features ++
    learning.sample 1 f.negativeItems.features ++ learning.sample 2 f.initNegativeItems.features
  let yLabel := List.replicate f.positiveItems.size 1 ++
    List.replicate (f.negativeItems.size + f.initNegativeItems.size) 0
  let predictions := f.fullModels.map fun m => learning.predict m mTest
  let scores := predictions.map (learning.f1Score yLabel)
  let orderedModel := learning.argsort (scores.map fun score => -1 * score)
  ({ f with fullModels := upTo f.maxModels (orderedModel.filterMap (f.fullModels[·]?)) },
    upTo f.maxModels (orderedModel.filterMap (predictions[·]?)))

/-- A model goes with another. -/
def correlated (predictions : List P) (j i : ℕ) : Bool :=
  match predictions[j]?, predictions[i]? with
  | some first, some second => decide (learning.pearsonr first second > 0.8)
  | _, _ => false

/-- `selected_models`. -/
def selectedModels (predictions : List P) : List ℕ :=
  select (correlated learning predictions) [0, 1] (List.range' 3 (predictions.length - 3))

/-- `ProxyFilter.getPrunedModels`, `none` for its `IndexError`. -/
def getPrunedModels (f : ProxyFilter F M) : ProxyFilter F M × Option (List M) :=
  let (after, predictions) := sortModels learning f
  let selected := selectedModels learning predictions
  (after, if ∀ i ∈ selected, i < after.fullModels.length then
    some (selected.filterMap (after.fullModels[·]?)) else none)

/-! ## Sorted models -/

variable {learning}

theorem length_filterMap_getElem? {α : Type} {list : List α} {indices : List ℕ}
    (h : ∀ i ∈ indices, i < list.length) :
    (indices.filterMap (list[·]?)).length = indices.length := by
  induction indices with
  | nil => rfl
  | cons i rest ih =>
    rw [List.filterMap_cons, List.getElem?_eq_getElem (h i List.mem_cons_self), List.length_cons,
      List.length_cons, ih fun j hj => h j (List.mem_cons_of_mem i hj)]

/-- There are as many models as predictions. -/
theorem length_sortModels
    (hargsort : ∀ scores, (learning.argsort scores).Perm (List.range scores.length))
    (f : ProxyFilter F M) :
    (sortModels learning f).1.fullModels.length = (sortModels learning f).2.length := by
  unfold sortModels
  simp only [upTo, List.length_take]
  rw [length_filterMap_getElem?, length_filterMap_getElem?]
  all_goals
    intro i hi
    have hrange := List.mem_range.mp ((hargsort _).mem_iff.mp hi)
    simpa only [List.length_map] using hrange

/-! ## Pruned models -/

/-- A maximal selection of models without correlations. -/
structure Maximal (learning : Learning F M P) (predictions : List P) (selected : List ℕ) : Prop where
  /-- The first two models. -/
  first : 0 ∈ selected ∧ 1 ∈ selected
  /-- A model left out goes with a better one. -/
  maximal : ∀ i, 2 ≤ i → i < predictions.length → i ∉ selected →
    ∃ j ∈ selected, j < i ∧ correlated learning predictions j i = true
  /-- A selected model goes with none. -/
  uncorrelated : ∀ i ∈ selected, 2 ≤ i → ∀ j ∈ selected, j < i →
    correlated learning predictions j i = false

theorem mem_selectedModels_iff (predictions : List P) {i : ℕ} (hlow : 3 ≤ i)
    (hhigh : i < predictions.length) :
    i ∈ selectedModels learning predictions ↔ ∀ j ∈ selectedModels learning predictions, j < i →
      correlated learning predictions j i = false := by
  refine mem_select_iff List.pairwise_lt_range' (fun j hj c hc => ?_) ?_
  · have hlt := (List.mem_range'_1.mp hc).1
    simp only [List.mem_cons, List.not_mem_nil, or_false] at hj
    omega
  · rw [List.mem_range'_1]
    omega

theorem mem_selectedModels {predictions : List P} {i : ℕ}
    (h : i ∈ selectedModels learning predictions) :
    i = 0 ∨ i = 1 ∨ 3 ≤ i ∧ i < predictions.length := by
  rcases mem_of_mem_select h with h | h
  · simp only [List.mem_cons, List.not_mem_nil, or_false] at h
    omega
  · rw [List.mem_range'_1] at h
    omega

theorem first_selectedModels (predictions : List P) :
    0 ∈ selectedModels learning predictions ∧ 1 ∈ selectedModels learning predictions := by
  have hfirst : [0, 1] <+: selectedModels learning predictions := prefix_select _ _
  exact ⟨hfirst.sublist.mem List.mem_cons_self,
    hfirst.sublist.mem (List.mem_cons_of_mem 0 List.mem_cons_self)⟩

/-- The selection is maximal unless the third model should have been selected. -/
theorem maximal_iff (predictions : List P) (hlength : 2 ≤ predictions.length) :
    Maximal learning predictions (selectedModels learning predictions) ↔
      predictions.length = 2 ∨ correlated learning predictions 0 2 = true ∨
        correlated learning predictions 1 2 = true := by
  have hfirst : 0 ∈ selectedModels learning predictions ∧ 1 ∈ selectedModels learning predictions :=
    first_selectedModels predictions
  constructor
  · intro h
    by_cases htwo : predictions.length = 2
    · exact .inl htwo
    · refine .inr ?_
      obtain ⟨j, -, hj, hcorrelated⟩ := h.maximal 2 le_rfl (by omega) fun hmem => by
        have hcases := mem_selectedModels hmem
        omega
      obtain rfl | rfl : j = 0 ∨ j = 1 := by omega
      · exact .inl hcorrelated
      · exact .inr hcorrelated
  · intro h
    refine ⟨hfirst, fun i hlow hhigh hnot => ?_, fun i hmem hlow j hj hji => ?_⟩
    · by_cases hthree : 3 ≤ i
      · by_contra hall
        refine hnot ((mem_selectedModels_iff predictions hthree hhigh).mpr fun j hj hji => ?_)
        exact Bool.eq_false_iff.mpr fun hc => hall ⟨j, hj, hji, hc⟩
      · obtain rfl : i = 2 := by omega
        rcases h with h | h | h
        · omega
        · exact ⟨0, hfirst.1, Nat.zero_lt_two, h⟩
        · exact ⟨1, hfirst.2, Nat.one_lt_two, h⟩
    · have hcases := mem_selectedModels hmem
      have hthree : 3 ≤ i := by omega
      exact (mem_selectedModels_iff predictions hthree (by omega)).mp hmem j hj hji

/-- The pruned models are a maximal selection of those left by `sortModels` exactly when there are
only two of these, or the third goes with the first or the second. -/
theorem getPrunedModels_maximal_iff
    (hargsort : ∀ scores, (learning.argsort scores).Perm (List.range scores.length))
    (f : ProxyFilter F M) (hlength : 2 ≤ (sortModels learning f).2.length) :
    ∃ models, getPrunedModels learning f = ((sortModels learning f).1, some models) ∧
      models.map some = (selectedModels learning (sortModels learning f).2).map
        ((sortModels learning f).1.fullModels[·]?) ∧
      (Maximal learning (sortModels learning f).2
          (selectedModels learning (sortModels learning f).2) ↔
        (sortModels learning f).2.length = 2 ∨
          correlated learning (sortModels learning f).2 0 2 = true ∨
            correlated learning (sortModels learning f).2 1 2 = true) := by
  have hmodels := length_sortModels hargsort f
  have hinside : ∀ i ∈ selectedModels learning (sortModels learning f).2,
      i < (sortModels learning f).1.fullModels.length := by
    intro i hi
    have hcases := mem_selectedModels hi
    omega
  refine ⟨(selectedModels learning (sortModels learning f).2).filterMap
    ((sortModels learning f).1.fullModels[·]?), ?_, ?_, maximal_iff _ hlength⟩
  · unfold getPrunedModels
    simp only [if_pos hinside]
  · generalize (sortModels learning f).1.fullModels = full at hinside
    generalize selectedModels learning (sortModels learning f).2 = selected at hinside
    induction selected with
    | nil => rfl
    | cons i rest ih =>
      rw [List.filterMap_cons, List.getElem?_eq_getElem (hinside i List.mem_cons_self), List.map_cons,
        List.map_cons, List.getElem?_eq_getElem (hinside i List.mem_cons_self),
        ih fun j hj => hinside j (List.mem_cons_of_mem i hj)]

/-- Three models, the first of which knows the examples; their predictions are not correlated. -/
def threeModels : Learning ℤ ℕ (List ℤ) where
  sample _ features := features
  predict m _ := if m = 0 then [1, 1, 0, 0] else if m = 1 then [1, 0, 1, 0] else [1, 0, 0, 1]
  f1Score _ predictions := if predictions = [1, 1, 0, 0] then 1 else 0.5
  argsort scores := List.range scores.length
  pearsonr first second := if first = second then 1 else 0

/-- A filter with two positive and two negative examples and these models. -/
def threeModelsFilter : ProxyFilter ℤ ℕ where
  filter := sampleConfig
  blob := sampleConfig.blob
  code := sampleConfig.code
  maxModels := 9
  majorityFrac := 0.7
  threshold := 0.5
  positiveItems := ItemLists.addAll [⟨1, some "a", 1⟩, ⟨1, some "b", 2⟩]
  negativeItems := .new
  initNegativeItems := ItemLists.addAll [⟨0, none, 3⟩, ⟨0, none, 4⟩]
  fullModels := [0, 1, 2]
  currentMax := 0
  numModelPerIter := 3

/-- For three models the condition is about the third one. -/
theorem getPrunedModels_maximal_three :
    ∃ models, getPrunedModels threeModels threeModelsFilter =
        ((sortModels threeModels threeModelsFilter).1, some models) ∧
      models.map some = (selectedModels threeModels (sortModels threeModels threeModelsFilter).2).map
        ((sortModels threeModels threeModelsFilter).1.fullModels[·]?) ∧
      (Maximal threeModels (sortModels threeModels threeModelsFilter).2
          (selectedModels threeModels (sortModels threeModels threeModelsFilter).2) ↔
        (sortModels threeModels threeModelsFilter).2.length = 2 ∨
          correlated threeModels (sortModels threeModels threeModelsFilter).2 0 2 = true ∨
            correlated threeModels (sortModels threeModels threeModelsFilter).2 1 2 = true) :=
  getPrunedModels_maximal_iff (fun _ => .refl _) threeModelsFilter (by decide)

/-- The third of three models is left out, although it goes with neither of the two that are
kept. -/
theorem third_model_dropped :
    (getPrunedModels threeModels threeModelsFilter).2 = some [0, 1] ∧
      ∀ j < 2, correlated threeModels (sortModels threeModels threeModelsFilter).2 j 2 = false := by
  decide +kernel

end OpenDiamond.ProxyModels
