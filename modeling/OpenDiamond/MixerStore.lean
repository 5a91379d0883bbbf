import Mathlib.Data.Bool.Count
import Mathlib.Data.List.Sort
import OpenDiamond.Lib.Floats
import OpenDiamond.Lib.Weaving

/-!
# Cocktails of two scope lists

A cocktail mixes the entries of a base list with a percentage of entries of another list. The
announced count adds the percentage of the base list to it, but the positions of the mixed entries
are drawn for blocks of a fixed length, with the percentage of the block. The base list is emitted
as announced exactly when as many positions are drawn below the count as entries were added to it.
-/

namespace OpenDiamond.MixerStore

open Lib.Floats Lib.Unicode Lib.Weaving Lib.Words

/-! ## The program -/

/-- Exceptions of the store. -/
inductive Raised where
  /-- A keyword or a base entry that is not there. -/
  | indexError
  /-- An integer that no double holds, or an infinity as an integer. -/
  | overflowError
  /-- The length of a list that is `None`. -/
  | typeError
  /-- A text that is no number, NaN as an integer, or a sample larger than its population. -/
  | valueError
  /-- What `_get_object_element` raises. -/
  | rendering
  deriving DecidableEq

/-- `ITEMS_PER_ITERATION`. -/
def itemsPerIteration : ℕ := 10000

/-- `int(percentage * n)`. -/
def portion (percentage : Float) (n : ℕ) : Except Raised ℤ :=
  match ofInt n with
  | none => .error .overflowError
  | some x =>
    match truncate (percentage * x) with
    | some count => .ok count
    | none => .error (if (percentage * x).isNaN then .valueError else .overflowError)

/-- `decode_params`: the seed and the percentage. -/
def decodeParams (params : Text) : Except Raised (Option ℤ × Float) :=
  match params.splitOn (codePoint '_') with
  | mType :: seed :: keywords =>
    match readInt seed with
    | none => .error .valueError
    | some seed =>
      let seed := if mType = ofString "r" then none else some seed
      match keywords with
      | [] => .ok (seed, roundTo 4 0.0001)
      | percentage :: _ =>
        match readFloat percentage with
        | none => .error .valueError
        | some percentage => .ok (seed, roundTo 4 (percentage / 100))
  | _ => .error .indexError

/-- The entries of the base index from `start` on, at most `limit` if that is positive. -/
def baseEntries (lines : List Text) (start : ℕ) (limit : ℤ) : List Text :=
  if 0 < limit then (lines.drop start).take limit.toNat
  else if 0 < start then lines.drop start
  else lines

/-- The variables that `generate` finds. -/
structure Scope where
  /-- `base_list`. -/
  baseList : List Text
  /-- `mixer_list`, shuffled. -/
  mixerList : List Text
  /-- `make_cocktail`. -/
  makeCocktail : Bool
  /-- `percentage`. -/
  percentage : Float
  /-- `total_entries`. -/
  totalEntries : ℤ

/-- `get_scope`, with the shuffling for a seed. The base index is absent for the index `"0"`. -/
def getScope (shuffle : Option ℤ → List Text → List Text) (baseIndex : Option (List Text))
    (params : Text) (mixerList : Option (List Text)) (start : ℕ) (limit : ℤ) :
    Except Raised Scope := do
  let (seed, percentage) ← decodeParams params
  let baseList := match baseIndex with
    | none => []
    | some lines => baseEntries lines start limit
  match baseList, mixerList with
  | [], none => .error .typeError
  | [], some mixers => return ⟨mixers, [], false, percentage, mixers.length⟩
  | base :: rest, none => return ⟨base :: rest, [], false, percentage, (base :: rest).length⟩
  | base :: rest, some [] => return ⟨base :: rest, [], false, percentage, (base :: rest).length⟩
  | base :: rest, some mixers => do
    let totalSample ← portion percentage (base :: rest).length
    return ⟨base :: rest, shuffle seed mixers, true, percentage,
      (base :: rest).length + totalSample⟩

/-- An object of a scope list. -/
structure Element where
  /-- The entry it was made of, of the base list or of the mixer list. -/
  source : Text ⊕ Text
  /-- The element. -/
  text : Text

/-- What `generate` yields. -/
structure Output where
  /-- The count that the `objectlist` announces. -/
  count : ℤ
  /-- The objects. -/
  elements : List Element
  /-- The exception that ended it. -/
  raised : Option Raised

/-- The variables of the loop. -/
structure Loop where
  /-- `base_list`. -/
  baseList : List Text
  /-- How many entries were taken out of the pool. -/
  drawn : ℕ
  /-- `mix_indices`. -/
  mixIndices : List ℕ
  /-- `iteration_count`. -/
  iterationCount : ℕ

/-- The entry of `cycle(mixer_list)` after so many others. -/
def cycle (mixerList : List Text) (drawn : ℕ) : Text :=
  mixerList.getD (drawn % mixerList.length) []

section Generate

variable (scope : Scope) (sample : ℕ → List ℕ) (getObjectElement : Text → Option Text)

/-- `generate_mix_indices`, with what `random.sample` draws in each iteration. -/
def generateMixIndices (iterationCount : ℕ) : Except Raised (List ℕ) := do
  let mixPerIteration ← portion scope.percentage itemsPerIteration
  if 0 ≤ mixPerIteration ∧ mixPerIteration ≤ itemsPerIteration then
    return ((sample iterationCount).insertionSort (· ≤ ·)).map
      fun x => x + itemsPerIteration * iterationCount
  else .error .valueError

/-- The positions of a new block, at its start. -/
def refresh (count : ℕ) (loop : Loop) : Except Raised Loop :=
  if count % itemsPerIteration = 0 ∧ scope.makeCocktail then
    (generateMixIndices scope sample loop.iterationCount).map fun mixIndices =>
      { loop with mixIndices := mixIndices, iterationCount := loop.iterationCount + 1 }
  else .ok loop

/-- The entry for a position. -/
def takeEntry (count : ℕ) (loop : Loop) : Except Raised ((Text ⊕ Text) × Loop) :=
  if count ∈ loop.mixIndices then
    .ok (.inr (cycle scope.mixerList loop.drawn), { loop with drawn := loop.drawn + 1 })
  else
    match loop.baseList with
    | [] => .error .indexError
    | line :: rest => .ok (.inl line, { loop with baseList := rest })

/-- The path that the element of an entry is made of. -/
def objPath (source : Text ⊕ Text) : Text := strip (source.elim id id)

/-- The loop of `generate`. -/
def emit : List ℕ → Loop → List Element × Option Raised
  | [], _ => ([], none)
  | count :: rest, loop =>
    match (refresh scope sample count loop).bind (takeEntry scope count) with
    | .error raised => ([], some raised)
    | .ok (source, loop) =>
      match getObjectElement (objPath source) with
      | none => ([], some .rendering)
      | some text =>
        let (elements, raised) := emit rest loop
        (⟨source, text⟩ :: elements, raised)

/-- `generate`. -/
def generate : Output :=
  let (elements, raised) :=
    emit scope sample getObjectElement (List.range scope.totalEntries.toNat)
      ⟨scope.baseList, 0, [], 0⟩
  ⟨scope.totalEntries, elements, raised⟩

end Generate

/-! ## What a cocktail is -/

/-- What `random.sample` can draw from the positions of a block. -/
structure Outcome (percentage : Float) (positions : List ℕ) : Prop where
  /-- Positions of the block. -/
  below : ∀ x ∈ positions, x < itemsPerIteration
  /-- Each at most once. -/
  nodup : positions.Nodup
  /-- As many as asked for. -/
  length : portion percentage itemsPerIteration = .ok positions.length

/-- The position is one of the drawn positions of its block. -/
def mixed (sample : ℕ → List ℕ) (count : ℕ) : Bool :=
  decide (count % itemsPerIteration ∈ sample (count / itemsPerIteration))

/-- How many of the first positions are drawn. -/
def mixedBelow (sample : ℕ → List ℕ) (n : ℕ) : ℕ := (List.range n).countP (mixed sample)

/-- The sources of the objects. -/
def Output.sources (output : Output) : List (Text ⊕ Text) := output.elements.map Element.source

/-- What is announced is emitted: the base list once and in order, and so many entries of the
shuffled mixer list in turn. -/
structure Exact (getObjectElement : Text → Option Text) (base shuffled : List Text) (added : ℕ)
    (output : Output) : Prop where
  /-- No exception. -/
  raised : output.raised = none
  /-- The announced count. -/
  count : output.count = (base.length + added : ℕ)
  /-- As many objects. -/
  length : output.elements.length = base.length + added
  /-- Every base entry once, in order. -/
  base : lefts output.sources = base
  /-- The others from the shuffled list cyclically. -/
  mixers : rights output.sources = (List.range added).map (cycle shuffled)
  /-- Each object is made of its entry. -/
  text : ∀ element ∈ output.elements, getObjectElement (objPath element.source) = some element.text

/-! ## The loop weaves -/

section Weaving

variable {scope : Scope} {sample : ℕ → List ℕ} {getObjectElement : Text → Option Text}

/-- The loop variables fit the block of a position. -/
structure FitsBlock (sample : ℕ → List ℕ) (count : ℕ) (loop : Loop) : Prop where
  /-- The block was begun. -/
  iterationCount : loop.iterationCount = count / itemsPerIteration + 1
  /-- The positions are those of the block. -/
  mixIndices : ∀ c, c / itemsPerIteration = count / itemsPerIteration →
    (c ∈ loop.mixIndices ↔ mixed sample c = true)

/-- The loop variables before a position: those of its block, unless a block begins there. -/
structure Current (sample : ℕ → List ℕ) (count : ℕ) (loop : Loop) : Prop where
  /-- The blocks before were begun. -/
  first : count % itemsPerIteration = 0 → loop.iterationCount = count / itemsPerIteration
  /-- The block itself was begun. -/
  later : count % itemsPerIteration ≠ 0 → FitsBlock sample count loop

/-- Drawn positions, moved to their block. -/
theorem mem_shifted (positions : List ℕ) (c : ℕ) :
    c ∈ (positions.insertionSort (· ≤ ·)).map
        (fun x => x + itemsPerIteration * (c / itemsPerIteration)) ↔
      c % itemsPerIteration ∈ positions := by
  have hsplit := Nat.mod_add_div c itemsPerIteration
  rw [List.mem_map]
  constructor
  · rintro ⟨x, hx, heq⟩
    have hmem := (List.perm_insertionSort (· ≤ ·) positions).mem_iff.mp hx
    have hx' : x = c % itemsPerIteration := by omega
    rwa [← hx']
  · intro hmem
    exact ⟨_, (List.perm_insertionSort (· ≤ ·) positions).mem_iff.mpr hmem, hsplit⟩

/-- A sample of the right size gives the places of its block, in order. -/
theorem generateMixIndices_ok {i : ℕ} (h : Outcome scope.percentage (sample i)) :
    generateMixIndices scope sample i =
      .ok (((sample i).insertionSort (· ≤ ·)).map fun x => x + itemsPerIteration * i) := by
  have hlength : ((sample i).length : ℤ) ≤ itemsPerIteration := by
    have hsub : (sample i).length ≤ (List.range itemsPerIteration).length :=
      (List.subperm_of_subset h.nodup fun x hx => List.mem_range.mpr (h.below x hx)).length_le
    rw [List.length_range] at hsub
    exact_mod_cast hsub
  unfold generateMixIndices
  rw [h.length]
  exact if_pos ⟨Int.natCast_nonneg _, hlength⟩

/-- A position finds the positions of its block. -/
theorem refresh_ok (hcocktail : scope.makeCocktail = true)
    (hsample : ∀ i, Outcome scope.percentage (sample i)) {count : ℕ} {loop : Loop}
    (h : Current sample count loop) :
    ∃ loop', refresh scope sample count loop = .ok loop' ∧ loop'.baseList = loop.baseList ∧
      loop'.drawn = loop.drawn ∧ FitsBlock sample count loop' := by
  by_cases hstart : count % itemsPerIteration = 0
  · have hiteration := h.first hstart
    have hrefresh : refresh scope sample count loop = .ok { loop with
        mixIndices := ((sample loop.iterationCount).insertionSort (· ≤ ·)).map
          fun x => x + itemsPerIteration * loop.iterationCount
        iterationCount := loop.iterationCount + 1 } := by
      rw [refresh, if_pos ⟨hstart, hcocktail⟩, generateMixIndices_ok (hsample _)]
      rfl
    refine ⟨_, hrefresh, rfl, rfl, congrArg (· + 1) hiteration, fun c hc => ?_⟩
    have hmem := mem_shifted (sample (c / itemsPerIteration)) c
    rw [hiteration, ← hc, hmem, mixed, decide_eq_true_eq]
  · have hnot : ¬ (count % itemsPerIteration = 0 ∧ scope.makeCocktail = true) := fun hboth =>
      hstart hboth.1
    exact ⟨loop, by rw [refresh, if_neg hnot], rfl, rfl, h.later hstart⟩

/-- After a position of a block comes the next one, or the next block. -/
theorem FitsBlock.next {count : ℕ} {loop loop' : Loop} (h : FitsBlock sample count loop)
    (hiteration : loop'.iterationCount = loop.iterationCount)
    (hindices : loop'.mixIndices = loop.mixIndices) : Current sample (count + 1) loop' := by
  have hpositive : 0 < itemsPerIteration := Nat.succ_pos _
  constructor
  · intro hstart
    rw [hiteration, h.iterationCount, ← Nat.succ_div_of_mod_eq_zero hstart]
  · intro hlater
    have hblock : (count + 1) / itemsPerIteration = count / itemsPerIteration :=
      Nat.succ_div_of_mod_ne_zero hlater
    exact ⟨by rw [hiteration, h.iterationCount, hblock],
      fun c hc => by rw [hindices]; exact h.mixIndices c (hc.trans hblock)⟩

/-- What is drawn round by round from the mixers is one of them. -/
theorem cycle_mem {mixers : List Text} (hne : mixers ≠ []) (drawn : ℕ) :
    cycle mixers drawn ∈ mixers := by
  have hlt : drawn % mixers.length < mixers.length :=
    Nat.mod_lt _ (List.length_pos_iff.mpr hne)
  rw [cycle, List.getD_eq_getElem _ _ hlt]
  exact List.getElem_mem hlt

/-- What the loop emits, and whether it reaches its end. -/
structure Woven (scope : Scope) (sample : ℕ → List ℕ) (getObjectElement : Text → Option Text)
    (counts : List ℕ) (loop : Loop) (result : List Element × Option Raised) : Prop where
  /-- The sources are the lists, woven. -/
  sources : result.1.map Element.source =
    weave (cycle scope.mixerList) loop.drawn loop.baseList (counts.map (mixed sample))
  /-- No exception exactly when an object was made for each position. -/
  raised : result.2 = none ↔ result.1.length = counts.length
  /-- Each object is made of its entry. -/
  text : ∀ element ∈ result.1, getObjectElement (objPath element.source) = some element.text

/-- Where nothing is left to draw, the loop ends with its exception. -/
theorem Woven.stopped {counts : List ℕ} {count : ℕ} {loop : Loop} {raised : Raised}
    (h : weave (cycle scope.mixerList) loop.drawn loop.baseList
      ((count :: counts).map (mixed sample)) = []) :
    Woven scope sample getObjectElement (count :: counts) loop ([], some raised) :=
  ⟨h.symm, by simp, by simp⟩

/-- An element that is drawn and can be read comes next, and the loop goes on with the rest. -/
theorem Woven.cons {counts : List ℕ} {count : ℕ} {loop loop' : Loop} {source : Text ⊕ Text}
    {text : Text} {result : List Element × Option Raised}
    (htext : getObjectElement (objPath source) = some text)
    (hweave : weave (cycle scope.mixerList) loop.drawn loop.baseList
        ((count :: counts).map (mixed sample)) =
      source :: weave (cycle scope.mixerList) loop'.drawn loop'.baseList
        (counts.map (mixed sample)))
    (h : Woven scope sample getObjectElement counts loop' result) :
    Woven scope sample getObjectElement (count :: counts) loop
      (⟨source, text⟩ :: result.1, result.2) where
  sources := by rw [List.map_cons, h.sources, hweave]
  raised := by
    rw [List.length_cons, List.length_cons, Nat.add_right_cancel_iff]
    exact h.raised
  text element helement := by
    rcases List.mem_cons.mp helement with rfl | helement
    · exact htext
    · exact h.text element helement

/-- The loop weaves the two lists by the drawn positions. -/
theorem emit_woven (hcocktail : scope.makeCocktail = true)
    (hsample : ∀ i, Outcome scope.percentage (sample i)) (hmixers : scope.mixerList ≠ [])
    (hmixerText : ∀ line ∈ scope.mixerList, (getObjectElement (strip line)).isSome)
    (n count : ℕ) (loop : Loop)
    (hbaseText : ∀ line ∈ loop.baseList, (getObjectElement (strip line)).isSome)
    (h : Current sample count loop) :
    Woven scope sample getObjectElement (List.range' count n) loop
      (emit scope sample getObjectElement (List.range' count n) loop) := by
  induction n generalizing count loop with
  | zero => exact ⟨rfl, by simp [emit], by simp [emit]⟩
  | succ n ih =>
    obtain ⟨loop', hrefresh, hbase, hdrawn, hfits⟩ := refresh_ok hcocktail hsample h
    have hmem := hfits.mixIndices count rfl
    rw [List.range'_succ, emit, hrefresh, Except.bind]
    by_cases hmixed : mixed sample count = true
    · -- an entry of the pool
      obtain ⟨text, htext⟩ := Option.isSome_iff_exists.mp
        (hmixerText _ (cycle_mem hmixers loop'.drawn))
      rw [takeEntry, if_pos (hmem.mpr hmixed)]
      have hnext := ih (count + 1) { loop' with drawn := loop'.drawn + 1 }
        (by rwa [hbase]) (hfits.next rfl rfl)
      have htext' : getObjectElement (objPath (.inr (cycle scope.mixerList loop'.drawn))) =
          some text := htext
      simp only [htext']
      refine Woven.cons htext' ?_ hnext
      rw [List.map_cons, hmixed, weave, hdrawn, hbase]
    · -- an entry of the base list, as long as there is one
      rw [takeEntry, if_neg fun hcount => hmixed (hmem.mp hcount)]
      have hfalse : mixed sample count = false := Bool.eq_false_iff.mpr hmixed
      cases hlist : loop'.baseList with
      | nil =>
        refine Woven.stopped ?_
        rw [← hbase, hlist, List.map_cons, hfalse, weave]
      | cons line rest =>
        have hline : line ∈ loop.baseList := by rw [← hbase, hlist]; exact List.mem_cons_self
        obtain ⟨text, htext⟩ := Option.isSome_iff_exists.mp (hbaseText line hline)
        have hnext := ih (count + 1) { loop' with baseList := rest }
          (fun l hl => hbaseText l (by rw [← hbase, hlist]; exact List.mem_cons_of_mem line hl))
          (hfits.next rfl rfl)
        have htext' : getObjectElement (objPath (.inl line)) = some text := htext
        simp only [htext']
        refine Woven.cons htext' ?_ hnext
        rw [List.map_cons, hfalse, ← hbase, hlist, weave, hdrawn]

end Weaving

/-! ## When the cocktail is as announced -/

/-- The percentage of so many ten thousandths. -/
def tenThousandths (k : ℕ) : Float := Float.ofScientific k true 4

section Cocktail

variable (shuffle : Option ℤ → List Text → List Text) (sample : ℕ → List ℕ)
  (getObjectElement : Text → Option Text)

/-- A scope request, with what the shuffling and the sampling give. -/
def serve (baseIndex : Option (List Text)) (params : Text) (mixerList : Option (List Text))
    (start : ℕ) (limit : ℤ) : Except Raised Output :=
  (getScope shuffle baseIndex params mixerList start limit).map fun scope =>
    generate scope sample getObjectElement

variable {shuffle sample getObjectElement}

/-- The mixed places are counted. -/
theorem count_mixed (n : ℕ) :
    ((List.range n).map (mixed sample)).count true = mixedBelow sample n := by
  rw [List.count, List.countP_map, mixedBelow]
  exact List.countP_congr fun c _ => by simp

/-- The other places are the rest. -/
theorem count_not_mixed (n : ℕ) :
    ((List.range n).map (mixed sample)).count false + mixedBelow sample n = n := by
  rw [← count_mixed, List.count_false_add_count_true, List.length_map, List.length_range]

/-- A cocktail is made of the base entries and a share of the shuffled mixers. -/
theorem getScope_cocktail {lines mixers : List Text} {params : Text} {seed : Option ℤ}
    {percentage : Float} {start : ℕ} {limit : ℤ} (hbase : baseEntries lines start limit ≠ [])
    (hmixers : mixers ≠ []) (hparams : decodeParams params = .ok (seed, percentage)) :
    getScope shuffle (some lines) params (some mixers) start limit =
      (portion percentage (baseEntries lines start limit).length).map fun totalSample =>
        ⟨baseEntries lines start limit, shuffle seed mixers, true, percentage,
          (baseEntries lines start limit).length + totalSample⟩ := by
  unfold getScope
  rw [hparams]
  obtain ⟨base, rest, hlist⟩ := List.exists_cons_of_ne_nil hbase
  obtain ⟨mixer, others, rfl⟩ := List.exists_cons_of_ne_nil hmixers
  simp only [hlist, bind, Except.bind]
  cases portion percentage (base :: rest).length <;> rfl

/-- A woven cocktail is exact when as many positions are drawn below the total as were added. -/
theorem exact_generate_iff {scope : Scope} {added : ℕ} (hcocktail : scope.makeCocktail = true)
    (hsample : ∀ i, Outcome scope.percentage (sample i)) (hmixers : scope.mixerList ≠ [])
    (hmixerText : ∀ line ∈ scope.mixerList, (getObjectElement (strip line)).isSome)
    (hbaseText : ∀ line ∈ scope.baseList, (getObjectElement (strip line)).isSome)
    (htotal : scope.totalEntries = (scope.baseList.length + added : ℕ)) :
    Exact getObjectElement scope.baseList scope.mixerList added
        (generate scope sample getObjectElement) ↔
      mixedBelow sample (scope.baseList.length + added) = added := by
  have hstart : Current sample 0 ⟨scope.baseList, 0, [], 0⟩ :=
    ⟨fun _ => rfl, fun hne => absurd rfl hne⟩
  have hwoven : Woven scope sample getObjectElement
      (List.range' 0 (scope.baseList.length + added)) ⟨scope.baseList, 0, [], 0⟩ _ :=
    emit_woven hcocktail hsample hmixers hmixerText _ 0 _ hbaseText hstart
  have hgenerate : generate scope sample getObjectElement =
      ⟨scope.totalEntries,
        (emit scope sample getObjectElement (List.range' 0 (scope.baseList.length + added))
          ⟨scope.baseList, 0, [], 0⟩).1,
        (emit scope sample getObjectElement (List.range' 0 (scope.baseList.length + added))
          ⟨scope.baseList, 0, [], 0⟩).2⟩ := by
    rw [generate, htotal, Int.toNat_natCast, List.range_eq_range']
  rw [hgenerate]
  generalize emit scope sample getObjectElement (List.range' 0 (scope.baseList.length + added))
    ⟨scope.baseList, 0, [], 0⟩ = result at hwoven
  obtain ⟨hsources, hraised, htext⟩ := hwoven
  rw [← List.range_eq_range'] at hsources hraised
  have hcount := @count_not_mixed sample (scope.baseList.length + added)
  have hmixed := @count_mixed sample (scope.baseList.length + added)
  have hlength : result.1.length =
      (weave (cycle scope.mixerList) 0 scope.baseList
        ((List.range (scope.baseList.length + added)).map (mixed sample))).length := by
    rw [← hsources, List.length_map]
  have hcomplete := length_weave_eq_iff (cycle scope.mixerList) 0 scope.baseList
    ((List.range (scope.baseList.length + added)).map (mixed sample))
  rw [List.length_map, List.length_range] at hcomplete
  rw [List.length_range] at hraised
  constructor
  · rintro ⟨hnone, -, -, hlefts, -, -⟩
    have henough := hcomplete.mp (hlength ▸ hraised.mp hnone)
    have htake : scope.baseList.take
        (((List.range (scope.baseList.length + added)).map (mixed sample)).count false) =
        scope.baseList := by
      rw [← lefts_weave (cycle scope.mixerList) 0, ← hsources]
      exact hlefts
    have hall := congrArg List.length htake
    rw [List.length_take] at hall
    omega
  · intro hadded
    have hbase : ((List.range (scope.baseList.length + added)).map (mixed sample)).count false =
        scope.baseList.length := by omega
    have hfull : result.1.length = scope.baseList.length + added := by
      rw [hlength]
      exact hcomplete.mpr hbase.le
    refine ⟨hraised.mpr hfull, htotal, hfull, ?_, ?_, htext⟩
    · rw [Output.sources, hsources, lefts_weave, hbase, List.take_length]
    · rw [Output.sources, hsources, rights_weave _ hbase.le, hmixed, hadded,
        ← List.range_eq_range']

/-- A cocktail is emitted as announced exactly when the product of the doubles keeps its integer
part and as many positions are drawn below the announced count as entries are added to the base
list. -/
theorem cocktail_exact_iff {lines mixers : List Text} {params : Text} {seed : Option ℤ} {k start : ℕ}
    {limit : ℤ} (hshuffle : ∀ seed list, (shuffle seed list).Perm list)
    (hparams : decodeParams params = .ok (seed, tenThousandths k))
    (hbase : baseEntries lines start limit ≠ []) (hmixers : mixers ≠ [])
    (hsample : ∀ i, Outcome (tenThousandths k) (sample i))
    (helement : ∀ line ∈ baseEntries lines start limit ++ mixers,
      (getObjectElement (strip line)).isSome) :
    (∃ output, serve shuffle sample getObjectElement (some lines) params (some mixers) start limit =
        .ok output ∧
      Exact getObjectElement (baseEntries lines start limit) (shuffle seed mixers)
        (k * (baseEntries lines start limit).length / 10000) output) ↔
      portion (tenThousandths k) (baseEntries lines start limit).length =
          .ok (k * (baseEntries lines start limit).length / 10000 : ℕ) ∧
        mixedBelow sample ((baseEntries lines start limit).length +
            k * (baseEntries lines start limit).length / 10000) =
          k * (baseEntries lines start limit).length / 10000 := by
  have hscope := @getScope_cocktail shuffle _ _ _ _ _ _ _ hbase hmixers hparams
  generalize baseEntries lines start limit = base at *
  generalize hadded : k * base.length / 10000 = added at *
  have hshuffled : shuffle seed mixers ≠ [] := fun hnil =>
    hmixers ((hshuffle seed mixers).symm.trans (by rw [hnil])).eq_nil
  have hmixerText : ∀ line ∈ shuffle seed mixers, (getObjectElement (strip line)).isSome :=
    fun line hline => helement line
      (List.mem_append_right _ ((hshuffle seed mixers).mem_iff.mp hline))
  have hbaseText : ∀ line ∈ base, (getObjectElement (strip line)).isSome :=
    fun line hline => helement line (List.mem_append_left _ hline)
  rw [serve, hscope]
  cases hportion : portion (tenThousandths k) base.length with
  | error raised =>
    constructor
    · rintro ⟨output, houtput, -⟩
      cases houtput
    · rintro ⟨hok, -⟩
      cases hok
  | ok totalSample =>
    constructor
    · rintro ⟨output, houtput, hexact⟩
      cases houtput
      have htotal : (base.length : ℤ) + totalSample = (base.length + added : ℕ) := hexact.count
      have hsum : totalSample = added := by omega
      refine ⟨congrArg Except.ok hsum, ?_⟩
      exact (@exact_generate_iff _ _ ⟨base, shuffle seed mixers, true, tenThousandths k, _⟩ _
        rfl hsample hshuffled hmixerText hbaseText htotal).mp hexact
    · rintro ⟨hsum, hbelow⟩
      have hsum' : totalSample = added := Except.ok.inj hsum
      have htotal : (base.length : ℤ) + totalSample = (base.length + added : ℕ) := by omega
      exact ⟨_, rfl, (@exact_generate_iff _ _ ⟨base, shuffle seed mixers, true, tenThousandths k, _⟩ _
        rfl hsample hshuffled hmixerText hbaseText htotal).mpr hbelow⟩

end Cocktail

/-- The default percentage draws one position of a block. -/
theorem outcome_default {x : ℕ} (h : x < itemsPerIteration) : Outcome (tenThousandths 1) [x] where
  below y hy := by rwa [List.mem_singleton.mp hy]
  nodup := List.nodup_singleton x
  length := by
    have hone : portion (tenThousandths 1) itemsPerIteration = .ok 1 := by decide +kernel
    exact hone

/-- Half of the positions of a block: the second, the fifth and many later ones. -/
def halfOfBlock : List ℕ := 1 :: 4 :: List.range' 6 4998

/-- Half of a block is a sample of the right size for half of the objects. -/
theorem outcome_half : Outcome (tenThousandths 5000) halfOfBlock where
  below x hx := by
    rw [halfOfBlock, List.mem_cons, List.mem_cons, List.mem_range'_1] at hx
    rw [itemsPerIteration]
    omega
  nodup := by
    rw [halfOfBlock, List.nodup_cons, List.nodup_cons, List.mem_cons, List.mem_range'_1,
      List.mem_range'_1]
    exact ⟨by omega, by omega, List.nodup_range'⟩
  length := by
    have hhalf : portion (tenThousandths 5000) itemsPerIteration = .ok 5000 := by decide +kernel
    rw [hhalf, halfOfBlock, List.length_cons, List.length_cons, List.length_range']
    rfl

/-- Of the first six positions two are drawn. -/
theorem mixedBelow_half : mixedBelow (fun _ => halfOfBlock) 6 = 2 := by
  have hmixed : ∀ c < 6, mixed (fun _ => halfOfBlock) c = decide (c = 1 ∨ c = 4) := by
    intro c hc
    have hblock : c % itemsPerIteration = c := Nat.mod_eq_of_lt (by rw [itemsPerIteration]; omega)
    refine decide_eq_decide.mpr ?_
    rw [hblock, halfOfBlock, List.mem_cons, List.mem_cons, List.mem_range'_1]
    omega
  have hcount : mixedBelow (fun _ => halfOfBlock) 6 =
      (List.range 6).countP fun c => decide (c = 1 ∨ c = 4) :=
    List.countP_congr fun c hc => by rw [hmixed c (List.mem_range.mp hc)]
  rw [hcount]
  decide

/-- Four base entries, and half of the positions drawn: two of three shuffled entries come at the
second and the fifth position. -/
theorem cocktail_exact_half :
    ∃ output, serve (fun _ list => list.reverse) (fun _ => halfOfBlock) some
        (some [ofString "gulls/1", ofString "gulls/2", ofString "gulls/3", ofString "gulls/4"])
        (ofString "d_42_50")
        (some [ofString "birds/1", ofString "birds/2", ofString "birds/3"]) 0 (-1) = .ok output ∧
      Exact some [ofString "gulls/1", ofString "gulls/2", ofString "gulls/3", ofString "gulls/4"]
        [ofString "birds/3", ofString "birds/2", ofString "birds/1"] (5000 * 4 / 10000) output := by
  have hparams : decodeParams (ofString "d_42_50") = .ok (some 42, tenThousandths 5000) := by
    decide +kernel
  have hportion : portion (tenThousandths 5000) 4 = .ok 2 := by decide +kernel
  have hbase : baseEntries [ofString "gulls/1", ofString "gulls/2", ofString "gulls/3",
      ofString "gulls/4"] 0 (-1) ≠ [] := List.cons_ne_nil _ _
  exact (cocktail_exact_iff (fun _ list => list.reverse_perm) hparams hbase
    (List.cons_ne_nil _ _) (fun _ => outcome_half) fun _ _ => rfl).mpr ⟨hportion, mixedBelow_half⟩

/-- One base entry, and the default percentage drawn at its position: nothing is to be added, but
the mixed entry comes in place of the base entry. -/
theorem base_entry_replaced :
    decodeParams (ofString "d_15310") = .ok (some 15310, tenThousandths 1) ∧
      Outcome (tenThousandths 1) [0] ∧
      ¬ ∃ output, serve (fun _ list => list) (fun _ => [0]) some (some [ofString "gulls/1"])
          (ofString "d_15310") (some [ofString "birds/2"]) 0 (-1) = .ok output ∧
        Exact some [ofString "gulls/1"] [ofString "birds/2"] (1 * 1 / 10000) output := by
  refine ⟨by decide +kernel, outcome_default (by decide), ?_⟩
  rintro ⟨output, houtput, hexact⟩
  have hlefts : (serve (fun _ list => list) (fun _ => [0]) some (some [ofString "gulls/1"])
      (ofString "d_15310") (some [ofString "birds/2"]) 0 (-1)).map
        (fun output => lefts output.sources) = .ok [] := by decide +kernel
  rw [houtput] at hlefts
  have hbase : lefts output.sources = [] := Except.ok.inj hlefts
  rw [hexact.base] at hbase
  exact List.cons_ne_nil _ _ hbase

end OpenDiamond.MixerStore
