import OpenDiamond.ResultCache
import OpenDiamond.Lib.Derivations
import Mathlib.Data.Finset.Card

/-!
# The walk through the cached results computes a least set

The cached results form a graph: a runner needs its input attributes, and a
runner offers the signatures of its output attributes. The walk returns a drop
exactly when a runner whose result fails its threshold is in the least set of
runners whose inputs are met inside the set. The memo keeps successes only, and
the runners in process cut cycles; neither loses a derivation.
-/

namespace OpenDiamond.CachedWalk

open Lib.OrderedDict Lib.Derivations DiamondObject FilterProtocol FilterStackRunner ResultCache

variable {m : Murmur}

/-- An input attribute: its name and its signature, none for a read that
failed. -/
abbrev Input := String × Option Signature

/-- The runner has a cached result whose output of that name has the signature
of the input, which is one. -/
def Produces (cacheResults : Dict ℕ FilterResult) (input : Input) (runner : ℕ) : Prop :=
  ∃ valsig, input.2 = some valsig ∧
    (cacheResults.get? runner).bind (·.outputAttrs.get? input.1) = some valsig

/-- The cached results as a graph of inputs and outputs. -/
def cachedGraph (cacheResults : Dict ℕ FilterResult) : Lib.Derivations.Graph ℕ Input where
  needs runner := (cacheResults.get? runner).map (·.inputAttrs.entries)
  offers := Produces cacheResults

section Walk

variable {cacheResults : Dict ℕ FilterResult}
  {recurse : Resolved → ℕ → Option (Finset ℕ) × Resolved}

/-- A cached runner is met by known ones exactly when each of its inputs is produced by one of
them. -/
theorem metBy_iff (known : Set ℕ) (i : ℕ) :
    (cachedGraph cacheResults).MetBy known i ↔ ∃ result, cacheResults.get? i = some result ∧
      ∀ input ∈ result.inputAttrs.entries, ∃ j ∈ known, Produces cacheResults input j := by
  constructor
  · rintro ⟨inputs, hinputs, hmet⟩
    obtain ⟨result, hresult, rfl⟩ := Option.map_eq_some_iff.mp hinputs
    exact ⟨result, hresult, hmet⟩
  · rintro ⟨result, hresult, hmet⟩
    exact ⟨_, Option.map_eq_some_iff.mpr ⟨result, hresult, rfl⟩, hmet⟩

/-- A producer of an input is on the list the loop goes through. -/
theorem mem_outputRunners {key : String} {valsig : Signature} {cur : ℕ}
    (h : (cacheResults.get? cur).bind (·.outputAttrs.get? key) = some valsig) :
    cur ∈ outputRunners cacheResults key := by
  obtain ⟨result, hresult, hkey⟩ := Option.bind_eq_some_iff.mp h
  have hmem := (cacheResults.get?_eq_some_iff cur result).mp hresult
  exact List.mem_filterMap.mpr ⟨(cur, result), hmem, by simp [hkey]⟩

/-! ## What a returned set is -/

/-- A set of runners that explains why a runner can be resolved: it has the
runner, and a producer inside the set for each input of each member. -/
structure Explains (cacheResults : Dict ℕ FilterResult) (runner : ℕ) (deps : Finset ℕ) : Prop where
  /-- The runner itself. -/
  member : runner ∈ deps
  /-- All members are in the least set. -/
  derivable : (deps : Set ℕ) ⊆ (cachedGraph cacheResults).derivable
  /-- Each input of a member has a producer in the set. -/
  supported : (cachedGraph cacheResults).Supported deps

/-- Every set in the memo explains its runner. -/
def MemoExplains (cacheResults : Dict ℕ FilterResult) (resolved : Resolved) : Prop :=
  ∀ i deps, resolved.get? i = some deps → Explains cacheResults i deps

/-- A call of `resolve` keeps the memo, and a set it returns explains the
runner. -/
def RecurseExplains (cacheResults : Dict ℕ FilterResult)
    (recurse : Resolved → ℕ → Option (Finset ℕ) × Resolved) : Prop :=
  ∀ resolved runner, MemoExplains cacheResults resolved →
    MemoExplains cacheResults (recurse resolved runner).2 ∧
      ∀ deps, (recurse resolved runner).1 = some deps → Explains cacheResults runner deps

/-- Looking for the producer of an input only remembers runners that can be explained, if the
recursion does. -/
theorem resolveInput_explains (hrec : RecurseExplains cacheResults recurse) (key : String)
    (valsig : Signature) (candidates : List ℕ) (resolved : Resolved)
    (hs : MemoExplains cacheResults resolved) :
    let found := resolveInput cacheResults recurse key valsig candidates resolved
    MemoExplains cacheResults found.2 ∧ (∀ deps, found.1 = some deps → ∃ cur,
      Produces cacheResults (key, some valsig) cur ∧ Explains cacheResults cur deps) := by
  induction candidates generalizing resolved with
  | nil => exact ⟨hs, fun deps h => by simp [resolveInput] at h⟩
  | cons cur rest ih =>
    simp only [resolveInput]
    split
    · rename_i hval
      obtain ⟨hkeep, hset⟩ := hrec resolved cur hs
      rcases hcall : recurse resolved cur with ⟨_ | found, resolved'⟩
      · rw [hcall] at hkeep
        exact ih resolved' hkeep
      · rw [hcall] at hkeep hset
        refine ⟨hkeep, fun deps hdeps => ?_⟩
        cases hdeps
        exact ⟨cur, ⟨valsig, rfl, hval⟩, hset found rfl⟩
    · exact ih resolved hs

/-- The loop over the inputs adds, for each of them, a producer with all that
explains it. -/
theorem resolveInputs_explains (hrec : RecurseExplains cacheResults recurse)
    (inputs : List Input) (dependencies : Finset ℕ) (resolved : Resolved)
    (hs : MemoExplains cacheResults resolved) :
    let found := resolveInputs cacheResults recurse inputs dependencies resolved
    MemoExplains cacheResults found.2 ∧ (∀ deps, found.1 = some deps →
      ∃ added : Finset ℕ, deps = dependencies ∪ added ∧
        (added : Set ℕ) ⊆ (cachedGraph cacheResults).derivable ∧
        (cachedGraph cacheResults).Supported added ∧
        ∀ input ∈ inputs, ∃ j ∈ (added : Set ℕ), Produces cacheResults input j) := by
  induction inputs generalizing dependencies resolved with
  | nil =>
    refine ⟨hs, fun deps hdeps => ⟨∅, ?_, by simp, fun i hi => by simp at hi, by simp⟩⟩
    simp only [resolveInputs, Option.some.injEq] at hdeps
    simp [hdeps]
  | cons input rest ih =>
    rcases input with ⟨key, _ | valsig⟩
    · exact ⟨hs, fun deps h => by simp [resolveInputs] at h⟩
    · obtain ⟨hkeep, hfound⟩ := resolveInput_explains hrec key valsig
        (outputRunners cacheResults key) resolved hs
      simp only [resolveInputs]
      rcases hcall : resolveInput cacheResults recurse key valsig (outputRunners cacheResults key)
        resolved with ⟨_ | curDeps, resolved'⟩
      · rw [hcall] at hkeep
        exact ⟨hkeep, fun deps h => by simp at h⟩
      · rw [hcall] at hkeep hfound
        obtain ⟨cur, hproduces, hcur⟩ := hfound curDeps rfl
        obtain ⟨hkeep', hrest⟩ := ih (dependencies ∪ curDeps) resolved' hkeep
        refine ⟨hkeep', fun deps hdeps => ?_⟩
        obtain ⟨added, hunion, hder, hsupp, hmet⟩ := hrest deps hdeps
        refine ⟨curDeps ∪ added, by rw [hunion, Finset.union_assoc], ?_, ?_, ?_⟩
        · rw [Finset.coe_union]
          exact Set.union_subset hcur.derivable hder
        · rw [Finset.coe_union]
          exact hcur.supported.union hsupp
        · intro input hinput
          rw [Finset.coe_union]
          rcases List.mem_cons.mp hinput with rfl | hinput
          · exact ⟨cur, Or.inl hcur.member, hproduces⟩
          · obtain ⟨j, hj, hproducer⟩ := hmet input hinput
            exact ⟨j, Or.inr hj, hproducer⟩

/-- A runner with all that explains its inputs explains the runner. -/
theorem explains_insert {runner : ℕ} {result : FilterResult} {added : Finset ℕ}
    (hresult : cacheResults.get? runner = some result)
    (hder : (added : Set ℕ) ⊆ (cachedGraph cacheResults).derivable)
    (hsupp : (cachedGraph cacheResults).Supported added)
    (hmet : ∀ input ∈ result.inputAttrs.entries, ∃ j ∈ (added : Set ℕ),
      Produces cacheResults input j) :
    Explains cacheResults runner ({runner} ∪ added) := by
  have hrunner : (cachedGraph cacheResults).MetBy added runner :=
    (metBy_iff _ _).mpr ⟨result, hresult, hmet⟩
  rw [← Finset.insert_eq]
  refine ⟨Finset.mem_insert_self runner added, ?_, ?_⟩
  · rw [Finset.coe_insert]
    exact Set.insert_subset (Graph.derivable_of_metBy (hrunner.mono hder)) hder
  · rw [Finset.coe_insert]
    exact hsupp.insert hrunner

/-- Whatever the walk remembers or returns can be derived from results without inputs; the induction
is on its depth. -/
theorem resolve_explains (depth : ℕ) (inprocess : Finset ℕ) :
    RecurseExplains cacheResults (resolve cacheResults depth inprocess) := by
  induction depth generalizing inprocess with
  | zero => exact fun resolved runner hs => ⟨hs, fun deps h => by simp [resolve] at h⟩
  | succ depth ih =>
    intro resolved runner hs
    unfold resolve
    split
    · rename_i memo hmemo
      refine ⟨hs, fun deps hdeps => ?_⟩
      cases hdeps
      exact hs runner memo hmemo
    · split
      · exact ⟨hs, fun deps h => by simp at h⟩
      · rename_i result hresult
        split
        · exact ⟨hs, fun deps h => by simp at h⟩
        · obtain ⟨hkeep, hinputs⟩ := resolveInputs_explains (ih (insert runner inprocess))
            result.inputAttrs.entries {runner} resolved hs
          rcases hcall : resolveInputs cacheResults
            (resolve cacheResults depth (insert runner inprocess)) result.inputAttrs.entries
            {runner} resolved with ⟨_ | found, resolved'⟩
          · rw [hcall] at hkeep
            exact ⟨hkeep, fun deps h => by simp at h⟩
          · rw [hcall] at hkeep hinputs
            obtain ⟨added, rfl, hder, hsupp, hmet⟩ := hinputs found rfl
            have hexplains := explains_insert hresult hder hsupp hmet
            refine ⟨fun i deps hi => ?_, fun deps hdeps => ?_⟩
            · rw [Dict.get?_set] at hi
              split at hi
              · rename_i heq
                cases hi
                exact heq ▸ hexplains
              · exact hkeep i deps hi
            · cases hdeps
              exact hexplains

/-! ## What the walk finds -/

/-- A producer that can be resolved is found among the candidates. -/
theorem resolveInput_isSome {key : String} {valsig : Signature} {cur : ℕ}
    (hval : (cacheResults.get? cur).bind (·.outputAttrs.get? key) = some valsig)
    (hcur : ∀ resolved, (recurse resolved cur).1.isSome) {candidates : List ℕ}
    (hmem : cur ∈ candidates) (resolved : Resolved) :
    (resolveInput cacheResults recurse key valsig candidates resolved).1.isSome := by
  induction candidates generalizing resolved with
  | nil => simp at hmem
  | cons first rest ih =>
    simp only [resolveInput]
    by_cases hfirst : first = cur
    · have hsome := hcur resolved
      rw [hfirst, if_pos hval]
      rcases hcall : recurse resolved cur with ⟨_ | deps, resolved'⟩
      · rw [hcall] at hsome
        cases hsome
      · rfl
    · have hrest : cur ∈ rest := (List.mem_cons.mp hmem).resolve_left (Ne.symm hfirst)
      split
      · rcases recurse resolved first with ⟨_ | deps, resolved'⟩
        · exact ih hrest resolved'
        · rfl
      · exact ih hrest resolved

/-- All inputs are resolved where each has a producer that can be. -/
theorem resolveInputs_isSome {inputs : List Input}
    (h : ∀ input ∈ inputs, ∃ cur, Produces cacheResults input cur ∧
      ∀ resolved, (recurse resolved cur).1.isSome) (dependencies : Finset ℕ)
    (resolved : Resolved) :
    (resolveInputs cacheResults recurse inputs dependencies resolved).1.isSome := by
  induction inputs generalizing dependencies resolved with
  | nil => rfl
  | cons input rest ih =>
    obtain ⟨cur, ⟨valsig, hvalsig, hval⟩, hcur⟩ := h input List.mem_cons_self
    have hrest := ih fun other hother => h other (List.mem_cons_of_mem input hother)
    rcases input with ⟨key, signature⟩
    subst hvalsig
    have hfound := resolveInput_isSome hval hcur (mem_outputRunners hval) resolved
    simp only [resolveInputs]
    rcases hcall : resolveInput cacheResults recurse key valsig (outputRunners cacheResults key)
      resolved with ⟨_ | curDeps, resolved'⟩
    · rw [hcall] at hfound
      cases hfound
    · exact hrest (dependencies ∪ curDeps) resolved'

/-- The runners with a cached result. -/
def cachedRunners (cacheResults : Dict ℕ FilterResult) : Finset ℕ := cacheResults.keys.toFinset

/-- A runner with a result is among the cached ones. -/
theorem mem_cachedRunners {runner : ℕ} {result : FilterResult}
    (h : cacheResults.get? runner = some result) : runner ∈ cachedRunners cacheResults := by
  rw [cachedRunners, List.mem_toFinset, Dict.mem_keys_iff, h]
  rfl

/-- What is left of the depth is enough for the runners not in process. -/
structure DeepEnough (cacheResults : Dict ℕ FilterResult) (inprocess : Finset ℕ) (depth : ℕ) :
    Prop where
  /-- Only runners with a cached result are in process. -/
  cached : inprocess ⊆ cachedRunners cacheResults
  /-- One level for each runner left, and one for the call. -/
  room : (cachedRunners cacheResults).card < depth + inprocess.card

/-- There is always one more level for the runner at hand. -/
theorem DeepEnough.depth_pos {inprocess : Finset ℕ} {depth : ℕ}
    (h : DeepEnough cacheResults inprocess depth) : 0 < depth := by
  have hcard := Finset.card_le_card h.cached
  have hroom := h.room
  omega

/-- A runner that is taken up uses one level, and is not taken up again below it. -/
theorem DeepEnough.insert {inprocess : Finset ℕ} {depth runner : ℕ} {result : FilterResult}
    (h : DeepEnough cacheResults inprocess (depth + 1))
    (hresult : cacheResults.get? runner = some result) (hnew : runner ∉ inprocess) :
    DeepEnough cacheResults (insert runner inprocess) depth := by
  refine ⟨Finset.insert_subset (mem_cachedRunners hresult) h.cached, ?_⟩
  have hroom := h.room
  rw [Finset.card_insert_of_notMem hnew]
  omega

/-- More levels than results are enough. -/
theorem deepEnough_start {depth : ℕ} (h : cacheResults.entries.length < depth) :
    DeepEnough cacheResults ∅ depth := by
  refine ⟨Finset.empty_subset _, ?_⟩
  have hcard := List.toFinset_card_le cacheResults.keys
  rw [Dict.keys, List.length_map] at hcard
  rw [Finset.card_empty, cachedRunners, Dict.keys]
  omega

/-- A runner with a derivation that avoids the runners in process is found,
whatever is tried before and whatever the memo holds. -/
theorem resolve_isSome {depth : ℕ} {inprocess : Finset ℕ}
    (hdeep : DeepEnough cacheResults inprocess depth) {runner : ℕ}
    (h : ∃ n, runner ∈ (cachedGraph cacheResults).within inprocess n) (resolved : Resolved) :
    (resolve cacheResults depth inprocess resolved runner).1.isSome := by
  induction depth generalizing inprocess runner resolved with
  | zero => exact absurd hdeep.depth_pos (lt_irrefl 0)
  | succ depth ih =>
    obtain ⟨hnew, n, hmet⟩ := Graph.metBy_within_insert h
    obtain ⟨result, hresult, hinputs⟩ := (metBy_iff _ _).mp hmet
    have hnew' : runner ∉ inprocess := fun hmem => hnew (Finset.mem_coe.mpr hmem)
    have hsome : (resolveInputs cacheResults
        (resolve cacheResults depth (insert runner inprocess)) result.inputAttrs.entries
        {runner} resolved).1.isSome := by
      refine resolveInputs_isSome (fun input hinput => ?_) {runner} resolved
      obtain ⟨cur, hcur, hproduces⟩ := hinputs input hinput
      rw [← Finset.coe_insert] at hcur
      exact ⟨cur, hproduces, ih (hdeep.insert hresult hnew') ⟨n, hcur⟩⟩
    unfold resolve
    cases hmemo : resolved.get? runner with
    | some deps => rfl
    | none =>
      simp only [hresult, if_neg hnew']
      rcases hcall : resolveInputs cacheResults
        (resolve cacheResults depth (insert runner inprocess)) result.inputAttrs.entries
        {runner} resolved with ⟨_ | deps, resolved'⟩
      · rw [hcall] at hsome
        cases hsome
      · rfl

/-- The depth never ends a call: with room for the runners left, any two depths
give the same outcome. -/
theorem resolve_depth {depth depth' : ℕ} {inprocess : Finset ℕ}
    (hdeep : DeepEnough cacheResults inprocess depth)
    (hdeep' : DeepEnough cacheResults inprocess depth') :
    resolve cacheResults depth inprocess = resolve cacheResults depth' inprocess := by
  induction depth generalizing depth' inprocess with
  | zero => exact absurd hdeep.depth_pos (lt_irrefl 0)
  | succ depth ih =>
    obtain ⟨depth', rfl⟩ := Nat.exists_eq_succ_of_ne_zero hdeep'.depth_pos.ne'
    funext resolved runner
    unfold resolve
    cases resolved.get? runner with
    | some deps => rfl
    | none =>
      cases hresult : cacheResults.get? runner with
      | none => rfl
      | some result =>
        by_cases hin : runner ∈ inprocess
        · simp only [if_pos hin]
        · simp only [if_neg hin]
          rw [ih (hdeep.insert hresult hin) (hdeep'.insert hresult hin)]

/-- A result that fails the threshold of its runner. -/
def FailsThreshold (runners : List Runner) (cacheResults : Dict ℕ FilterResult) (i : ℕ) : Prop :=
  ∃ result runner, cacheResults.get? i = some result ∧ runners[i]? = some runner ∧
    runner.threshold result = false

/-- A returned set explains some runner whose result fails its threshold. -/
theorem resultCacheCanDrop_explains {runners : List Runner} {deps : Finset ℕ}
    (h : resultCacheCanDrop runners cacheResults = some deps) :
    ∃ i, FailsThreshold runners cacheResults i ∧ Explains cacheResults i deps := by
  have hmemo : MemoExplains cacheResults Dict.empty := fun i deps hi => by simp at hi
  obtain ⟨i, result, runner, hresult, hrunner, hfail, hexplains⟩ :=
    resultCacheCanDrop_of_resolve hmemo
      (fun resolved i hresolved =>
        resolve_explains (cacheResults.entries.length + 1) ∅ resolved i hresolved) h
  exact ⟨i, ⟨result, runner, hresult, hrunner, hfail⟩, hexplains⟩

/-- A derivable result that fails its threshold is found. -/
theorem resultCacheCanDrop_isSome {runners : List Runner} {i : ℕ}
    (hfails : FailsThreshold runners cacheResults i)
    (hder : i ∈ (cachedGraph cacheResults).derivable) :
    (resultCacheCanDrop runners cacheResults).isSome := by
  obtain ⟨result, runner, hi, hrunner, hfail⟩ := hfails
  have hmem := (cacheResults.get?_eq_some_iff i result).mp hi
  have hfound : ∀ resolved, (resolve cacheResults (cacheResults.entries.length + 1) ∅
      resolved i).1.isSome := by
    refine resolve_isSome (deepEnough_start (Nat.lt_succ_self _)) ?_
    rw [Finset.coe_empty]
    exact Graph.exists_within_of_derivable hder
  unfold resultCacheCanDrop
  generalize cacheResults.entries = entries at hmem
  generalize Dict.empty = resolved
  induction entries generalizing resolved with
  | nil => simp at hmem
  | cons entry rest ih =>
    simp only [findDrop]
    rcases List.mem_cons.mp hmem with rfl | hmem
    · have hsome := hfound resolved
      simp only [hrunner, hfail, Bool.false_eq_true, if_false]
      rcases hcall : resolve cacheResults (cacheResults.entries.length + 1) ∅ resolved i with
        ⟨_ | deps, resolved'⟩
      · rw [hcall] at hsome
        cases hsome
      · rfl
    · have hrest := ih hmem
      split
      · split
        · exact hrest resolved
        · split
          · rfl
          · exact hrest _
      · exact hrest resolved

end Walk

/-- The walk through the cached results computes the least set. Its depth never
ends a call. It returns a drop exactly when some runner whose cached score
fails its threshold is in the least set of runners with a cached result whose
inputs are all produced inside the set. The runners it then notifies are such
runners, one of those that fail is among them, and with each of them a producer
of each of its inputs. -/
theorem resultCacheCanDrop_computes_least (runners : List Runner)
    (cacheResults : Dict ℕ FilterResult) :
    (∀ depth, cacheResults.entries.length < depth →
      resolve cacheResults depth ∅ =
        resolve cacheResults (cacheResults.entries.length + 1) ∅) ∧
    ((resultCacheCanDrop runners cacheResults).isSome ↔
      ∃ i ∈ (cachedGraph cacheResults).derivable, FailsThreshold runners cacheResults i) ∧
    ∀ deps, resultCacheCanDrop runners cacheResults = some deps →
      (deps : Set ℕ) ⊆ (cachedGraph cacheResults).derivable ∧
      (∃ i ∈ deps, FailsThreshold runners cacheResults i) ∧
      ∀ i ∈ deps, ∃ result, cacheResults.get? i = some result ∧
        ∀ input ∈ result.inputAttrs.entries, ∃ j ∈ deps, Produces cacheResults input j := by
  refine ⟨fun depth hdepth => ?_, ⟨fun h => ?_, fun h => ?_⟩, fun deps h => ?_⟩
  · exact resolve_depth (deepEnough_start hdepth) (deepEnough_start (Nat.lt_succ_self _))
  · obtain ⟨deps, hdeps⟩ := Option.isSome_iff_exists.mp h
    obtain ⟨i, hfails, hexplains⟩ := resultCacheCanDrop_explains hdeps
    exact ⟨i, hexplains.derivable (Finset.mem_coe.mpr hexplains.member), hfails⟩
  · obtain ⟨i, hder, hfails⟩ := h
    exact resultCacheCanDrop_isSome hfails hder
  · obtain ⟨i, hfails, hexplains⟩ := resultCacheCanDrop_explains h
    refine ⟨hexplains.derivable, ⟨i, hexplains.member, hfails⟩, fun j hj => ?_⟩
    obtain ⟨result, hresult, hmet⟩ := (metBy_iff _ _).mp (hexplains.supported j hj)
    exact ⟨result, hresult, fun input hinput => by simpa using hmet input hinput⟩

end OpenDiamond.CachedWalk
