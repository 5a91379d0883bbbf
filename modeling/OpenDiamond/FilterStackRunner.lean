import OpenDiamond.AttributeCache
import OpenDiamond.ResultKeys
import OpenDiamond.Lib.Runs

/-!
# `FilterStackRunner._evaluate`

The runners of a search, the walk through the cached results that decides
about a drop without running anything, the loop that runs each filter or
loads its cached result, and the update of the caches. Runners are told apart
by identity in the program and by their position here. Loading the data of an
object and writing a score as a text are parameters.
-/

namespace OpenDiamond.FilterStackRunner

open Lib.OrderedDict Lib.Binary64 Lib.Runs DiamondObject FilterProtocol AttributeCache ResultKeys

variable {m : Murmur}

/-! ## Runners -/

/-- A `Filter` after `resolve`. -/
structure Filter where
  /-- Code, name, arguments and blob. -/
  config : FilterConfig
  /-- `min_score`. -/
  minScore : Double
  /-- `max_score`. -/
  maxScore : Double
  /-- Names of the filters that have to run before. -/
  dependencies : List String
  deriving DecidableEq

/-- `_ObjectFetcher` and `_FilterRunner`. -/
inductive Runner where
  | fetcher
  | filterRunner (filter : Filter)
  deriving DecidableEq

/-- What `ObjectLoader.load` does to an object: the attributes it assigns and
the exception that ends it, if one does. -/
structure Loading where
  /-- Assignments, in order. -/
  items : List (String × Bytes)
  /-- The exception, after those assignments. -/
  failure : Option Failure

/-- The surroundings of an evaluation. The filters are deterministic: a filter
process is known by its code, name, arguments and blob. -/
structure Search (m : Murmur) where
  /-- `ObjectLoader.load`. -/
  load : Object m → Loading
  /-- What the process of a filter does with an object. -/
  behaviour : FilterConfig → Proc Unit
  /-- Every behaviour is a function of the answers about the object. -/
  deterministic : ∀ config, Deterministic (behaviour config)
  /-- `str` of a score. -/
  scoreText : Double → String

/-- The runners of a stack: the fetcher, then one for each filter. -/
def bindRunners (filters : List Filter) : List Runner := .fetcher :: filters.map .filterRunner

namespace Runner

/-- `_get_cache_digest`. -/
def getCacheDigest (m : Murmur) : Runner → String
  | .fetcher => "dataretriever"
  | .filterRunner filter => filter.config.cacheDigest m

/-- `threshold`. -/
def threshold (result : FilterResult) : Runner → Bool
  | .fetcher => true
  | .filterRunner filter =>
    filter.minScore.le result.score && result.score.le filter.maxScore

/-- `evaluate`: the result or the exception, and the object. -/
def evaluate (search : Search m) (slow : Bool) (obj : Object m) :
    Runner → Except Failure FilterResult × Object m
  | .fetcher =>
    let loading := search.load obj
    let obj := obj.setItems loading.items
    match loading.failure with
    | some failure => (.error failure, obj)
    | none =>
      -- every attribute of the object is an output, also the default ones
      (.ok { FilterResult.new with
        outputAttrs := obj.attrs.mapValues (signatureOf m obj.computeSignature) }, obj)
  | .filterRunner filter =>
    let report := evaluateBody (search.behaviour filter.config) slow obj
    (report.outcome, report.obj)

end Runner

/-- `ATTR_FILTER_SCORE % runner`. -/
def scoreAttr (name : String) : String := "_filter." ++ name ++ "_score"

/-- `if runner.send_score`: the score of a filter requested by the client is
stored in the object as a text. -/
def storeScore (search : Search m) (obj : Object m) (result : FilterResult) : Runner → Object m
  | .fetcher => obj
  | .filterRunner filter =>
    obj.setItem (scoreAttr filter.config.name)
      (encodeText (search.scoreText result.score ++ "\x00"))

/-! ## The walk through the cached results -/

/-- Runners with their resolved dependencies. -/
abbrev Resolved := Dict ℕ (Finset ℕ)

/-- `output_attrs.get(key, ())`: the runners whose cached result has the
output, in order. -/
def outputRunners (cacheResults : Dict ℕ FilterResult) (key : String) : List ℕ :=
  cacheResults.entries.filterMap fun entry =>
    if (entry.2.outputAttrs.get? key).isSome then some entry.1 else none

/-- The loop over the runners that generated an input attribute: the first one
with the right value that can be resolved. -/
def resolveInput (cacheResults : Dict ℕ FilterResult)
    (resolve : Resolved → ℕ → Option (Finset ℕ) × Resolved) (key : String) (valsig : Signature) :
    List ℕ → Resolved → Option (Finset ℕ) × Resolved
  | [], resolved => (none, resolved)
  | cur :: rest, resolved =>
    if (cacheResults.get? cur).bind (·.outputAttrs.get? key) = some valsig then
      match resolve resolved cur with
      | (some deps, resolved) => (some deps, resolved)
      | (none, resolved) => resolveInput cacheResults resolve key valsig rest resolved
    else resolveInput cacheResults resolve key valsig rest resolved

/-- The loop over the input attributes of a cached result. A read that failed
cannot be resolved. -/
def resolveInputs (cacheResults : Dict ℕ FilterResult)
    (resolve : Resolved → ℕ → Option (Finset ℕ) × Resolved) :
    List (String × Option Signature) → Finset ℕ → Resolved → Option (Finset ℕ) × Resolved
  | [], dependencies, resolved => (some dependencies, resolved)
  | (_, none) :: _, _, resolved => (none, resolved)
  | (key, some valsig) :: rest, dependencies, resolved =>
    match resolveInput cacheResults resolve key valsig (outputRunners cacheResults key) resolved with
    | (some curDeps, resolved) =>
      resolveInputs cacheResults resolve rest (dependencies ∪ curDeps) resolved
    | (none, resolved) => (none, resolved)

/-- `resolve` inside `_result_cache_can_drop`. The set `inprocess` is restored
on the way out; it bounds the depth, which the first argument counts. -/
def resolve (cacheResults : Dict ℕ FilterResult) :
    ℕ → Finset ℕ → Resolved → ℕ → Option (Finset ℕ) × Resolved
  | 0, _, resolved, _ => (none, resolved)
  | depth + 1, inprocess, resolved, runner =>
    match resolved.get? runner with
    | some dependencies => (some dependencies, resolved)
    | none =>
      match cacheResults.get? runner with
      | none => (none, resolved)
      | some result =>
        if runner ∈ inprocess then (none, resolved)
        else
          match resolveInputs cacheResults
              (resolve cacheResults depth (insert runner inprocess))
              result.inputAttrs.entries {runner} resolved with
          | (some dependencies, resolved) =>
            (some dependencies, resolved.set runner dependencies)
          | (none, resolved) => (none, resolved)

/-- The loop over the results that would drop the object: the runners to
notify if one of them can be resolved. -/
def findDrop (runners : List Runner) (cacheResults : Dict ℕ FilterResult) :
    List (ℕ × FilterResult) → Resolved → Option (Finset ℕ)
  | [], _ => none
  | (runner, result) :: rest, resolved =>
    match runners[runner]? with
    | some r =>
      if r.threshold result then findDrop runners cacheResults rest resolved
      else
        match resolve cacheResults (cacheResults.entries.length + 1) ∅ resolved runner with
        | (some deps, _) => some deps
        | (none, resolved) => findDrop runners cacheResults rest resolved
    | none => findDrop runners cacheResults rest resolved

/-- `_result_cache_can_drop`: the runners whose cached results take part in
the drop, or none for False. -/
def resultCacheCanDrop (runners : List Runner) (cacheResults : Dict ℕ FilterResult) :
    Option (Finset ℕ) :=
  findDrop runners cacheResults cacheResults.entries Dict.empty

/-! ## The evaluation loop -/

/-- What the program does not decide: how fast a filter was, and whether Redis
takes the new entries. -/
structure Chance where
  /-- The throughput of a runner was below the threshold. -/
  slow : ℕ → Bool
  /-- `mset` raised `ResponseError`. -/
  msetFails : Bool

/-- Load the cached result of a runner into the object, or run it. -/
def loadOrRun (search : Search m) (redis : Option Redis) (cacheResults : Dict ℕ FilterResult)
    (slow : ℕ → Bool) (i : ℕ) (runner : Runner) (obj : Object m)
    (newResults : Dict ℕ FilterResult) :
    Except Failure FilterResult × Object m × Dict ℕ FilterResult :=
  match (cacheResults.get? i).bind fun cached =>
      (attributeCacheTryLoad redis obj cached).map (Prod.mk cached) with
  | some (cached, loaded) => (.ok cached, loaded, newResults)
  | none =>
    match runner.evaluate search (slow i) obj with
    | (.ok result, obj) => (.ok result, obj, newResults.set i result)
    | (.error failure, obj) => (.error failure, obj, newResults)

/-- How the loop ended: the verdict or an exception, the object, and the
results of the runners that were run. -/
structure LoopEnd (m : Murmur) where
  /-- The verdict or the exception. -/
  verdict : Except Failure Bool
  /-- The object. -/
  obj : Object m
  /-- `new_results`. -/
  newResults : Dict ℕ FilterResult

/-- The loop of `_evaluate` over the runners, each with its position. -/
def runLoop (search : Search m) (redis : Option Redis) (cacheResults : Dict ℕ FilterResult)
    (slow : ℕ → Bool) : List (Runner × ℕ) → Object m → Dict ℕ FilterResult → LoopEnd m
  | [], obj, newResults => ⟨.ok true, obj, newResults⟩
  | (runner, i) :: rest, obj, newResults =>
    match loadOrRun search redis cacheResults slow i runner obj newResults with
    | (.error failure, obj, newResults) => ⟨.error failure, obj, newResults⟩
    | (.ok result, obj, newResults) =>
      if runner.threshold result then
        runLoop search redis cacheResults slow rest (storeScore search obj result runner) newResults
      else ⟨.ok false, obj, newResults⟩

/-- The exceptions `_evaluate` turns into a drop. -/
def handled : Except Failure Bool → Except Failure Bool
  | .error .objectLoadError => .ok false
  | .error .dropObject => .ok false
  | verdict => verdict

/-- Attribute cache entries for one result, against the final object: a value
that a later filter replaced is not stored. -/
def cacheOutputs (obj : Object m) (result : FilterResult) (redis : Redis) : Redis :=
  if result.cacheOutput then
    result.outputAttrs.entries.foldl (fun redis entry =>
      match getAttributeKey entry.2, obj.attrs.get? entry.1 with
      | some key, some value =>
        if obj.getSignature entry.1 = some entry.2 then
          { redis with attributes := redis.attributes.set key value }
        else redis
      | _, _ => redis) redis
  else redis

/-- The `finally` clause of `_evaluate`. -/
def updateCache (cacheKey : ℕ → String) (obj : Object m) (newResults : Dict ℕ FilterResult)
    (redis : Redis) : Redis :=
  newResults.entries.foldl (fun redis entry =>
    cacheOutputs obj entry.2
      { redis with results := redis.results.set (cacheKey entry.1) (stored entry.2) }) redis

/-- `cache_keys[r]` for the runner at a position. -/
def cacheKey (runners : List Runner) (obj : Object m) (i : ℕ) : String :=
  match runners[i]? with
  | some runner => getCacheKey m (runner.getCacheDigest m) obj.id
  | none => ""

/-- `cache_results`: the stored results of the runners, in order. -/
def cachedEntries (redis : Redis) (obj : Object m) (runners : List Runner) :
    List (ℕ × FilterResult) :=
  runners.zipIdx.filterMap fun entry =>
    (redis.results.get? (getCacheKey m (entry.1.getCacheDigest m) obj.id)).map (Prod.mk entry.2)

theorem cachedEntries_keys_sublist (redis : Redis) (obj : Object m) (runners : List Runner) :
    ((cachedEntries redis obj runners).map Prod.fst).Sublist
      (runners.zipIdx.map Prod.snd) := by
  unfold cachedEntries
  induction runners.zipIdx with
  | nil => exact List.Sublist.refl []
  | cons entry rest ih =>
    rw [List.filterMap_cons]
    cases redis.results.get? (getCacheKey m (entry.1.getCacheDigest m) obj.id) with
    | none => exact ih.cons entry.2
    | some result => exact ih.cons_cons entry.2

/-- The cached results of the runners by position; without Redis there are
none. -/
def lookupResults (redis : Option Redis) (obj : Object m) (runners : List Runner) :
    Dict ℕ FilterResult :=
  match redis with
  | none => Dict.empty
  | some redis =>
    ⟨cachedEntries redis obj runners,
      (cachedEntries_keys_sublist redis obj runners).nodup (by
        rw [List.zipIdx_map_snd]
        exact List.nodup_range')⟩

/-- What a call of `_evaluate` leaves behind. -/
structure Evaluation (m : Murmur) where
  /-- The verdict or the exception. -/
  verdict : Except Failure Bool
  /-- `_result_cache_can_drop` returned True. -/
  cachedDrop : Bool
  /-- The object. -/
  obj : Object m
  /-- The database. -/
  redis : Option Redis

/-- `_evaluate`; `redis` is none when caching is not enabled. -/
def evaluateObject (search : Search m) (runners : List Runner) (redis : Option Redis)
    (chance : Chance) (obj : Object m) : Evaluation m :=
  let cacheResults := lookupResults redis obj runners
  match resultCacheCanDrop runners cacheResults with
  | some _ => ⟨.ok false, true, obj, redis⟩
  | none =>
    let loop := runLoop search redis cacheResults chance.slow runners.zipIdx obj Dict.empty
    let redis := redis.map fun redis =>
      if chance.msetFails then redis
      else updateCache (cacheKey runners obj) loop.obj loop.newResults redis
    ⟨handled loop.verdict, false, loop.obj, redis⟩

theorem lookupResults_entries (redis : Redis) (obj : Object m) (runners : List Runner) :
    (lookupResults (some redis) obj runners).entries = cachedEntries redis obj runners := rfl

theorem evaluateObject_cachedDrop (search : Search m) (runners : List Runner)
    (redis : Option Redis) (chance : Chance) (obj : Object m) :
    (evaluateObject search runners redis chance obj).cachedDrop =
      (resultCacheCanDrop runners (lookupResults redis obj runners)).isSome := by
  unfold evaluateObject
  dsimp only
  split <;> simp [*]

/-- A drop from the cache is a drop. -/
theorem verdict_of_cachedDrop {search : Search m} {runners : List Runner}
    {redis : Option Redis} {chance : Chance} {obj : Object m}
    (h : (evaluateObject search runners redis chance obj).cachedDrop = true) :
    (evaluateObject search runners redis chance obj).verdict = .ok false := by
  unfold evaluateObject at h ⊢
  dsimp only at h ⊢
  split at h
  · rfl
  · cases h

/-! ## Evaluation without a cache -/

/-- One runner without a cache: the object it passes on, none if it does not
pass it on. -/
def pass (search : Search m) (obj : Object m) (runner : Runner) : Option (Object m) :=
  match runner.evaluate search false obj with
  | (.ok result, obj) =>
    if runner.threshold result then some (storeScore search obj result runner) else none
  | (.error _, _) => none

/-- The loader raised something that `_evaluate` does not handle. -/
def Loading.unhandled (loading : Loading) : Option Failure :=
  loading.failure.filter fun failure => failure ≠ .objectLoadError ∧ failure ≠ .dropObject

/-- A filter runner returns a result or drops the object, and the speed of the
filter only shows in the record. -/
theorem evaluate_filterRunner (search : Search m) (slow : Bool) (obj : Object m)
    (filter : Filter) :
    match (course (search.behaviour filter.config) obj).2 with
    | some score => (Runner.filterRunner filter).evaluate search slow obj =
        (.ok { (replay (obj, .new) (course (search.behaviour filter.config) obj).1).2 with
            score, cacheOutput := slow },
          (replay (obj, .new) (course (search.behaviour filter.config) obj).1).1)
    | none => ((Runner.filterRunner filter).evaluate search slow obj).1 = .error .dropObject := by
  have h := evaluateBody_course (search.deterministic filter.config) slow obj
  cases hs : (course (search.behaviour filter.config) obj).2 with
  | none =>
    rw [hs] at h
    exact h
  | some score =>
    rw [hs] at h
    exact Prod.ext h.1 h.2

/-- What a filter passes on, by its course on the object. -/
theorem pass_filterRunner (search : Search m) (obj : Object m) (filter : Filter) :
    pass search obj (.filterRunner filter) =
      (course (search.behaviour filter.config) obj).2.bind fun score =>
        if filter.minScore.le score && score.le filter.maxScore then
          some ((replay (obj, .new) (course (search.behaviour filter.config) obj).1).1.setItem
            (scoreAttr filter.config.name) (encodeText (search.scoreText score ++ "\x00")))
        else none := by
  have h := evaluate_filterRunner search false obj filter
  unfold FilterStackRunner.pass
  cases hs : (course (search.behaviour filter.config) obj).2 with
  | none =>
    simp only [hs] at h
    revert h
    rcases Runner.evaluate search false obj (.filterRunner filter) with ⟨_, _⟩
    rintro rfl
    rfl
  | some score =>
    simp only [hs] at h
    rw [h]
    rfl

theorem loadOrRun_uncached (search : Search m) (slow : ℕ → Bool) (i : ℕ) (runner : Runner)
    (obj : Object m) (newResults : Dict ℕ FilterResult) :
    loadOrRun search none Dict.empty slow i runner obj newResults =
      match runner.evaluate search (slow i) obj with
      | (.ok result, obj) => (.ok result, obj, newResults.set i result)
      | (.error failure, obj) => (.error failure, obj, newResults) := rfl

/-- The loop over filter runners without a cache passes the object from one to
the next. -/
theorem runLoop_uncached (search : Search m) (slow : ℕ → Bool) (filters : List Filter) (k : ℕ)
    (obj : Object m) (newResults : Dict ℕ FilterResult) :
    let loop := runLoop search none Dict.empty slow
      ((filters.map Runner.filterRunner).zipIdx k) obj newResults
    match exec (pass search) obj (filters.map Runner.filterRunner) with
    | some passed => handled loop.verdict = .ok true ∧ loop.obj = passed
    | none => handled loop.verdict = .ok false := by
  induction filters generalizing k obj newResults with
  | nil => exact ⟨rfl, rfl⟩
  | cons filter rest ih =>
    have hslow := evaluate_filterRunner search (slow k) obj filter
    have hfast := evaluate_filterRunner search false obj filter
    simp only [List.map_cons, List.zipIdx_cons, runLoop, loadOrRun_uncached, exec, pass]
    cases hs : (course (search.behaviour filter.config) obj).2 with
    | none =>
      simp only [hs] at hslow hfast
      revert hslow hfast
      rcases Runner.evaluate search (slow k) obj (.filterRunner filter) with ⟨_, _⟩
      rcases Runner.evaluate search false obj (.filterRunner filter) with ⟨_, _⟩
      rintro rfl rfl
      rfl
    | some score =>
      simp only [hs] at hslow hfast
      simp only [hslow, hfast, Runner.threshold, storeScore]
      by_cases ht : (filter.minScore.le score && score.le filter.maxScore) = true
      · simp only [ht, if_true]
        exact ih (k + 1) _ _
      · simp only [ht]
        rfl

theorem evaluateObject_none (search : Search m) (runners : List Runner) (chance : Chance)
    (obj : Object m) :
    evaluateObject search runners none chance obj =
      let loop := runLoop search none Dict.empty chance.slow runners.zipIdx obj Dict.empty
      ⟨handled loop.verdict, false, loop.obj, none⟩ := rfl

/-- The verdict of a stack without a cache: an object that loads is accepted
when every filter passes it on. -/
theorem evaluateObject_uncached (search : Search m) (filters : List Filter) (chance : Chance)
    (obj : Object m) :
    let evaluation := evaluateObject search (bindRunners filters) none chance obj
    match (search.load obj).unhandled with
    | some failure => evaluation.verdict = .error failure
    | none =>
      match exec (pass search) obj (bindRunners filters) with
      | some passed => evaluation.verdict = .ok true ∧ evaluation.obj = passed
      | none => evaluation.verdict = .ok false := by
  simp only [evaluateObject_none, bindRunners, List.zipIdx_cons, runLoop, loadOrRun_uncached,
    Loading.unhandled]
  cases hf : (search.load obj).failure with
  | none =>
    simp only [exec, pass, Runner.evaluate, hf, Option.filter_none]
    exact runLoop_uncached search chance.slow filters 1 _ _
  | some failure =>
    simp only [exec, pass, Runner.evaluate, hf]
    cases failure <;> rfl

end OpenDiamond.FilterStackRunner
