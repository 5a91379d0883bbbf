import OpenDiamond.FilterStackRunner
import OpenDiamond.Statistics

/-!
# A worker of the search

`FilterStackRunner.evaluate` with filters that are processes: each keeps its
connection from one object to the next, may die, and reads and writes session
variables. The loggers are called where the program calls them. What the
program does not decide is an argument: the loader, the clock, and the
database as it is when each runner is reached.
-/

namespace OpenDiamond.Worker

open Lib.OrderedDict Lib.Binary64 DiamondObject FilterProtocol AttributeCache ResultKeys
  FilterStackRunner Statistics

variable {m : Murmur} {ε σ : Type}

/-- `ATTR_GT_LABEL`. -/
def gtLabel : String := "_gt_label"

/-- What the runners of a search have in common. -/
structure Setting (ε σ : Type) where
  /-- Session variables and resources. -/
  services : Services ε
  /-- The code of a filter. -/
  program : FilterConfig → Program σ
  /-- `str` of a score. -/
  scoreText : Double → String

/-- What a runner meets when it is reached. -/
structure Occasion (m : Murmur) where
  /-- `ObjectLoader.load`. -/
  loading : Object m → Loading
  /-- The loader does not raise the exception of a filter that died. -/
  loads : ∀ obj, (loading obj).failure ≠ some .dropObject
  /-- The database. -/
  redis : Option Redis
  /-- The throughput is below the threshold. -/
  slow : Bool
  /-- The time the filter takes. -/
  elapsed : ℤ

/-- A loader without exceptions. -/
theorem loads_plain {m : Murmur} (_ : Object m) :
    (⟨[], none⟩ : Loading).failure ≠ some .dropObject := by
  simp

/-- The variables of the loop of `_evaluate`, with the filters and their
counters. Runners are known by their position. -/
structure LoopState (m : Murmur) (ε σ : Type) where
  /-- The object. -/
  obj : Object m
  /-- `new_results`. -/
  newResults : Dict ℕ FilterResult
  /-- `_proc` of each runner. -/
  connections : ℕ → Option (Connection σ)
  /-- Session variables and resources. -/
  env : ε
  /-- `_filter.stats` of each runner. -/
  stats : ℕ → FilterStatistics

/-- `_FilterRunner.cache_hit`; the fetcher does nothing. -/
def cacheHit (result : FilterResult) (stats : FilterStatistics) : Runner → FilterStatistics
  | .fetcher => stats
  | .filterRunner filter =>
    stats.onCacheHit ((Runner.filterRunner filter).threshold result)
      (result.inputAttrs.get? gtLabel).isSome

/-- The record in the `finally` clause of `_FilterRunner.evaluate`, also when
the loop raised. -/
def record (services : Services ε) (program : Program σ) (connection : Option (Connection σ))
    (obj : Object m) (env : ε) : FilterResult :=
  let conn := connection.getD ⟨program.start, false⟩
  (commandLoop services conn.proc ⟨obj, .new, env, conn.initialized⟩).state.result

/-- The exception handler and the `finally` clause of
`_FilterRunner.evaluate`. -/
def doneEvaluate (outcome : Except Failure FilterResult) (accept gtPresent : Bool) (elapsed : ℤ)
    (stats : FilterStatistics) : FilterStatistics :=
  match outcome with
  | .error .dropObject => stats.onTerminate.onDoneEvaluate accept gtPresent elapsed
  | _ => stats.onDoneEvaluate accept gtPresent elapsed

/-- `evaluate` of the runner at a position. -/
def evaluateRunner (setting : Setting ε σ) (occasion : Occasion m) (i : ℕ)
    (st : LoopState m ε σ) : Runner → Except Failure FilterResult × LoopState m ε σ
  | .fetcher =>
    let loading := occasion.loading st.obj
    let obj := st.obj.setItems loading.items
    match loading.failure with
    | some failure => (.error failure, { st with obj })
    | none =>
      (.ok { FilterResult.new with
        outputAttrs := obj.attrs.mapValues (signatureOf m obj.computeSignature) }, { st with obj })
  | .filterRunner filter =>
    let program := setting.program filter.config
    let report := FilterProtocol.evaluate setting.services program (st.connections i)
      occasion.slow st.obj st.env
    let result := record setting.services program (st.connections i) st.obj st.env
    (report.outcome, { st with
      obj := report.obj
      connections := Function.update st.connections i report.connection
      env := report.env
      stats := Function.update st.stats i (doneEvaluate report.outcome
        ((Runner.filterRunner filter).threshold result)
        (result.inputAttrs.get? gtLabel).isSome occasion.elapsed (st.stats i)) })

/-- Load the cached result of a runner into the object, or run it. -/
def loadOrRun (setting : Setting ε σ) (occasion : Occasion m)
    (cacheResults : Dict ℕ FilterResult) (i : ℕ) (runner : Runner) (st : LoopState m ε σ) :
    Except Failure FilterResult × LoopState m ε σ :=
  match (cacheResults.get? i).bind fun cached =>
      (attributeCacheTryLoad occasion.redis st.obj cached).map (Prod.mk cached) with
  | some (cached, loaded) =>
    (.ok cached, { st with
      obj := loaded
      stats := Function.update st.stats i (cacheHit cached (st.stats i) runner) })
  | none =>
    match evaluateRunner setting occasion i st runner with
    | (.ok result, st) => (.ok result, { st with newResults := st.newResults.set i result })
    | (.error failure, st) => (.error failure, st)

/-- `if runner.send_score`. -/
def storeScore (setting : Setting ε σ) (obj : Object m) (result : FilterResult) :
    Runner → Object m
  | .fetcher => obj
  | .filterRunner filter =>
    obj.setItem (scoreAttr filter.config.name)
      (encodeText (setting.scoreText result.score ++ "\x00"))

/-- How the loop ended. -/
structure LoopEnd (m : Murmur) (ε σ : Type) where
  /-- The verdict or the exception. -/
  verdict : Except Failure Bool
  /-- The runner at which the loop ended. -/
  last : ℕ
  /-- The variables. -/
  state : LoopState m ε σ

/-- The loop of `_evaluate` over the runners, each with its position. -/
def runLoop (setting : Setting ε σ) (occasions : ℕ → Occasion m)
    (cacheResults : Dict ℕ FilterResult) : List (Runner × ℕ) → LoopState m ε σ → LoopEnd m ε σ
  | [], st => ⟨.ok true, 0, st⟩
  | (runner, i) :: rest, st =>
    match loadOrRun setting (occasions i) cacheResults i runner st with
    | (.error failure, st) => ⟨.error failure, i, st⟩
    | (.ok result, st) =>
      if runner.threshold result then
        runLoop setting occasions cacheResults rest
          { st with obj := storeScore setting st.obj result runner }
      else ⟨.ok false, i, st⟩

/-- `for cur in deps: cur.cache_hit(cache_results[cur])`. -/
def notify (runners : List Runner) (cacheResults : Dict ℕ FilterResult) (deps : Finset ℕ)
    (stats : ℕ → FilterStatistics) (i : ℕ) : FilterStatistics :=
  if i ∈ deps then
    match runners[i]?, cacheResults.get? i with
    | some runner, some result => cacheHit result (stats i) runner
    | _, _ => stats i
  else stats i

/-- What a call of `evaluate` meets. -/
structure Call (m : Murmur) (ε σ : Type) where
  /-- The object. -/
  obj : Object m
  /-- The database at the lookup of the results. -/
  redis : Option Redis
  /-- What each runner meets. -/
  occasions : ℕ → Occasion m
  /-- The filter processes of the worker. -/
  connections : ℕ → Option (Connection σ)
  /-- Session variables and resources. -/
  env : ε
  /-- The time the call takes. -/
  elapsed : ℤ

/-- The statistics of a search; the counters of a filter are known by the
position of its runner. -/
structure Totals where
  /-- `state.stats`. -/
  search : SearchStatistics
  /-- `filter.stats`. -/
  filters : ℕ → FilterStatistics

/-- The variables before the loop. -/
def Call.start (call : Call m ε σ) (stats : ℕ → FilterStatistics) : LoopState m ε σ :=
  ⟨call.obj, Dict.empty, call.connections, call.env, stats⟩

/-- The loop of a call. -/
def Call.loop (setting : Setting ε σ) (runners : List Runner) (call : Call m ε σ)
    (stats : ℕ → FilterStatistics) : LoopEnd m ε σ :=
  runLoop setting call.occasions (lookupResults call.redis call.obj runners) runners.zipIdx
    (call.start stats)

/-- The exception handlers of `_evaluate`. -/
def unloadable (verdict : Except Failure Bool) (stats : SearchStatistics) : SearchStatistics :=
  match verdict with
  | .error .objectLoadError => stats.onUnloadable
  | _ => stats

/-- `FilterStackRunner.evaluate`: the verdict or the exception, and the
statistics. -/
def evaluate (setting : Setting ε σ) (runners : List Runner) (totals : Totals)
    (call : Call m ε σ) : Except Failure Bool × Totals :=
  let cacheResults := lookupResults call.redis call.obj runners
  match resultCacheCanDrop runners cacheResults with
  | some deps =>
    (.ok false,
      { search := totals.search.onDoneEvaluate false (call.obj.contains gtLabel) call.elapsed
        filters := notify runners cacheResults deps totals.filters })
  | none =>
    let loop := call.loop setting runners totals.filters
    let search := unloadable loop.verdict totals.search
    match handled loop.verdict with
    | .ok accept =>
      (.ok accept,
        { search := search.onDoneEvaluate accept (loop.state.obj.contains gtLabel) call.elapsed
          filters := loop.state.stats })
    | .error failure =>
      (.error failure,
        { search := search.onDoneEvaluate false false call.elapsed
          filters := loop.state.stats })

/-! ## Deterministic filters -/

/-- The filters of a search as processes. -/
def Setting.ofSearch (search : Search m) : Setting Unit Unit where
  services := noServices
  program config := ⟨search.behaviour config, fun _ => search.behaviour config⟩
  scoreText := search.scoreText

/-- The process of the runner waits for an object. -/
def Waiting (search : Search m) (connections : ℕ → Option (Connection Unit)) (i : ℕ) :
    Runner → Prop
  | .fetcher => True
  | .filterRunner filter => connections i = some ⟨search.behaviour filter.config, true⟩

theorem loadOrRun_ofSearch {search : Search m} {occasion : Occasion m}
    (hload : occasion.loading = search.load) (cacheResults : Dict ℕ FilterResult)
    (slow : ℕ → Bool) {i : ℕ} (hslow : occasion.slow = slow i) (runner : Runner)
    {st : LoopState m Unit Unit} (hwaiting : Waiting search st.connections i runner) :
    let found := loadOrRun (Setting.ofSearch search) occasion cacheResults i runner st
    FilterStackRunner.loadOrRun search occasion.redis cacheResults slow i runner st.obj
        st.newResults = (found.1, found.2.obj, found.2.newResults) ∧
      ∀ j ≠ i, found.2.connections j = st.connections j := by
  rcases hcached : (cacheResults.get? i).bind fun cached =>
    (attributeCacheTryLoad occasion.redis st.obj cached).map (Prod.mk cached) with
    _ | ⟨cached, loaded⟩
  · cases runner with
    | fetcher =>
      simp only [loadOrRun, FilterStackRunner.loadOrRun, hcached, evaluateRunner, Runner.evaluate,
        hload]
      cases (search.load st.obj).failure <;> exact ⟨rfl, fun _ _ => rfl⟩
    | filterRunner filter =>
      have hconn : st.connections i = some ⟨search.behaviour filter.config, true⟩ := hwaiting
      simp only [loadOrRun, FilterStackRunner.loadOrRun, hcached, evaluateRunner, Runner.evaluate,
        hconn, hslow, evaluateBody, Setting.ofSearch]
      cases (FilterProtocol.evaluate noServices
        ⟨search.behaviour filter.config, fun _ => search.behaviour filter.config⟩
        (some ⟨search.behaviour filter.config, true⟩) (slow i) st.obj ()).outcome <;>
        exact ⟨rfl, fun j hj => Function.update_of_ne hj _ _⟩
  · simp only [loadOrRun, FilterStackRunner.loadOrRun, hcached, implies_true, and_self]

/-- With deterministic filters the loop of a worker is that of the plain stack, by induction over
the runners; the connections to the filters do not matter then. -/
theorem runLoop_ofSearch {search : Search m} {occasions : ℕ → Occasion m}
    {redis : Option Redis} (hredis : ∀ i, (occasions i).redis = redis)
    (hload : ∀ i, (occasions i).loading = search.load) (cacheResults : Dict ℕ FilterResult)
    {runners : List (Runner × ℕ)} (hnodup : (runners.map Prod.snd).Nodup)
    (st : LoopState m Unit Unit)
    (hwaiting : ∀ entry ∈ runners, Waiting search st.connections entry.2 entry.1) :
    let loop := runLoop (Setting.ofSearch search) occasions cacheResults runners st
    FilterStackRunner.runLoop search redis cacheResults (fun i => (occasions i).slow) runners
      st.obj st.newResults = ⟨loop.verdict, loop.state.obj, loop.state.newResults⟩ := by
  induction runners generalizing st with
  | nil => rfl
  | cons entry rest ih =>
    obtain ⟨runner, i⟩ := entry
    obtain ⟨hfresh, hrest⟩ := List.nodup_cons.mp hnodup
    obtain ⟨hplain, hothers⟩ := loadOrRun_ofSearch (hload i) cacheResults
      (fun i => (occasions i).slow) rfl runner (hwaiting _ List.mem_cons_self)
    rw [hredis] at hplain
    simp only [runLoop, FilterStackRunner.runLoop, hplain]
    rcases hfound : loadOrRun (Setting.ofSearch search) (occasions i) cacheResults i runner st with
      ⟨failure | result, st'⟩
    · rfl
    · rw [hfound] at hothers
      by_cases ht : runner.threshold result = true
      · simp only [ht, if_true]
        have hstore : FilterStackRunner.storeScore search st'.obj result runner =
            storeScore (Setting.ofSearch search) st'.obj result runner := by
          cases runner <;> rfl
        rw [hstore]
        refine ih hrest { st' with obj := storeScore (Setting.ofSearch search) st'.obj result runner }
          fun later hlater => ?_
        have hne : later.2 ≠ i := by
          rintro rfl
          exact hfresh (List.mem_map.mpr ⟨later, hlater, rfl⟩)
        have hlaterWaiting := hwaiting later (List.mem_cons_of_mem _ hlater)
        unfold Waiting at hlaterWaiting ⊢
        split
        · trivial
        · simp_all
      · simp only [ht]
        rfl

/-- A worker whose filters are deterministic and wait for the object returns
the verdict of the plain stack. -/
theorem evaluate_ofSearch {search : Search m} (runners : List Runner) (totals : Totals)
    {call : Call m Unit Unit} (hredis : ∀ i, (call.occasions i).redis = call.redis)
    (hload : ∀ i, (call.occasions i).loading = search.load)
    (hwaiting : ∀ entry ∈ runners.zipIdx, Waiting search call.connections entry.2 entry.1)
    (msetFails : Bool) :
    (evaluate (Setting.ofSearch search) runners totals call).1 =
      (evaluateObject search runners call.redis
        ⟨fun i => (call.occasions i).slow, msetFails⟩ call.obj).verdict := by
  have hnodup : (runners.zipIdx.map Prod.snd).Nodup := by
    rw [List.zipIdx_map_snd]
    exact List.nodup_range'
  have hloop := runLoop_ofSearch hredis hload (lookupResults call.redis call.obj runners) hnodup
    (call.start totals.filters) hwaiting
  change FilterStackRunner.runLoop _ _ _ _ _ call.obj Dict.empty = _ at hloop
  cases hdrop : resultCacheCanDrop runners (lookupResults call.redis call.obj runners) with
  | some deps => simp only [evaluate, evaluateObject, hdrop]
  | none =>
    simp only [evaluate, evaluateObject, hdrop, hloop, Call.loop]
    split <;> simp_all

end OpenDiamond.Worker
