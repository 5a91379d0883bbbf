import OpenDiamond.CachedEvaluation
import OpenDiamond.SharedCache

/-!
# Evaluations that share a database

`evaluateObject` sees one state of the database. A worker of the program looks its results up in
one state, loads the attributes of each runner from another and stores in a third, while other
workers store, Redis evicts entries and workers die. What it finds is then a part of what several
evaluations left, some of them not finished.

Workers of any number of searches are numbered together. An attribute that a filter reads has to
come from one runner of its stack only; the walk through the cached results relies on it.
-/

namespace OpenDiamond.SharedEvaluation

open Lib.OrderedDict Lib.Binary64 Lib.Runs Lib.Processes DiamondObject FilterProtocol AttributeCache
open ResultKeys FilterStackRunner ResultCache CachedDrop CachedEvaluation
open SharedCache (Eviction evict contentAddressed_evict contentAddressed_empty)

variable {m : Murmur}

/-! ## Workers -/

/-- A call of `evaluate` that has ended. -/
structure Ended (m : Murmur) where
  /-- The call. -/
  call : Call m
  /-- What it returned, or the exception. -/
  verdict : Except Failure Bool
  /-- The object after the call. -/
  obj : Object m

/-- What a worker is doing. -/
inductive Task (m : Murmur) where
  /-- Waiting for an object. -/
  | waiting
  /-- In the loop, with the results it looked up and the runners left. -/
  | looping (call : Call m) (cacheResults : Dict ℕ FilterResult) (rest : List (Runner × ℕ))
      (obj : Object m) (newResults : Dict ℕ FilterResult)
  /-- At the `finally` clause. -/
  | storing (call : Call m) (ending : LoopEnd m)
  | dead

/-- A worker with the calls behind it. -/
structure Worker (m : Murmur) where
  /-- What it is doing. -/
  task : Task m
  /-- The calls that have ended, in order. -/
  ended : List (Ended m)

/-- How a worker moves. -/
inductive Choice (m : Murmur) where
  /-- Begin a call: look up the results and walk through them. -/
  | begin (call : Call m)
  /-- Load the next result or run the runner. -/
  | next
  /-- Update the cache and return. -/
  | store
  /-- The worker dies. -/
  | die

/-- One pass of the loop of `_evaluate`, with the database as it is now. -/
def onePass (search : Search m) (redis : Redis) (call : Call m)
    (cacheResults : Dict ℕ FilterResult) :
    List (Runner × ℕ) → Object m → Dict ℕ FilterResult → Task m
  | [], obj, newResults => .storing call ⟨.ok true, obj, newResults⟩
  | (runner, i) :: rest, obj, newResults =>
    match loadOrRun (call.search search) (some redis) cacheResults call.chance.slow i runner obj
        newResults with
    | (.error failure, obj, newResults) => .storing call ⟨.error failure, obj, newResults⟩
    | (.ok result, obj, newResults) =>
      if runner.threshold result then
        .looping call cacheResults rest (storeScore (call.search search) obj result runner)
          newResults
      else .storing call ⟨.ok false, obj, newResults⟩

/-- A worker that raised is not used again. -/
def afterCall : Except Failure Bool → Task m
  | .ok _ => .waiting
  | .error _ => .dead

/-- One step of a worker. `mget` and `mset` are one access each. -/
def workerStep (search : Search m) (redis : Redis) (_ : ℕ) (worker : Worker m)
    (choice : Choice m) : Option (Redis × Worker m) :=
  match choice, worker.task with
  | .begin call, .waiting =>
    let runners := bindRunners call.filters
    let cacheResults := lookupResults (some redis) call.obj runners
    match resultCacheCanDrop runners cacheResults with
    | some _ => some (redis, ⟨.waiting, worker.ended ++ [⟨call, .ok false, call.obj⟩]⟩)
    | none =>
      some (redis, { worker with
        task := .looping call cacheResults runners.zipIdx call.obj Dict.empty })
  | .next, .looping call cacheResults rest obj newResults =>
    some (redis, { worker with
      task := onePass search redis call cacheResults rest obj newResults })
  | .store, .storing call ending =>
    let verdict := handled ending.verdict
    some (if call.chance.msetFails then redis
        else updateCache (cacheKey (bindRunners call.filters) call.obj) ending.obj
          ending.newResults redis,
      ⟨afterCall verdict, worker.ended ++ [⟨call, verdict, ending.obj⟩]⟩)
  | .die, _ => some (redis, { worker with task := .dead })
  | _, _ => none

/-- The steps of the workers and of Redis. -/
abbrev sharedStep (search : Search m) :
    System Redis (Worker m) → Label (Choice m) Eviction → Option (System Redis (Worker m)) :=
  Lib.Processes.step (workerStep search) evict

/-- Waiting workers and an empty database. -/
def initial : System Redis (Worker m) := ⟨Redis.empty, fun _ => ⟨.waiting, []⟩⟩

/-- The call that a label begins. -/
def begun : Label (Choice m) Eviction → Option (Call m)
  | .proc _ (.begin call) => some call
  | _ => none

/-- The evaluation without the caches. -/
def plain (search : Search m) (call : Call m) : Evaluation m :=
  evaluateObject (call.search search) (bindRunners call.filters) none call.chance call.obj

/-- The loop of the evaluation without the caches. -/
def plainLoop (search : Search m) (call : Call m) : LoopEnd m :=
  runLoop (call.search search) none Dict.empty call.chance.slow (bindRunners call.filters).zipIdx
    call.obj Dict.empty

/-! ## A worker that is left alone -/

section Alone

variable {search : Search m} {pid : ℕ} {procs : ℕ → Worker m}

/-- A step of one worker is a step of the system in which only that worker and the cache move. -/
theorem step_pid {redis redis' : Redis} {worker worker' : Worker m} {choice : Choice m}
    (h : workerStep search redis pid worker choice = some (redis', worker')) :
    sharedStep search ⟨redis, Function.update procs pid worker⟩ (.proc pid choice) =
      some ⟨redis', Function.update procs pid worker'⟩ := by
  refine step_proc_eq_some.mpr ⟨redis', worker', ?_, by rw [Function.update_idem]⟩
  show workerStep search redis pid (Function.update procs pid worker pid) choice = _
  rw [Function.update_self]
  exact h

/-- From wherever it stands the loop of a worker comes to the end of `runLoop` in so many steps, if
no one else moves. -/
theorem exec_loop (redis : Redis) (call : Call m) (cacheResults : Dict ℕ FilterResult)
    (ended : List (Ended m)) (rest : List (Runner × ℕ)) (obj : Object m)
    (newResults : Dict ℕ FilterResult) :
    ∃ passes : ℕ, exec (sharedStep search)
        ⟨redis, Function.update procs pid ⟨.looping call cacheResults rest obj newResults, ended⟩⟩
        (List.replicate passes (.proc pid .next)) =
      some ⟨redis, Function.update procs pid ⟨.storing call (runLoop (call.search search)
        (some redis) cacheResults call.chance.slow rest obj newResults), ended⟩⟩ := by
  induction rest generalizing obj newResults with
  | nil => exact ⟨1, exec_cons (step_pid rfl) []⟩
  | cons entry rest ih =>
    obtain ⟨runner, i⟩ := entry
    have hnext : workerStep search redis pid
        ⟨.looping call cacheResults ((runner, i) :: rest) obj newResults, ended⟩ .next =
        some (redis, ⟨onePass search redis call cacheResults ((runner, i) :: rest) obj newResults,
          ended⟩) := rfl
    rw [runLoop]
    rcases hfound : loadOrRun (call.search search) (some redis) cacheResults call.chance.slow i
      runner obj newResults with ⟨failure | result, after, new⟩
    · rw [onePass, hfound] at hnext
      exact ⟨1, exec_cons (step_pid hnext) []⟩
    · rw [onePass, hfound] at hnext
      dsimp only at hnext ⊢
      by_cases hpass : runner.threshold result = true
      · rw [if_pos hpass] at hnext
        obtain ⟨passes, hexec⟩ := ih (storeScore (call.search search) after result runner) new
        refine ⟨passes + 1, ?_⟩
        rw [List.replicate_succ, exec_cons (step_pid hnext), if_pos hpass]
        exact hexec
      · rw [if_neg hpass] at hnext
        refine ⟨1, ?_⟩
        rw [if_neg hpass]
        exact exec_cons (step_pid hnext) []

/-- A worker that is not interrupted does what `evaluateObject` does. -/
theorem evaluates_alone (redis : Redis) (call : Call m) (ended : List (Ended m)) :
    ∃ (redis' : Redis) (labels : List (Label (Choice m) Eviction)) (task : Task m),
      (evaluateObject (call.search search) (bindRunners call.filters) (some redis) call.chance
        call.obj).redis = some redis' ∧
      exec (sharedStep search) ⟨redis, Function.update procs pid ⟨.waiting, ended⟩⟩ labels =
        some ⟨redis', Function.update procs pid ⟨task, ended ++ [⟨call,
          (evaluateObject (call.search search) (bindRunners call.filters) (some redis) call.chance
            call.obj).verdict,
          (evaluateObject (call.search search) (bindRunners call.filters) (some redis) call.chance
            call.obj).obj⟩]⟩⟩ := by
  cases hdrop : resultCacheCanDrop (bindRunners call.filters)
      (lookupResults (some redis) call.obj (bindRunners call.filters)) with
  | some deps =>
    have hbegin : workerStep search redis pid ⟨.waiting, ended⟩ (.begin call) =
        some (redis, ⟨.waiting, ended ++ [⟨call, .ok false, call.obj⟩]⟩) := by
      simp only [workerStep, hdrop]
    refine ⟨redis, [.proc pid (.begin call)], .waiting, ?_, ?_⟩
    · simp only [evaluateObject, hdrop]
    · rw [exec_cons (step_pid hbegin)]
      simp only [evaluateObject, hdrop, exec_nil]
  | none =>
    have hbegin : workerStep search redis pid ⟨.waiting, ended⟩ (.begin call) =
        some (redis, ⟨.looping call (lookupResults (some redis) call.obj
          (bindRunners call.filters)) (bindRunners call.filters).zipIdx call.obj Dict.empty,
          ended⟩) := by
      simp only [workerStep, hdrop]
    obtain ⟨passes, hloop⟩ := @exec_loop m search pid procs redis call (lookupResults (some redis)
      call.obj (bindRunners call.filters)) ended (bindRunners call.filters).zipIdx call.obj
      Dict.empty
    generalize hend : runLoop (call.search search) (some redis) (lookupResults (some redis) call.obj
      (bindRunners call.filters)) call.chance.slow (bindRunners call.filters).zipIdx call.obj
      Dict.empty = ending at hloop
    have hstore : workerStep search redis pid ⟨.storing call ending, ended⟩ .store =
        some (if call.chance.msetFails then redis
            else updateCache (cacheKey (bindRunners call.filters) call.obj) ending.obj
              ending.newResults redis,
          ⟨afterCall (handled ending.verdict), ended ++ [⟨call, handled ending.verdict,
            ending.obj⟩]⟩) := rfl
    have hredis : (evaluateObject (call.search search) (bindRunners call.filters) (some redis)
        call.chance call.obj).redis = some (if call.chance.msetFails then redis
          else updateCache (cacheKey (bindRunners call.filters) call.obj) ending.obj
            ending.newResults redis) := by
      simp only [evaluateObject, hdrop, hend, Option.map_some]
    refine ⟨_, .proc pid (.begin call) :: (List.replicate passes (.proc pid .next) ++
      [.proc pid .store]), afterCall (handled ending.verdict), hredis, ?_⟩
    rw [exec_cons (step_pid hbegin), exec_append, hloop, Option.bind_some,
      exec_cons (step_pid hstore)]
    simp only [evaluateObject, hdrop, hend, exec_nil]

end Alone

/-! ## What the attributes come from -/

/-- The filter reads the attribute of some object. -/
def Reads (search : Search m) (key : String) (filter : Filter) : Prop :=
  ∃ (obj : Object m) (value : Option Bytes),
    .read key value ∈ (course (search.behaviour filter.config) obj).1

/-- The runner sets the attribute: the fetcher of this object, a filter of some object. -/
def Supplies (search : Search m) (obj : Object m) (key : String) : Runner → Prop
  | .fetcher => ((obj.setItems (search.load obj).items).attrs.get? key).isSome
  | .filterRunner filter => ∃ (obj₀ : Object m) (value : Bytes),
      lastWrite (course (search.behaviour filter.config) obj₀).1 key = some value

/-- An attribute that a filter reads is no score, and one runner at most supplies it, which does not
come after the filter. -/
def SingleSupplier (search : Search m) (filters : List Filter) (obj : Object m) : Prop :=
  ∀ (i : ℕ) (reader : Filter) (key : String),
    (bindRunners filters)[i]? = some (.filterRunner reader) → Reads search key reader →
      (∀ filter ∈ filters, scoreAttr filter.config.name ≠ key) ∧
      ∀ (p : ℕ) (runner : Runner), (bindRunners filters)[p]? = some runner →
        Supplies search obj key runner → p ≤ i ∧
          ∀ (q : ℕ) (other : Runner), (bindRunners filters)[q]? = some other →
            Supplies search obj key other → q = p

section Suppliers

variable {search : Search m} {filters : List Filter} {obj : Object m}

/-- Every name with a recorded input was read in the events on record, or was there before. -/
theorem read_of_replay {st : Object m × FilterResult} {events : List Event} {key : String}
    (h : ((replay st events).2.inputAttrs.get? key).isSome) :
    (st.2.inputAttrs.get? key).isSome ∨ ∃ value, .read key value ∈ events := by
  induction events generalizing st with
  | nil => exact Or.inl h
  | cons event rest ih =>
    have hreplay : ((replay (apply st event) rest).2.inputAttrs.get? key).isSome := h
    rcases ih hreplay with hbefore | ⟨value, hvalue⟩
    · cases event with
      | read name value =>
        by_cases hname : name = key
        · exact Or.inr ⟨value, hname ▸ List.mem_cons_self⟩
        · left
          rwa [apply, Dict.get?_set_of_ne _ _ hname] at hbefore
      | wrote name value => exact Or.inl hbefore
      | omitted name reply =>
        left
        cases reply <;> exact hbefore
    · exact Or.inr ⟨value, List.mem_cons_of_mem event hvalue⟩

/-- A filter whose record has an input under a name has read that name. -/
theorem reads_of_records {fresh : FilterResult} {filter : Filter}
    (h : Records search obj fresh (.filterRunner filter)) {key : String}
    (hkey : (fresh.inputAttrs.get? key).isSome) : Reads search key filter := by
  obtain ⟨obj₀, slow, _, hrecord⟩ := h
  obtain ⟨score, _, rfl⟩ := (outcome_ok_iff (search.deterministic filter.config) slow obj₀
    fresh).mp hrecord
  rcases read_of_replay hkey with hnew | ⟨value, hvalue⟩
  · simp [FilterResult.new] at hnew
  · exact ⟨obj₀, value, hvalue⟩

/-- A filter whose record has an output under a name supplies it, with the signature that is on
record. -/
theorem supplies_of_records {fresh : FilterResult} {filter : Filter}
    (h : Records search obj fresh (.filterRunner filter)) {key : String} {valsig : Signature}
    (hkey : fresh.outputAttrs.get? key = some valsig) :
    Supplies search obj key (.filterRunner filter) := by
  obtain ⟨obj₀, slow, _, hrecord⟩ := h
  obtain ⟨score, _, rfl⟩ := (outcome_ok_iff (search.deterministic filter.config) slow obj₀
    fresh).mp hrecord
  have houtput := (replay_spec (obj₀, FilterResult.new)
    (course (search.behaviour filter.config) obj₀).1).2.2.2.1 key
  rw [hkey] at houtput
  cases hwrite : lastWrite (course (search.behaviour filter.config) obj₀).1 key with
  | some value => exact ⟨obj₀, value, hwrite⟩
  | none =>
    rw [hwrite] at houtput
    simp [FilterResult.new] at houtput

/-- A cached result with an output under the name is that of a runner that supplies it. -/
theorem supplies_of_cached {cacheResults : Dict ℕ FilterResult}
    (h : Faithful search filters obj cacheResults) {p : ℕ} {key : String} {valsig : Signature}
    (hp : (cacheResults.get? p).bind (·.outputAttrs.get? key) = some valsig) :
    ∃ runner, (bindRunners filters)[p]? = some runner ∧ Supplies search obj key runner := by
  obtain ⟨cached, hcached, houtput⟩ := Option.bind_eq_some_iff.mp hp
  cases p with
  | zero =>
    refine ⟨.fetcher, rfl, ?_⟩
    rw [(h.fetcher cached hcached).2.2.2.2 key, Object.getSignature_eq] at houtput
    obtain ⟨value, hvalue, _⟩ := Option.map_eq_some_iff.mp houtput
    exact Option.isSome_of_eq_some hvalue
  | succ p =>
    obtain ⟨filter, fresh, hfilter, hfresh, rfl⟩ := h.filter p cached hcached
    refine ⟨.filterRunner filter, ?_, supplies_of_records hfresh houtput⟩
    rw [bindRunners, List.getElem?_cons_succ, List.getElem?_map, hfilter]
    rfl

/-- A cached result with an input under the name is that of a filter that reads it. -/
theorem reads_of_cached {cacheResults : Dict ℕ FilterResult}
    (h : Faithful search filters obj cacheResults) {i : ℕ} {cached : FilterResult}
    (hi : cacheResults.get? i = some cached) {key : String} {valsig : Option Signature}
    (hmem : (key, valsig) ∈ cached.inputAttrs.entries) :
    ∃ reader, (bindRunners filters)[i]? = some (.filterRunner reader) ∧
      Reads search key reader := by
  cases i with
  | zero =>
    rw [(h.fetcher cached hi).2.2.2.1] at hmem
    cases hmem
  | succ i =>
    obtain ⟨filter, fresh, hfilter, hfresh, rfl⟩ := h.filter i cached hi
    refine ⟨filter, ?_, reads_of_records hfresh ?_⟩
    · rw [bindRunners, List.getElem?_cons_succ, List.getElem?_map, hfilter]
      rfl
    · exact Option.isSome_of_eq_some ((Dict.get?_eq_some_iff _ key valsig).mpr hmem)

/-- The results that are found are orderly, whatever evaluations left them. -/
theorem SingleSupplier.orderly (h : SingleSupplier search filters obj)
    {cacheResults : Dict ℕ FilterResult} (hcached : Faithful search filters obj cacheResults) :
    Orderly search filters cacheResults := by
  rintro p i key valsig hne hp ⟨cached, hi, hmem⟩
  obtain ⟨reader, hreader, hreads⟩ := reads_of_cached hcached hi hmem
  obtain ⟨supplier, hsupplier, hsupplies⟩ := supplies_of_cached hcached hp
  obtain ⟨hscore, hsingle⟩ := h i reader key hreader hreads
  obtain ⟨hle, honly⟩ := hsingle p supplier hsupplier hsupplies
  refine ⟨Nat.lt_of_le_of_ne hle hne, fun j filter hpj _ hfilter => ⟨hscore filter ?_, ?_⟩⟩
  · have hmember := List.mem_of_getElem? hfilter
    simpa [bindRunners] using hmember
  · intro hlt obj₀ value hwrite
    have hsame := honly j _ hfilter ⟨obj₀, value, hwrite⟩
    omega

end Suppliers

/-! ## One step -/

section Steps

variable {search : Search m} {allowed : Call m → Prop}

/-- How far the loop of a worker is: before its first runner, or where the loop without the caches
comes by with an object in the same state. -/
inductive Reached (search : Search m) (call : Call m) : List (Runner × ℕ) → Object m → Prop
  | start : Reached search call (bindRunners call.filters).zipIdx call.obj
  | later (k : ℕ) {obj plainObj : Object m} {newResults : Dict ℕ FilterResult}
      (hsame : Same obj plainObj) (hsig : plainObj.computeSignature = true)
      (hplain : plainLoop search call = runLoop (call.search search) none Dict.empty
        call.chance.slow (((call.filters.drop k).map Runner.filterRunner).zipIdx (k + 1)) plainObj
        newResults) :
      Reached search call (((call.filters.drop k).map Runner.filterRunner).zipIdx (k + 1)) obj

/-- A task that goes the way of the evaluation without the caches. -/
def Task.Follows (search : Search m) (allowed : Call m → Prop) : Task m → Prop
  | .looping call cacheResults rest obj newResults => allowed call ∧
      Faithful (call.search search) call.filters call.obj cacheResults ∧
      NewRecorded (call.search search) (bindRunners call.filters) call.obj newResults ∧
      Reached search call rest obj
  | .storing call ending => allowed call ∧
      NewRecorded (call.search search) (bindRunners call.filters) call.obj ending.newResults ∧
      SameEnd ending (plainLoop search call)
  | _ => True

/-- A call that ended as it does without the caches. -/
def Ended.AsPlain (search : Search m) (ended : Ended m) : Prop :=
  (ended.call.load ended.call.obj).unhandled = none →
    ended.verdict = (plain search ended.call).verdict ∧
      ((plain search ended.call).verdict = .ok true →
        Same ended.obj (plain search ended.call).obj)

/-- What holds of a worker. -/
structure Worker.Follows (search : Search m) (allowed : Call m → Prop) (worker : Worker m) :
    Prop where
  /-- The call in hand. -/
  task : worker.task.Follows search allowed
  /-- The calls behind it. -/
  ended : ∀ ended ∈ worker.ended, ended.AsPlain search

/-- What holds of the database. -/
structure Kept (search : Search m) (allowed : Call m → Prop) (redis : Redis) : Prop where
  /-- Values are filed under their signatures. -/
  attributes : redis.ContentAddressed m
  /-- Results are records. -/
  results : Recorded search allowed redis

/-- The records of calls that agree with one. -/
theorem Kept.agreeing {redis : Redis} (h : Kept search allowed redis) {call : Call m}
    (hagrees : ∀ other, allowed other →
      Agrees (call.search search) call.filters call.obj other) :
    Recorded (call.search search) (Agrees (call.search search) call.filters call.obj) redis := by
  intro key result hget
  obtain ⟨other, hother, source⟩ := h.results key result hget
  exact ⟨other, hagrees other hother, source⟩

/-- An eviction keeps what is known of the entries that stay. -/
theorem Kept.evict {redis redis' : Redis} (h : Kept search allowed redis) {kept : Eviction}
    (hevict : evict redis kept = some redis') : Kept search allowed redis' := by
  refine ⟨contentAddressed_evict h.attributes hevict, fun key result hget => ?_⟩
  cases hevict
  rw [Dict.get?_restrict] at hget
  split at hget
  · exact h.results key result hget
  · cases hget

/-- What a worker stores at the end of a call is a result of that call, under the key of its filter
and object. -/
theorem Kept.updateCache {redis : Redis} (h : Kept search allowed redis) {call : Call m}
    (hallowed : allowed call) (obj : Object m) {newResults : Dict ℕ FilterResult}
    (hnew : NewRecorded (call.search search) (bindRunners call.filters) call.obj newResults) :
    Kept search allowed (FilterStackRunner.updateCache
      (cacheKey (bindRunners call.filters) call.obj) obj newResults redis) := by
  refine ⟨updateCache_contentAddressed h.attributes, fun key result hget => ?_⟩
  rcases updateCache_results hget with hold | ⟨i, fresh, hfresh, rfl, rfl⟩
  · exact h.results key result hold
  · obtain ⟨runner, hrunner, hrecords⟩ := hnew i fresh hfresh
    refine ⟨call, hallowed, runner, List.mem_of_getElem? hrunner, fresh, ?_, hrecords, rfl⟩
    rw [cacheKey, hrunner]

/-- A pass of the loop over a runner that does the same without the caches. -/
theorem follows_onePass_cons {redis : Redis} {call : Call m}
    {cacheResults : Dict ℕ FilterResult} (hallowed : allowed call)
    (hcached : Faithful (call.search search) call.filters call.obj cacheResults) {runner : Runner}
    {i : ℕ} {rest : List (Runner × ℕ)} {obj plainObj : Object m}
    {newResults plainResults : Dict ℕ FilterResult}
    (hplain : plainLoop search call = runLoop (call.search search) none Dict.empty
      call.chance.slow ((runner, i) :: rest) plainObj plainResults)
    (halike : Alike ((loadOrRun (call.search search) (some redis) cacheResults call.chance.slow i
        runner obj newResults).1, (loadOrRun (call.search search) (some redis) cacheResults
        call.chance.slow i runner obj newResults).2.1)
      (runner.evaluate (call.search search) (call.chance.slow i) plainObj))
    (hnew : NewRecorded (call.search search) (bindRunners call.filters) call.obj
      (loadOrRun (call.search search) (some redis) cacheResults call.chance.slow i runner obj
        newResults).2.2)
    (hcomputes : ∀ result after', runner.evaluate (call.search search) (call.chance.slow i)
      plainObj = (.ok result, after') → after'.computeSignature = true)
    (hreached : ∀ after after' new, Same after after' → after'.computeSignature = true →
      plainLoop search call = runLoop (call.search search) none Dict.empty call.chance.slow rest
        after' new → Reached search call rest after) :
    (onePass search redis call cacheResults ((runner, i) :: rest) obj newResults).Follows search
      allowed := by
  rw [runLoop, loadOrRun_uncached] at hplain
  rw [onePass]
  generalize loadOrRun (call.search search) (some redis) cacheResults call.chance.slow i runner obj
    newResults = pass at halike hnew
  generalize runner.evaluate (call.search search) (call.chance.slow i) plainObj = plain
    at halike hcomputes hplain
  obtain ⟨outcome, after, new⟩ := pass
  cases halike with
  | @returned result result' _ after' hscore hsame =>
    dsimp only at hplain ⊢
    rw [← threshold_congr hscore runner] at hplain
    split
    · rename_i hpass
      rw [if_pos hpass] at hplain
      refine ⟨hallowed, hcached, hnew, hreached _ _ _ (hsame.storeScore hscore runner) ?_ hplain⟩
      rw [storeScore_computeSignature]
      exact hcomputes _ _ rfl
    · rename_i hdrop
      rw [if_neg hdrop] at hplain
      refine ⟨hallowed, hnew, ?_⟩
      rw [hplain]
      exact ⟨rfl, fun h => by cases h⟩
  | raised failure =>
    refine ⟨hallowed, hnew, ?_⟩
    rw [hplain]
    exact ⟨rfl, fun h => by cases h⟩

/-- A pass of the loop, whatever the database has become since the lookup. -/
theorem follows_onePass (hm : Function.Injective m.hash) {redis : Redis}
    (hredis : redis.ContentAddressed m) {call : Call m} {cacheResults : Dict ℕ FilterResult}
    (hallowed : allowed call)
    (hdet : ∀ filter ∈ call.filters, Determined m (search.behaviour filter.config))
    (hcached : Faithful (call.search search) call.filters call.obj cacheResults)
    {newResults : Dict ℕ FilterResult}
    (hnew : NewRecorded (call.search search) (bindRunners call.filters) call.obj newResults)
    {rest : List (Runner × ℕ)} {obj : Object m} (h : Reached search call rest obj) :
    (onePass search redis call cacheResults rest obj newResults).Follows search allowed := by
  cases h with
  | start =>
    rw [bindRunners, List.zipIdx_cons, Nat.zero_add]
    refine follows_onePass_cons hallowed hcached rfl
      (fetcher_pass_alike hm hredis hcached call.signed _ _ newResults)
      (loadOrRun_recorded (some redis) cacheResults call.chance.slow rfl call.signed hnew
        fun _ _ => evaluate_fetcher_records call.signed).1
      (fun result after' heval => (evaluate_fetcher_records call.signed heval).2) ?_
    intro after after' new hsame hsig hplain
    exact .later 0 hsame hsig hplain
  | @later k _ plainObj plainResults hsame hsig hplain =>
    cases hdrop : call.filters.drop k with
    | nil =>
      rw [hdrop] at hplain
      refine ⟨hallowed, hnew, ?_⟩
      rw [hplain]
      exact ⟨rfl, fun _ => hsame⟩
    | cons filter tail =>
      have hfilter : call.filters[k]? = some filter := by
        have hhead := @List.getElem?_drop _ call.filters k 0
        rw [hdrop, Nat.add_zero] at hhead
        exact hhead.symm
      have htail : tail = call.filters.drop (k + 1) := by
        rw [← List.tail_drop, hdrop]
        rfl
      have hrunner : (bindRunners call.filters)[k + 1]? = some (.filterRunner filter) := by
        rw [bindRunners, List.getElem?_cons_succ, List.getElem?_map, hfilter]
        rfl
      have hobj : obj.computeSignature = true := hsame.computes.trans hsig
      rw [hdrop, List.map_cons, List.zipIdx_cons] at hplain
      rw [List.map_cons, List.zipIdx_cons]
      refine follows_onePass_cons hallowed hcached hplain
        (filterRunner_pass_alike hm hredis hcached hfilter
          (hdet filter (List.mem_of_getElem? hfilter)) hsame hsig _ _ newResults)
        (loadOrRun_recorded (some redis) cacheResults call.chance.slow hrunner hobj hnew
          fun _ _ => evaluate_filterRunner_records hobj).1
        (fun result after' heval => (@evaluate_filterRunner_records m _ _ plainObj plainObj after'
          filter result hsig heval).2) ?_
      intro after after' new hafter hcomputes hrest
      rw [htail] at hrest ⊢
      exact .later (k + 1) hafter hcomputes hrest

/-- A step of a worker keeps the database, and the worker goes the way of the evaluation without the
caches. -/
theorem workerStep_follows (hm : Function.Injective m.hash)
    (hagrees : ∀ call other, allowed call → allowed other →
      Agrees (call.search search) call.filters call.obj other)
    (hsingle : ∀ call, allowed call →
      SingleSupplier (call.search search) call.filters call.obj)
    (hdet : ∀ call, allowed call → ∀ filter ∈ call.filters,
      Determined m (search.behaviour filter.config))
    {redis redis' : Redis} {pid : ℕ} {worker worker' : Worker m} {choice : Choice m}
    (hredis : Kept search allowed redis) (hworker : worker.Follows search allowed)
    (hbegun : ∀ call, choice = .begin call → allowed call)
    (hstep : workerStep search redis pid worker choice = some (redis', worker')) :
    Kept search allowed redis' ∧ worker'.Follows search allowed := by
  have htask := hworker.task
  have hended : ∀ new : Ended m, new.AsPlain search →
      ∀ ended ∈ worker.ended ++ [new], ended.AsPlain search := by
    intro new hnew ended hmem
    rcases List.mem_append.mp hmem with hold | hlast
    · exact hworker.ended ended hold
    · rwa [List.mem_singleton.mp hlast]
  unfold workerStep at hstep
  split at hstep
  · rename_i call _
    have hallowed := hbegun call rfl
    have hrec := hredis.agreeing fun other => hagrees call other hallowed
    have hcached := faithful_lookupResults hm hrec call.signed
    dsimp only at hstep
    split at hstep
    · rename_i deps hdrop
      cases hstep
      refine ⟨hredis, trivial, hended _ fun hload => ?_⟩
      have hplain := plain_of_canDrop hm hrec call.signed (hdet call hallowed)
        ((hsingle call hallowed).orderly hcached) hload hdrop call.chance
      exact ⟨hplain.symm, fun haccept => by rw [plain, hplain] at haccept; cases haccept⟩
    · cases hstep
      exact ⟨hredis, ⟨hallowed, hcached, fun i result h => by simp at h, .start⟩, hworker.ended⟩
  · rename_i call cacheResults rest obj newResults heq
    rw [heq] at htask
    obtain ⟨hallowed, hcached, hnew, hreached⟩ := htask
    cases hstep
    exact ⟨hredis, follows_onePass hm hredis.attributes hallowed (hdet call hallowed) hcached hnew
      hreached, hworker.ended⟩
  · rename_i call ending heq
    rw [heq] at htask
    obtain ⟨hallowed, hnew, hend⟩ := htask
    cases hstep
    refine ⟨?_, ?_, hended _ fun _ => hend.evaluated⟩
    · split
      · exact hredis
      · exact hredis.updateCache hallowed ending.obj hnew
    · show (afterCall (handled ending.verdict)).Follows search allowed
      cases handled ending.verdict <;> trivial
  · cases hstep
    exact ⟨hredis, trivial, hworker.ended⟩
  · cases hstep

end Steps

/-! ## Every run -/

/-- In every run of any number of workers over one database, with entries evicted at any time and
workers that die anywhere, every call that ends has the verdict of the evaluation that runs
everything, and leaves an accepted object with the same attributes and the same omissions: when
filters behind one digest are one function, an object loads the same attributes each time, the
records of the filters determine their courses, and an attribute that a filter reads has a single
supplier. -/
theorem shared_as_plain (hm : Function.Injective m.hash) {search : Search m}
    {labels : List (Label (Choice m) Eviction)} {s : System Redis (Worker m)}
    (hagrees : ∀ call ∈ labels.filterMap begun, ∀ other ∈ labels.filterMap begun,
      Agrees (call.search search) call.filters call.obj other)
    (hsingle : ∀ call ∈ labels.filterMap begun,
      SingleSupplier (call.search search) call.filters call.obj)
    (hdet : ∀ call ∈ labels.filterMap begun, ∀ filter ∈ call.filters,
      Determined m (search.behaviour filter.config))
    (hrun : exec (sharedStep search) initial labels = some s) :
    ∀ pid, ∀ ended ∈ (s.procs pid).ended,
      (ended.call.load ended.call.obj).unhandled = none →
        ended.verdict = (plain search ended.call).verdict ∧
          ((plain search ended.call).verdict = .ok true →
            Same ended.obj (plain search ended.call).obj) := by
  let allowed : Call m → Prop := fun call => call ∈ labels.filterMap begun
  have hinitial : Holds (Kept search allowed) (fun _ _ worker => worker.Follows search allowed)
      initial := by
    refine ⟨⟨contentAddressed_empty, fun key result hget => ?_⟩, fun pid => ⟨trivial, ?_⟩⟩
    · simp [initial, Redis.empty] at hget
    · exact fun ended hended => absurd hended List.not_mem_nil
  have hs : Holds (Kept search allowed) (fun _ _ worker => worker.Follows search allowed) s := by
    refine exec_invariant_of_mem (fun label hlabel s t hholds hstep => ?_) hinitial hrun
    have hguard : stepGuard (fun _ _ _ choice => ∀ call, choice = .begin call → allowed call)
        (fun _ _ => True) s label := by
      cases label with
      | env => trivial
      | proc pid choice =>
        rintro call rfl
        exact List.mem_filterMap.mpr ⟨_, hlabel, rfl⟩
    refine step_holds ?_ ?_ hholds hguard hstep
    · intro redis pid worker choice redis' worker' hredis hworker hbegun hcall
      obtain ⟨hredis', hworker'⟩ := workerStep_follows hm
        (fun call other hcall hother => hagrees call hcall other hother) hsingle hdet hredis hworker
        hbegun hcall
      exact ⟨hredis', hworker', fun _ _ _ hother => hother⟩
    · intro redis kept redis' hredis _ hevict
      exact ⟨hredis.evict hevict, fun _ _ hother => hother⟩
  exact fun pid ended hended => (hs.2 pid).ended ended hended

theorem plainObject_signed : plainObject.computeSignature = true := rfl

/-- A call with the stack of the filter that writes the attribute. -/
def writerCall : Call hexMurmur :=
  ⟨writerStack, namedSearch.load, ⟨fun _ => true, false⟩, plainObject, plainObject_signed⟩

/-- Two workers begin, and one of them stores what the third loads; the second dies. -/
def threeWorkers : List (Label (Choice hexMurmur) Eviction) :=
  [.proc 0 (.begin writerCall), .proc 1 (.begin writerCall), .proc 0 .next, .proc 1 .next,
    .proc 0 .next, .proc 0 .next, .proc 0 .store, .proc 2 (.begin writerCall), .proc 1 .next,
    .proc 2 .next, .proc 2 .next, .proc 1 .die, .proc 2 .next, .proc 2 .store]

/-- The third worker of this run accepts its object, with a value in the cache that another one
stored. -/
theorem exec_threeWorkers : ∃ s, exec (sharedStep namedSearch) initial threeWorkers = some s ∧
    (s.procs 2).ended.map (fun ended => ended.verdict.toOption) = [some true] ∧
    s.shared.attributes.entries = [("attribute:01", [1])] := by
  have hrun : (exec (sharedStep namedSearch) initial threeWorkers).map (fun s => decide
      ((s.procs 2).ended.map (fun ended => ended.verdict.toOption) = [some true] ∧
        s.shared.attributes.entries = [("attribute:01", [1])])) = some true := by decide +kernel
  obtain ⟨s, hs, hresult⟩ := Option.map_eq_some_iff.mp hrun
  exact ⟨s, hs, of_decide_eq_true hresult⟩

/-- All workers evaluate the same call. -/
theorem begun_threeWorkers {call : Call hexMurmur} (h : call ∈ threeWorkers.filterMap begun) :
    call = writerCall := by
  have hbegun : threeWorkers.filterMap begun = [writerCall, writerCall, writerCall] := rfl
  rw [hbegun] at h
  simpa using h

/-- What the third worker ends with is what it would have had on its own. -/
theorem shared_as_plain_threeWorkers : ∃ s,
    exec (sharedStep namedSearch) initial threeWorkers = some s ∧
      (s.procs 2).ended.map (fun ended => ended.verdict.toOption) = [some true] ∧
      ∀ ended ∈ (s.procs 2).ended, (ended.call.load ended.call.obj).unhandled = none →
        ended.verdict = (plain namedSearch ended.call).verdict ∧
          ((plain namedSearch ended.call).verdict = .ok true →
            Same ended.obj (plain namedSearch ended.call).obj) := by
  obtain ⟨s, hrun, hended, _⟩ := exec_threeWorkers
  have hfilter : ∀ {filter : Filter}, filter ∈ writerStack →
      filter = namedFilter "one" .zero [] := List.mem_singleton.mp
  refine ⟨s, hrun, hended, shared_as_plain hexMurmur_injective ?_ ?_ ?_ hrun 2⟩
  · intro call hcall other hother
    rw [begun_threeWorkers hcall, begun_threeWorkers hother]
    refine ⟨fun _ f hf g hg _ => ?_, fun _ _ => ⟨rfl, fun _ => rfl⟩⟩
    rw [hfilter hf, hfilter hg]
  · intro call hcall i reader key hreader hreads
    rw [begun_threeWorkers hcall] at hreader
    obtain ⟨obj, value, hread⟩ := hreads
    have hmem : reader ∈ writerStack := by
      have hrunner := List.mem_of_getElem? hreader
      simpa [bindRunners, writerCall] using hrunner
    -- the only filter reads nothing
    rw [hfilter hmem] at hread
    exact absurd (List.mem_singleton.mp hread) (by simp)
  · intro call hcall filter hmem
    rw [begun_threeWorkers hcall] at hmem
    rw [hfilter hmem]
    exact determined_writeX 1

end OpenDiamond.SharedEvaluation
