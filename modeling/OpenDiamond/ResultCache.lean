import OpenDiamond.FilterOrder

/-!
# The contents of the result cache and the walk through them

What a history of `_evaluate` calls leaves in the database: every stored
result is the record of a runner of one of the calls. And what the walk through
the cached results establishes: a drop comes from a result whose inputs are
outputs of cached results, all the way down.
-/

namespace OpenDiamond.ResultCache

open Lib.OrderedDict Lib.Binary64 Lib.Runs DiamondObject FilterProtocol AttributeCache
open ResultKeys FilterStackRunner FilterOrder

variable {m : Murmur}

/-! ## Histories -/

/-- An earlier call of `_evaluate`: its stack, how the object loaded at that
time, and the object. With a cache, objects compute signatures. -/
structure Call (m : Murmur) where
  /-- The filters of the stack, in order. -/
  filters : List Filter
  /-- `ObjectLoader.load` at the time. -/
  load : Object m → Loading
  /-- Speed of the filters and outcome of `mset`. -/
  chance : Chance
  /-- The object. -/
  obj : Object m
  /-- `compute_signature` is set when there is a cache server. -/
  signed : obj.computeSignature = true

/-- The surroundings of an earlier call: the filters are the same functions. -/
def Call.search (search : Search m) (call : Call m) : Search m := { search with load := call.load }

/-- The database after a call. -/
def evaluateCall (search : Search m) (redis : Redis) (call : Call m) : Option Redis :=
  (evaluateObject (call.search search) (bindRunners call.filters) (some redis) call.chance
    call.obj).redis

/-- The result is the record of the runner: of the fetcher on the object of
the call, of a filter on some state of an object. -/
def Records (search : Search m) (obj : Object m) (result : FilterResult) : Runner → Prop
  | .fetcher => (Runner.fetcher.evaluate search false obj).1 = .ok result
  | .filterRunner filter => ∃ obj₀ slow, obj₀.computeSignature = true ∧
      ((Runner.filterRunner filter).evaluate search slow obj₀).1 = .ok result

/-- Every stored result was recorded by a runner of a call that the predicate
allows, under the key of that runner and the object of that call. -/
def Recorded (search : Search m) (allowed : Call m → Prop) (redis : Redis) : Prop :=
  ∀ key result, redis.results.get? key = some result →
    ∃ call : Call m, allowed call ∧ ∃ runner ∈ bindRunners call.filters, ∃ fresh,
      key = getCacheKey m (runner.getCacheDigest m) call.obj.id ∧
        Records (call.search search) call.obj fresh runner ∧ result = stored fresh

/-- Every new result of a loop is the record of the runner at its position. -/
def NewRecorded (search : Search m) (runners : List Runner) (obj : Object m)
    (newResults : Dict ℕ FilterResult) : Prop :=
  ∀ i result, newResults.get? i = some result →
    ∃ runner, runners[i]? = some runner ∧ Records search obj result runner

theorem newRecorded_set {search : Search m} {runners : List Runner} {obj : Object m}
    {newResults : Dict ℕ FilterResult} (h : NewRecorded search runners obj newResults) {i : ℕ}
    {runner : Runner} (hi : runners[i]? = some runner) {result : FilterResult}
    (hr : Records search obj result runner) :
    NewRecorded search runners obj (newResults.set i result) := by
  intro j result' hj
  rw [Dict.get?_set] at hj
  split at hj
  · rename_i hij
    cases hj
    exact ⟨runner, hij ▸ hi, hr⟩
  · exact h j result' hj

/-- Loading a result does not change how signatures are computed. -/
theorem tryLoad_computeSignature {redis : Option Redis} {obj loaded : Object m}
    {result : FilterResult} (h : attributeCacheTryLoad redis obj result = some loaded) :
    loaded.computeSignature = obj.computeSignature := by
  unfold attributeCacheTryLoad at h
  split at h
  · obtain ⟨items, _, rfl⟩ := Option.map_eq_some_iff.mp h
    exact (obj.setItems_spec items).2.1
  · cases h

/-- A filter runner that returns made a record, and left `computeSignature` as
it was. -/
theorem evaluate_filterRunner_records {search : Search m} {slow : Bool} {start obj after : Object m}
    {filter : Filter} {result : FilterResult} (hsig : obj.computeSignature = true)
    (h : (Runner.filterRunner filter).evaluate search slow obj = (.ok result, after)) :
    Records search start result (.filterRunner filter) ∧ after.computeSignature = true := by
  refine ⟨⟨obj, slow, hsig, by rw [h]⟩, ?_⟩
  have hcourse := evaluate_filterRunner search slow obj filter
  cases hs : (course (search.behaviour filter.config) obj).2 with
  | none =>
    simp only [hs, h] at hcourse
    cases hcourse
  | some score =>
    simp only [hs, h, Prod.mk.injEq] at hcourse
    rw [hcourse.2]
    exact (replay_spec (obj, .new) _).1.trans hsig

theorem evaluate_fetcher_records {search : Search m} {slow : Bool} {obj after : Object m}
    {result : FilterResult} (hsig : obj.computeSignature = true)
    (h : Runner.fetcher.evaluate search slow obj = (.ok result, after)) :
    Records search obj result .fetcher ∧ after.computeSignature = true := by
  refine ⟨congrArg Prod.fst h, ?_⟩
  simp only [Runner.evaluate] at h
  split at h
  · cases h
  · cases h
    exact (obj.setItems_spec _).2.1.trans hsig

/-- One pass of the loop: the new results stay records, and the object goes on
computing signatures. -/
theorem loadOrRun_recorded {search : Search m} (redis : Option Redis)
    (cacheResults : Dict ℕ FilterResult) (slow : ℕ → Bool) {runners : List Runner}
    {start obj : Object m} {newResults : Dict ℕ FilterResult} {i : ℕ} {runner : Runner}
    (hi : runners[i]? = some runner) (hsig : obj.computeSignature = true)
    (hnew : NewRecorded search runners start newResults)
    (hrec : ∀ result after, runner.evaluate search (slow i) obj = (.ok result, after) →
      Records search start result runner ∧ after.computeSignature = true) :
    let pass := loadOrRun search redis cacheResults slow i runner obj newResults
    NewRecorded search runners start pass.2.2 ∧
      (∀ result, pass.1 = .ok result → pass.2.1.computeSignature = true) := by
  unfold loadOrRun
  split
  · rename_i cached loaded hload
    refine ⟨hnew, fun _ _ => ?_⟩
    obtain ⟨result, _, hmap⟩ := Option.bind_eq_some_iff.mp hload
    obtain ⟨object, hobject, hpair⟩ := Option.map_eq_some_iff.mp hmap
    cases hpair
    exact (tryLoad_computeSignature hobject).trans hsig
  · split
    · rename_i result after heval
      obtain ⟨hrecords, hafter⟩ := hrec result after heval
      exact ⟨newRecorded_set hnew hi hrecords, fun _ _ => hafter⟩
    · exact ⟨hnew, fun _ h => by cases h⟩

theorem storeScore_computeSignature (search : Search m) (obj : Object m) (result : FilterResult)
    (runner : Runner) :
    (storeScore search obj result runner).computeSignature = obj.computeSignature := by
  cases runner <;> rfl

/-- The loop over filter runners only adds records of these runners for this object, by induction
over the runners. -/
theorem runLoop_recorded {search : Search m} (redis : Option Redis)
    (cacheResults : Dict ℕ FilterResult) (slow : ℕ → Bool) {runners : List Runner}
    {start : Object m} (filters : List Filter) (k : ℕ)
    (hpos : ∀ i filter, filters[i]? = some filter →
      runners[k + i]? = some (.filterRunner filter))
    (obj : Object m) (hsig : obj.computeSignature = true) (newResults : Dict ℕ FilterResult)
    (hnew : NewRecorded search runners start newResults) :
    NewRecorded search runners start (runLoop search redis cacheResults slow
      ((filters.map Runner.filterRunner).zipIdx k) obj newResults).newResults := by
  induction filters generalizing k obj newResults with
  | nil => exact hnew
  | cons filter rest ih =>
    have hstep := loadOrRun_recorded redis cacheResults slow (hpos 0 filter rfl) hsig hnew
      (fun _ _ => evaluate_filterRunner_records hsig)
    have hrest : ∀ i f, rest[i]? = some f → runners[k + 1 + i]? = some (.filterRunner f) := by
      intro i f hf
      have hnext := hpos (i + 1) f hf
      rwa [show k + (i + 1) = k + 1 + i by omega] at hnext
    simp only [List.map_cons, List.zipIdx_cons, runLoop]
    rw [Nat.add_zero] at hstep
    rcases hpass : loadOrRun search redis cacheResults slow k (.filterRunner filter) obj
      newResults with ⟨_ | result, after, new⟩
    · rw [hpass] at hstep
      exact hstep.1
    · rw [hpass] at hstep
      dsimp only
      split
      · refine ih (k + 1) hrest _ ?_ new hstep.1
        rw [storeScore_computeSignature]
        exact hstep.2 result rfl
      · exact hstep.1

/-- All new results of a call are records: the fetcher is the only runner that
sees the object as the call got it. -/
theorem runLoop_bindRunners_recorded {search : Search m} {redis : Option Redis}
    {cacheResults : Dict ℕ FilterResult} {slow : ℕ → Bool} (filters : List Filter)
    (obj : Object m) (hsig : obj.computeSignature = true) :
    NewRecorded search (bindRunners filters) obj (runLoop search redis cacheResults slow
      (bindRunners filters).zipIdx obj Dict.empty).newResults := by
  have hempty : NewRecorded search (bindRunners filters) obj Dict.empty := by
    intro i result h
    simp at h
  have hpos : ∀ i filter, filters[i]? = some filter →
      (bindRunners filters)[1 + i]? = some (.filterRunner filter) := by
    intro i filter h
    rw [bindRunners, Nat.add_comm, List.getElem?_cons_succ, List.getElem?_map, h]
    rfl
  have hzero : (bindRunners filters)[0]? = some .fetcher := rfl
  have hstep := loadOrRun_recorded redis cacheResults slow hzero hsig hempty
    (fun _ _ => evaluate_fetcher_records hsig)
  show NewRecorded search (bindRunners filters) obj (runLoop search redis cacheResults slow
    ((.fetcher, 0) :: (filters.map Runner.filterRunner).zipIdx 1) obj Dict.empty).newResults
  rw [runLoop]
  rcases hpass : loadOrRun search redis cacheResults slow 0 .fetcher obj Dict.empty with
    ⟨_ | result, after, new⟩
  · rw [hpass] at hstep
    exact hstep.1
  · rw [hpass] at hstep
    exact runLoop_recorded redis cacheResults slow filters 1 hpos _ (hstep.2 result rfl) new
      hstep.1

/-- The attribute entries of a call leave the results alone. -/
theorem cacheOutputs_results (obj : Object m) (result : FilterResult) (redis : Redis) :
    (cacheOutputs obj result redis).results = redis.results := by
  unfold cacheOutputs
  split
  · generalize result.outputAttrs.entries = entries
    induction entries generalizing redis with
    | nil => rfl
    | cons entry rest ih =>
      rw [List.foldl_cons, ih]
      split
      · split <;> rfl
      · rfl
  · rfl

/-- A result in the updated database was there or is new. -/
theorem updateCache_results {cacheKey : ℕ → String} {obj : Object m}
    {newResults : Dict ℕ FilterResult} {redis : Redis} {key : String} {result : FilterResult}
    (h : (updateCache cacheKey obj newResults redis).results.get? key = some result) :
    redis.results.get? key = some result ∨
      ∃ i fresh, newResults.get? i = some fresh ∧ key = cacheKey i ∧ result = stored fresh := by
  have hmem : ∀ entry ∈ newResults.entries, newResults.get? entry.1 = some entry.2 :=
    fun entry hentry => (newResults.get?_eq_some_iff entry.1 entry.2).mpr hentry
  unfold updateCache at h
  generalize newResults.entries = entries at h hmem
  induction entries generalizing redis with
  | nil => exact Or.inl h
  | cons entry rest ih =>
    rw [List.foldl_cons] at h
    rcases ih h (fun e he => hmem e (List.mem_cons_of_mem entry he)) with hold | hnew
    · rw [cacheOutputs_results, Dict.get?_set] at hold
      split at hold
      · rename_i hkey
        cases hold
        exact Or.inr ⟨entry.1, entry.2, hmem entry List.mem_cons_self, hkey.symm, rfl⟩
      · exact Or.inl hold
    · exact Or.inr hnew

/-- A call keeps the database a collection of records. -/
theorem evaluateCall_recorded {search : Search m} {allowed : Call m → Prop} {redis redis' : Redis}
    {call : Call m} (h : Recorded search allowed redis) (hallowed : allowed call)
    (hstep : evaluateCall search redis call = some redis') : Recorded search allowed redis' := by
  unfold evaluateCall evaluateObject at hstep
  dsimp only at hstep
  split at hstep
  · cases hstep
    exact h
  · simp only [Option.map_some, Option.some.injEq] at hstep
    subst hstep
    split
    · exact h
    · intro key result hkey
      rcases updateCache_results hkey with hold | ⟨i, fresh, hfresh, rfl, rfl⟩
      · exact h key result hold
      · obtain ⟨runner, hrunner, hrec⟩ :=
          runLoop_bindRunners_recorded call.filters call.obj call.signed i fresh hfresh
        refine ⟨call, hallowed, runner, List.mem_of_getElem? hrunner, fresh, ?_, hrec, rfl⟩
        simp only [cacheKey, hrunner]

/-- Whatever a history left in the database was recorded by one of its
calls. -/
theorem recorded_of_history {search : Search m} {allowed : Call m → Prop} {calls : List (Call m)}
    {redis : Redis}
    (hguard : Guarded (evaluateCall search) (fun _ call => allowed call) Redis.empty calls)
    (hrun : exec (evaluateCall search) Redis.empty calls = some redis) :
    Recorded search allowed redis := by
  refine exec_invariant_of_guarded (I := Recorded search allowed)
    (fun s call t hs hcall hstep => evaluateCall_recorded hs hcall hstep) ?_ hguard hrun
  intro key result h
  simp [Redis.empty] at h

/-! ## What the walk establishes -/

/-- A cached result whose inputs are outputs of such results: the least set the
walk can resolve. -/
inductive Derivable (cacheResults : Dict ℕ FilterResult) : ℕ → Prop
  | supplied {i : ℕ} {result : FilterResult} (hi : cacheResults.get? i = some result)
      (supplier : String × Option Signature → ℕ)
      (hsig : ∀ entry ∈ result.inputAttrs.entries, ∃ valsig, entry.2 = some valsig ∧
        (cacheResults.get? (supplier entry)).bind (·.outputAttrs.get? entry.1) = some valsig)
      (hsupplier : ∀ entry ∈ result.inputAttrs.entries, Derivable cacheResults (supplier entry)) :
      Derivable cacheResults i

/-- The memo of the walk holds derivable runners only. -/
def ResolvedSound (cacheResults : Dict ℕ FilterResult) (resolved : Resolved) : Prop :=
  ∀ i dependencies, resolved.get? i = some dependencies → Derivable cacheResults i

section Walk

variable {cacheResults : Dict ℕ FilterResult}
  {recurse : Resolved → ℕ → Option (Finset ℕ) × Resolved}

/-- A call of `resolve` keeps the memo sound, and a set it returns means that
the runner is derivable. -/
def RecurseSound (cacheResults : Dict ℕ FilterResult)
    (recurse : Resolved → ℕ → Option (Finset ℕ) × Resolved) : Prop :=
  ∀ resolved runner, ResolvedSound cacheResults resolved →
    ResolvedSound cacheResults (recurse resolved runner).2 ∧
      ((recurse resolved runner).1.isSome → Derivable cacheResults runner)

theorem resolveInput_sound (hrec : RecurseSound cacheResults recurse) (key : String)
    (valsig : Signature) (candidates : List ℕ) (resolved : Resolved)
    (hs : ResolvedSound cacheResults resolved) :
    let found := resolveInput cacheResults recurse key valsig candidates resolved
    ResolvedSound cacheResults found.2 ∧ (found.1.isSome → ∃ cur,
      (cacheResults.get? cur).bind (·.outputAttrs.get? key) = some valsig ∧
        Derivable cacheResults cur) := by
  induction candidates generalizing resolved with
  | nil => exact ⟨hs, fun h => by simp [resolveInput] at h⟩
  | cons cur rest ih =>
    simp only [resolveInput]
    split
    · rename_i hval
      obtain ⟨hkeep, hder⟩ := hrec resolved cur hs
      rcases hcall : recurse resolved cur with ⟨_ | deps, resolved'⟩
      · rw [hcall] at hkeep
        exact ih resolved' hkeep
      · rw [hcall] at hkeep hder
        exact ⟨hkeep, fun _ => ⟨cur, hval, hder rfl⟩⟩
    · exact ih resolved hs

theorem resolveInputs_sound (hrec : RecurseSound cacheResults recurse)
    (entries : List (String × Option Signature)) (dependencies : Finset ℕ) (resolved : Resolved)
    (hs : ResolvedSound cacheResults resolved) :
    let found := resolveInputs cacheResults recurse entries dependencies resolved
    ResolvedSound cacheResults found.2 ∧ (found.1.isSome → ∀ entry ∈ entries, ∃ cur,
      (∃ valsig, entry.2 = some valsig ∧
        (cacheResults.get? cur).bind (·.outputAttrs.get? entry.1) = some valsig) ∧
          Derivable cacheResults cur) := by
  induction entries generalizing dependencies resolved with
  | nil => exact ⟨hs, fun _ entry h => by simp at h⟩
  | cons entry rest ih =>
    rcases entry with ⟨key, _ | valsig⟩
    · exact ⟨hs, fun h => by simp [resolveInputs] at h⟩
    · obtain ⟨hkeep, hfound⟩ := resolveInput_sound hrec key valsig (outputRunners cacheResults key)
        resolved hs
      simp only [resolveInputs]
      rcases hcall : resolveInput cacheResults recurse key valsig (outputRunners cacheResults key)
        resolved with ⟨_ | deps, resolved'⟩
      · rw [hcall] at hkeep
        exact ⟨hkeep, fun h => by simp at h⟩
      · rw [hcall] at hkeep hfound
        obtain ⟨hkeep', hrest⟩ := ih (dependencies ∪ deps) resolved' hkeep
        refine ⟨hkeep', fun h entry hentry => ?_⟩
        rcases List.mem_cons.mp hentry with rfl | hentry
        · obtain ⟨cur, hval, hder⟩ := hfound rfl
          exact ⟨cur, ⟨valsig, rfl, hval⟩, hder⟩
        · exact hrest h entry hentry

theorem resolve_sound (depth : ℕ) (inprocess : Finset ℕ) :
    RecurseSound cacheResults (resolve cacheResults depth inprocess) := by
  induction depth generalizing inprocess with
  | zero => exact fun resolved runner hs => ⟨hs, fun h => by simp [resolve] at h⟩
  | succ depth ih =>
    intro resolved runner hs
    unfold resolve
    split
    · rename_i deps hdeps
      exact ⟨hs, fun _ => hs runner deps hdeps⟩
    · split
      · exact ⟨hs, fun h => by simp at h⟩
      · rename_i result hresult
        split
        · exact ⟨hs, fun h => by simp at h⟩
        · obtain ⟨hkeep, hinputs⟩ := resolveInputs_sound (ih (insert runner inprocess))
            result.inputAttrs.entries {runner} resolved hs
          rcases hcall : resolveInputs cacheResults
            (resolve cacheResults depth (insert runner inprocess)) result.inputAttrs.entries
            {runner} resolved with ⟨_ | deps, resolved'⟩
          · rw [hcall] at hkeep
            exact ⟨hkeep, fun h => by simp at h⟩
          · rw [hcall] at hkeep hinputs
            have hall := hinputs rfl
            choose! supplier hsupplier using hall
            have hder : Derivable cacheResults runner :=
              .supplied hresult supplier (fun entry hentry => (hsupplier entry hentry).1)
                (fun entry hentry => (hsupplier entry hentry).2)
            refine ⟨fun i dependencies hi => ?_, fun _ => hder⟩
            rw [Dict.get?_set] at hi
            split at hi
            · rename_i heq
              exact heq ▸ hder
            · exact hkeep i dependencies hi

/-- A drop from the result cache comes from a result that fails the threshold of its
runner, and has what every set that `resolve` returns has. -/
theorem resultCacheCanDrop_of_resolve {I : Resolved → Prop} {Q : ℕ → Finset ℕ → Prop}
    (hempty : I Dict.empty)
    (hresolve : ∀ resolved i, I resolved →
      I (resolve cacheResults (cacheResults.entries.length + 1) ∅ resolved i).2 ∧
        ∀ deps, (resolve cacheResults (cacheResults.entries.length + 1) ∅ resolved i).1 =
          some deps → Q i deps)
    {runners : List Runner} {deps : Finset ℕ}
    (h : resultCacheCanDrop runners cacheResults = some deps) :
    ∃ i result runner, cacheResults.get? i = some result ∧ runners[i]? = some runner ∧
      runner.threshold result = false ∧ Q i deps := by
  have hmem : ∀ entry ∈ cacheResults.entries, cacheResults.get? entry.1 = some entry.2 :=
    fun entry hentry => (cacheResults.get?_eq_some_iff entry.1 entry.2).mpr hentry
  unfold resultCacheCanDrop at h
  generalize cacheResults.entries = entries at h hmem
  generalize Dict.empty = resolved at h hempty
  induction entries generalizing resolved with
  | nil => simp [findDrop] at h
  | cons entry rest ih =>
    rcases entry with ⟨i, result⟩
    have hrest := ih (fun e he => hmem e (List.mem_cons_of_mem _ he))
    simp only [findDrop] at h
    split at h
    · rename_i runner hrunner
      split at h
      · exact hrest resolved h hempty
      · rename_i hfail
        obtain ⟨hkeep, hset⟩ := hresolve resolved i hempty
        rcases hcall : resolve cacheResults (cacheResults.entries.length + 1) ∅ resolved i with
          ⟨_ | deps', resolved'⟩
        · rw [hcall] at hkeep h
          exact hrest resolved' h hkeep
        · rw [hcall] at hset h
          cases h
          exact ⟨i, result, runner, hmem (i, result) List.mem_cons_self, hrunner,
            by simpa using hfail, hset _ rfl⟩
    · exact hrest resolved h hempty

/-- The walk is right when it reports a drop: some cached result fails its threshold, and what it
was made from can be derived from the cache. -/
theorem resultCacheCanDrop_sound {runners : List Runner} {deps : Finset ℕ}
    (h : resultCacheCanDrop runners cacheResults = some deps) :
    ∃ i result runner, cacheResults.get? i = some result ∧ runners[i]? = some runner ∧
      runner.threshold result = false ∧ Derivable cacheResults i := by
  have hsound : ResolvedSound cacheResults Dict.empty := fun i deps hi => by simp at hi
  refine @resultCacheCanDrop_of_resolve cacheResults _ (fun i _ => Derivable cacheResults i) hsound
    (fun resolved i hresolved => ?_) runners deps h
  obtain ⟨hkeep, hder⟩ := resolve_sound (cacheResults.entries.length + 1) ∅ resolved i hresolved
  exact ⟨hkeep, fun deps hdeps => hder (by rw [hdeps]; rfl)⟩

end Walk

end OpenDiamond.ResultCache
