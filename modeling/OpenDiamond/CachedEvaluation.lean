import OpenDiamond.CachedDrop

/-!
# Evaluation with the caches

With the caches an object may be dropped before anything is run, and a runner whose cached
result still fits the object is not run: the values that it wrote come from the attribute
cache. The evaluation is compared with the one that runs everything, after any history of
evaluations that filled the caches.
-/

namespace OpenDiamond.CachedEvaluation

open Lib.OrderedDict Lib.Binary64 Lib.Runs DiamondObject FilterProtocol AttributeCache
open ResultKeys FilterStackRunner FilterOrder ResultCache CachedDrop

variable {m : Murmur}

/-! ## Every cached value is filed under its signature -/

/-- A value with a signature is cached under the hash of the value itself. -/
theorem getAttributeKey_signatureOf {computeSignature : Bool} {value : Bytes} {key : String}
    (h : getAttributeKey (signatureOf m computeSignature value) = some key) :
    key = "attribute:" ++ m.hash value := by
  cases computeSignature with
  | false => cases h
  | true => exact (Option.some.inj h).symm

/-- A value that is stored is one of the object, under its signature. -/
theorem cacheOutputs_contentAddressed (obj : Object m) (result : FilterResult) {redis : Redis}
    (h : redis.ContentAddressed m) : (cacheOutputs obj result redis).ContentAddressed m := by
  unfold cacheOutputs
  split
  · generalize result.outputAttrs.entries = entries
    induction entries generalizing redis with
    | nil => exact h
    | cons entry rest ih =>
      rw [List.foldl_cons]
      apply ih
      split
      · rename_i key value hkey hvalue
        split
        · rename_i hsig
          rw [Object.getSignature_eq, hvalue, Option.map_some, Option.some.injEq] at hsig
          rw [← hsig] at hkey
          intro key' value' hget
          rw [Dict.get?_set] at hget
          split at hget
          · rename_i heq
            cases hget
            rw [← heq]
            exact getAttributeKey_signatureOf hkey
          · exact h key' value' hget
        · exact h
      · exact h
  · exact h

/-- Storing new results keeps every value under its own hash. -/
theorem updateCache_contentAddressed {cacheKey : ℕ → String} {obj : Object m}
    {newResults : Dict ℕ FilterResult} {redis : Redis} (h : redis.ContentAddressed m) :
    (updateCache cacheKey obj newResults redis).ContentAddressed m := by
  unfold updateCache
  generalize newResults.entries = entries
  induction entries generalizing redis with
  | nil => exact h
  | cons entry rest ih => exact ih (cacheOutputs_contentAddressed obj entry.2 h)

/-- A call keeps every value under its own hash. -/
theorem evaluateCall_contentAddressed {search : Search m} {redis redis' : Redis} {call : Call m}
    (h : redis.ContentAddressed m) (hstep : evaluateCall search redis call = some redis') :
    redis'.ContentAddressed m := by
  unfold evaluateCall evaluateObject at hstep
  dsimp only at hstep
  split at hstep
  · cases hstep
    exact h
  · simp only [Option.map_some, Option.some.injEq] at hstep
    subst hstep
    split
    · exact h
    · exact updateCache_contentAddressed h

/-- After any history of calls each value of the cache stands under its own hash. -/
theorem contentAddressed_of_history {search : Search m} {calls : List (Call m)} {redis : Redis}
    (hrun : exec (evaluateCall search) Redis.empty calls = some redis) :
    redis.ContentAddressed m := by
  refine exec_invariant (I := Redis.ContentAddressed m)
    (fun _ _ _ hs hstep => evaluateCall_contentAddressed hs hstep) ?_ hrun
  intro key value h
  simp [Redis.empty] at h

/-! ## Objects in the same state -/

/-- Two objects that no filter and no client can tell apart. -/
structure Same (a b : Object m) : Prop where
  /-- The attributes. -/
  attrs : a.SameAttrs b
  /-- What is omitted. -/
  omitted : a.omitAttrs = b.omitAttrs
  /-- Signatures are computed in both or in none. -/
  computes : a.computeSignature = b.computeSignature

theorem Same.refl (a : Object m) : Same a a := ⟨fun _ => rfl, rfl, rfl⟩

/-- Two objects that are the same stay the same when both get a value. -/
theorem Same.setItem {a b : Object m} (h : Same a b) (key : String) (value : Bytes) :
    Same (a.setItem key value) (b.setItem key value) := by
  refine ⟨fun key' => ?_, h.omitted, h.computes⟩
  rw [Object.setItem_attrs, Object.setItem_attrs, Dict.get?_set, Dict.get?_set, h.attrs key']

/-- They stay the same when both get the attribute of one score. -/
theorem Same.storeScore {search : Search m} {a b : Object m} (h : Same a b)
    {result result' : FilterResult} (hscore : result.score = result'.score) (runner : Runner) :
    Same (storeScore search a result runner) (storeScore search b result' runner) := by
  cases runner with
  | fetcher => exact h
  | filterRunner filter =>
    rw [FilterStackRunner.storeScore, FilterStackRunner.storeScore, hscore]
    exact h.setItem _ _

/-- A filter takes the same course on both. -/
theorem Same.course {body : Proc Unit} (hb : Deterministic body) {a b : Object m}
    (h : Same a b) : AttributeCache.course body a = AttributeCache.course body b :=
  course_of_answered hb ((answered_congr h.attrs _).mpr (answered_course hb b))

/-- The same events leave them in the same state. -/
theorem Same.replay {a b : Object m} (h : Same a b) (events : List Event) :
    Same (AttributeCache.replay (a, FilterResult.new) events).1
      (AttributeCache.replay (b, FilterResult.new) events).1 := by
  obtain ⟨ha, hattrs, homit, _⟩ := replay_spec (a, FilterResult.new) events
  obtain ⟨hb, hattrs', homit', _⟩ := replay_spec (b, FilterResult.new) events
  refine ⟨fun key => ?_, ?_, ?_⟩
  · rw [hattrs, hattrs', h.attrs key]
  · rw [homit, homit', h.omitted]
  · rw [ha, hb, h.computes]

/-! ## One runner -/

/-- Two runs of a runner that return the same score and leave the object in the same state, or
raise the same exception. -/
inductive Alike : Except Failure FilterResult × Object m → Except Failure FilterResult × Object m →
    Prop where
  | returned {result result' : FilterResult} {a b : Object m} (hscore : result.score = result'.score)
    (h : Same a b) : Alike (.ok result, a) (.ok result', b)
  | raised (failure : Failure) (a b : Object m) : Alike (.error failure, a) (.error failure, b)

section Runners

variable {search : Search m} {a b : Object m}

/-- A filter that is run on both. -/
theorem filterRunner_alike (h : Same a b) (filter : Filter) (slow slow' : Bool) :
    Alike ((Runner.filterRunner filter).evaluate search slow a)
      ((Runner.filterRunner filter).evaluate search slow' b) := by
  have ha := evaluate_filterRunner search slow a filter
  have hb := evaluate_filterRunner search slow' b filter
  rw [h.course (search.deterministic filter.config)] at ha
  cases hs : (course (search.behaviour filter.config) b).2 with
  | none =>
    simp only [hs] at ha hb
    generalize Runner.evaluate search slow a (.filterRunner filter) = first at ha
    generalize Runner.evaluate search slow' b (.filterRunner filter) = second at hb
    rcases first with ⟨_, after⟩
    rcases second with ⟨_, after'⟩
    cases ha
    cases hb
    exact .raised _ after after'
  | some score =>
    simp only [hs] at ha hb
    rw [ha, hb]
    exact .returned rfl (h.replay _)

/-- A result is loaded only where its inputs match the object. -/
theorem inputsMatch_of_load {redis : Option Redis} {obj loaded : Object m} {result : FilterResult}
    (h : attributeCacheTryLoad redis obj result = some loaded) : inputsMatch obj result = true := by
  unfold attributeCacheTryLoad at h
  split at h
  · assumption
  · cases h

/-- A filter whose cached result was loaded into one, and that is run on the other. -/
theorem loaded_alike (hm : Function.Injective m.hash) {redis : Redis}
    (hredis : redis.ContentAddressed m) (h : Same a b) (hsig : a.computeSignature = true)
    {filter : Filter} (hdet : Determined m (search.behaviour filter.config)) {obj : Object m}
    {fresh : FilterResult} (hfresh : Records search obj fresh (.filterRunner filter))
    {loaded : Object m}
    (hload : attributeCacheTryLoad (some redis) a (stored fresh) = some loaded) (slow : Bool) :
    Alike (.ok (stored fresh), loaded) ((Runner.filterRunner filter).evaluate search slow b) := by
  obtain ⟨obj₀, slow₀, hobj₀, hrecord⟩ := hfresh
  obtain ⟨score, _, hresult⟩ := (outcome_ok_iff (search.deterministic filter.config) slow₀ obj₀
    fresh).mp hrecord
  have hmatch : inputsMatch a
      (replay (obj₀, .new) (course (search.behaviour filter.config) obj₀).1).2 = true := by
    have hfits := inputsMatch_of_load hload
    rw [hresult] at hfits
    exact hfits
  obtain ⟨result, hrun, hscore, hattrs, homit⟩ := loadedAsRun_of_answered hm hredis
    (search.deterministic filter.config) hobj₀ hrecord hload (hdet obj₀ a hobj₀ hsig hmatch)
  have heval : (Runner.filterRunner filter).evaluate search false a =
      (.ok result, (evaluateBody (search.behaviour filter.config) false a).obj) := by
    rw [← hrun]
    rfl
  have hcomputes := (@evaluate_filterRunner_records m search false a a _ filter result hsig
    heval).2
  have halike := @filterRunner_alike m search a b h filter false slow
  rw [heval] at halike
  generalize Runner.evaluate search slow b (.filterRunner filter) = plain at halike
  cases halike with
  | returned hscore' hsame =>
    refine .returned (hscore.symm.trans hscore') ⟨fun key => ?_, ?_, ?_⟩
    · rw [← hattrs key, hsame.attrs key]
    · rw [← homit, hsame.omitted]
    · rw [tryLoad_computeSignature hload, hsig, ← hcomputes, hsame.computes]

/-- The cached results of a stack are what its runners record, as the filters behave and the object
loads now. -/
structure Faithful (search : Search m) (filters : List Filter) (obj : Object m)
    (cacheResults : Dict ℕ FilterResult) : Prop where
  /-- The result of the fetcher. -/
  fetcher : ∀ cached, cacheResults.get? 0 = some cached →
    (search.load obj).failure = none ∧ cached.score = .zero ∧ cached.omitAttrs = ∅ ∧
      cached.inputAttrs = Dict.empty ∧ ∀ key, cached.outputAttrs.get? key =
        (obj.setItems (search.load obj).items).getSignature key
  /-- The results of the filters. -/
  filter : ∀ i cached, cacheResults.get? (i + 1) = some cached → ∃ filter fresh,
    filters[i]? = some filter ∧ Records search obj fresh (.filterRunner filter) ∧
      cached = stored fresh

/-- What an earlier call recorded of the fetcher is what the object loads now. -/
theorem cached_fetcher (hm : Function.Injective m.hash) {filters : List Filter} {obj : Object m}
    {redis : Redis} (hrec : Recorded search (Agrees search filters obj) redis)
    (hsig : obj.computeSignature = true) {result : FilterResult}
    (hi : (lookupResults (some redis) obj (bindRunners filters)).get? 0 = some result) :
    (search.load obj).failure = none ∧ result.score = .zero ∧ result.omitAttrs = ∅ ∧
      result.inputAttrs = Dict.empty ∧ ∀ key, result.outputAttrs.get? key =
        (obj.setItems (search.load obj).items).getSignature key := by
  obtain ⟨runner, hr, hget⟩ := lookupResults_get? hi
  obtain rfl : Runner.fetcher = runner := Option.some.inj hr
  obtain ⟨call, hagrees, source, _, fresh, hkey, hfresh, rfl⟩ := hrec _ _ hget
  obtain ⟨hdigest, hid⟩ := (getCacheKey_eq_iff hm (space_notMem_getCacheDigest _)
    (space_notMem_getCacheDigest source) _ _).mp hkey
  cases source with
  | filterRunner f => exact absurd hdigest.symm (cacheDigest_ne_dataretriever f.config)
  | fetcher =>
    simp only [Records, Runner.evaluate] at hfresh
    split at hfresh
    · cases hfresh
    · rename_i hload
      cases hfresh
      obtain ⟨hok, hsame⟩ := hagrees.loaded hid.symm hload
      refine ⟨hok, rfl, rfl, rfl, fun key => ?_⟩
      simp only [stored, Dict.get?_mapValues]
      rw [Object.getSignature_eq, ← hsame key, (obj.setItems_spec _).2.1, hsig,
        (call.obj.setItems_spec _).2.1, call.signed]
      rfl

/-- The results that are found in the database. -/
theorem faithful_lookupResults (hm : Function.Injective m.hash) {filters : List Filter}
    {obj : Object m} {redis : Redis} (hrec : Recorded search (Agrees search filters obj) redis)
    (hsig : obj.computeSignature = true) :
    Faithful search filters obj (lookupResults (some redis) obj (bindRunners filters)) := by
  refine ⟨fun _ hcached => cached_fetcher hm hrec hsig hcached, fun i cached hcached => ?_⟩
  obtain ⟨runner, hrunner, _⟩ := lookupResults_get? hcached
  have hmap := hrunner
  rw [bindRunners, List.getElem?_cons_succ, List.getElem?_map] at hmap
  obtain ⟨filter, hfilter, rfl⟩ := Option.map_eq_some_iff.mp hmap
  obtain ⟨fresh, hfresh⟩ := cached_records hm hrec hsig hcached hrunner
  exact ⟨filter, fresh, hfilter, hfresh⟩

/-- The fetcher, whose cached result was loaded, or not. -/
theorem fetcher_loaded_alike (hm : Function.Injective m.hash) {filters : List Filter}
    {obj : Object m} {redis : Redis} (hredis : redis.ContentAddressed m)
    {cacheResults : Dict ℕ FilterResult} (hcached : Faithful search filters obj cacheResults)
    (hsig : obj.computeSignature = true) {cached : FilterResult}
    (hi : cacheResults.get? 0 = some cached) {loaded : Object m}
    (hload : attributeCacheTryLoad (some redis) obj cached = some loaded) (slow : Bool) :
    Alike (.ok cached, loaded) (Runner.fetcher.evaluate search slow obj) := by
  obtain ⟨hok, hscore, homit, -, houtputs⟩ := hcached.fetcher cached hi
  obtain ⟨hall, hattrs, homits⟩ := tryLoad_spec hload
  obtain ⟨_, hcomputes, hkept, hset⟩ := obj.setItems_spec (search.load obj).items
  simp only [Runner.evaluate, hok]
  refine .returned hscore ⟨fun key => ?_, ?_, ?_⟩
  · rw [hattrs key]
    have hkey := hall key
    rw [houtputs key, Object.getSignature_eq, hcomputes, hsig] at hkey ⊢
    cases hvalue : (obj.setItems (search.load obj).items).attrs.get? key with
    | none =>
      -- loading only adds attributes
      rw [hset] at hvalue
      have hnone : obj.attrs.get? key = none := by
        by_contra hsome
        have hthere : ((obj.attrs.setAll (search.load obj).items).get? key).isSome :=
          Dict.isSome_get?_setAll (Or.inr (Option.isSome_iff_ne_none.mpr hsome))
        rw [hvalue] at hthere
        cases hthere
      simp [hnone]
    | some value =>
      rw [hvalue] at hkey
      simp only [Option.map_some, Option.isSome_some, Option.bind_some, forall_const] at hkey ⊢
      obtain ⟨value', hvalue'⟩ := Option.isSome_iff_exists.mp hkey
      have hfiled := hredis _ _ hvalue'
      have hhash : m.hash value = m.hash value' := by simpa [signatureOf] using hfiled
      rw [hvalue', hm hhash]
      rfl
  · rw [homits, homit, hkept]
    simp
  · rw [tryLoad_computeSignature hload, hcomputes]

/-- A pass of the loop with the caches against a run of the runner. -/
theorem loadOrRun_alike {redis : Redis} {cacheResults : Dict ℕ FilterResult} {slow : ℕ → Bool}
    {i : ℕ} {runner : Runner} {plain : Except Failure FilterResult × Object m}
    (hload : ∀ cached loaded, cacheResults.get? i = some cached →
      attributeCacheTryLoad (some redis) a cached = some loaded → Alike (.ok cached, loaded) plain)
    (hrun : Alike (runner.evaluate search (slow i) a) plain) (newResults : Dict ℕ FilterResult) :
    Alike ((loadOrRun search (some redis) cacheResults slow i runner a newResults).1,
      (loadOrRun search (some redis) cacheResults slow i runner a newResults).2.1) plain := by
  unfold loadOrRun
  split
  · rename_i cached loaded hbind
    obtain ⟨result, hresult, hmap⟩ := Option.bind_eq_some_iff.mp hbind
    obtain ⟨object, hobject, hpair⟩ := Option.map_eq_some_iff.mp hmap
    cases hpair
    exact hload cached loaded hresult hobject
  · split
    · rename_i result after heval
      rwa [heval] at hrun
    · rename_i failure after heval
      rwa [heval] at hrun

/-- The threshold looks at nothing but the score of a result. -/
theorem threshold_congr {result result' : FilterResult} (h : result.score = result'.score)
    (runner : Runner) : runner.threshold result = runner.threshold result' := by
  cases runner with
  | fetcher => rfl
  | filterRunner filter => rw [Runner.threshold, Runner.threshold, h]

/-- Two ends of the loop with the same verdict, and the same object if it is accepted. -/
structure SameEnd (cached plain : LoopEnd m) : Prop where
  /-- The verdict or the exception. -/
  verdict : cached.verdict = plain.verdict
  /-- The object. -/
  obj : plain.verdict = .ok true → Same cached.obj plain.obj

/-- One pass of both loops, with what follows it: where both go on alike, and the rest of both is
alike, the whole is. -/
theorem runLoop_cons {redis : Redis} {cacheResults : Dict ℕ FilterResult} {slow slow' : ℕ → Bool}
    {i : ℕ} {runner : Runner} {rest : List (Runner × ℕ)}
    {newResults newResults' : Dict ℕ FilterResult}
    (hpass : Alike ((loadOrRun search (some redis) cacheResults slow i runner a newResults).1,
      (loadOrRun search (some redis) cacheResults slow i runner a newResults).2.1)
      (runner.evaluate search (slow' i) b))
    (hcomputes : ∀ result after', runner.evaluate search (slow' i) b = (.ok result, after') →
      after'.computeSignature = true)
    (hrest : ∀ after after' new new', Same after after' → after'.computeSignature = true →
      SameEnd (runLoop search (some redis) cacheResults slow rest after new)
        (runLoop search none Dict.empty slow' rest after' new')) :
    SameEnd (runLoop search (some redis) cacheResults slow ((runner, i) :: rest) a newResults)
      (runLoop search none Dict.empty slow' ((runner, i) :: rest) b newResults') := by
  rw [runLoop, runLoop, loadOrRun_uncached]
  generalize loadOrRun search (some redis) cacheResults slow i runner a newResults = pass at hpass
  generalize runner.evaluate search (slow' i) b = plain at hpass hcomputes
  obtain ⟨outcome, after, new⟩ := pass
  cases hpass with
  | returned hscore hsame =>
    dsimp only
    rw [threshold_congr hscore runner]
    split
    · refine hrest _ _ _ _ (hsame.storeScore hscore runner) ?_
      rw [storeScore_computeSignature]
      exact hcomputes _ _ rfl
    · exact ⟨rfl, fun h => by cases h⟩
  | raised failure => exact ⟨rfl, fun h => by cases h⟩

/-- A filter runner whose result may be cached. -/
theorem filterRunner_pass_alike (hm : Function.Injective m.hash) {redis : Redis}
    (hredis : redis.ContentAddressed m) {filters : List Filter} {obj : Object m}
    {cacheResults : Dict ℕ FilterResult} (hcached : Faithful search filters obj cacheResults)
    {i : ℕ} {filter : Filter} (hfilter : filters[i]? = some filter)
    (hdet : Determined m (search.behaviour filter.config)) (h : Same a b)
    (hsig : b.computeSignature = true) (slow : ℕ → Bool) (slow' : Bool)
    (newResults : Dict ℕ FilterResult) :
    Alike ((loadOrRun search (some redis) cacheResults slow (i + 1) (.filterRunner filter) a
        newResults).1,
      (loadOrRun search (some redis) cacheResults slow (i + 1) (.filterRunner filter) a
        newResults).2.1) ((Runner.filterRunner filter).evaluate search slow' b) := by
  refine loadOrRun_alike (fun cached loaded hget hload => ?_) (filterRunner_alike h filter _ _)
    newResults
  obtain ⟨filter', fresh, hfilter', hfresh, rfl⟩ := hcached.filter i cached hget
  obtain rfl : filter' = filter := Option.some.inj (hfilter'.symm.trans hfilter)
  exact loaded_alike hm hredis h (h.computes.trans hsig) hdet hfresh hload _

/-- The fetcher, whose result may be cached. -/
theorem fetcher_pass_alike (hm : Function.Injective m.hash) {redis : Redis}
    (hredis : redis.ContentAddressed m) {filters : List Filter} {obj : Object m}
    {cacheResults : Dict ℕ FilterResult} (hcached : Faithful search filters obj cacheResults)
    (hsig : obj.computeSignature = true) (slow : ℕ → Bool) (slow' : Bool)
    (newResults : Dict ℕ FilterResult) :
    Alike ((loadOrRun search (some redis) cacheResults slow 0 .fetcher obj newResults).1,
      (loadOrRun search (some redis) cacheResults slow 0 .fetcher obj newResults).2.1)
      (Runner.fetcher.evaluate search slow' obj) := by
  refine loadOrRun_alike (fun cached loaded hget hload =>
    fetcher_loaded_alike hm hredis hcached hsig hget hload slow') ?_ newResults
  rw [Runner.evaluate, Runner.evaluate]
  cases (search.load obj).failure with
  | none => exact .returned rfl (.refl _)
  | some failure => exact .raised failure _ _

/-- The loop over filter runners goes alike with the caches and without them, by induction over the
runners. -/
theorem runLoop_alike (hm : Function.Injective m.hash) {redis : Redis}
    (hredis : redis.ContentAddressed m) {filters : List Filter} {obj : Object m}
    {cacheResults : Dict ℕ FilterResult} (hcached : Faithful search filters obj cacheResults)
    (slow slow' : ℕ → Bool) {rest : List Filter} (k : ℕ)
    (hrest : ∀ i filter, rest[i]? = some filter → filters[k + i]? = some filter)
    (hdet : ∀ filter ∈ rest, Determined m (search.behaviour filter.config))
    (h : Same a b) (hsig : b.computeSignature = true)
    (newResults newResults' : Dict ℕ FilterResult) :
    SameEnd (runLoop search (some redis) cacheResults slow
        ((rest.map Runner.filterRunner).zipIdx (k + 1)) a newResults)
      (runLoop search none Dict.empty slow' ((rest.map Runner.filterRunner).zipIdx (k + 1)) b
        newResults') := by
  induction rest generalizing k a b newResults newResults' with
  | nil => exact ⟨rfl, fun _ => h⟩
  | cons filter rest ih =>
    rw [List.map_cons, List.zipIdx_cons]
    refine runLoop_cons (filterRunner_pass_alike hm hredis hcached (hrest 0 filter rfl)
      (hdet filter List.mem_cons_self) h hsig _ _ _) ?_ ?_
    · exact fun result after' heval =>
        (@evaluate_filterRunner_records m search _ b b after' filter result hsig heval).2
    · intro after after' new new' hsame hcomputes
      refine ih (k + 1) (fun i next hnext => ?_)
        (fun next hnext => hdet next (List.mem_cons_of_mem filter hnext)) hsame hcomputes new new'
      have hshift : k + 1 + i = k + (i + 1) := by omega
      rw [hshift]
      exact hrest (i + 1) next hnext

/-- The whole loop goes alike from the object as the search gets it, the fetcher included. -/
theorem runLoop_bindRunners_alike (hm : Function.Injective m.hash) {filters : List Filter}
    {obj : Object m} {redis : Redis} (hredis : redis.ContentAddressed m)
    (hrec : Recorded search (Agrees search filters obj) redis) (hsig : obj.computeSignature = true)
    (hdet : ∀ filter ∈ filters, Determined m (search.behaviour filter.config))
    (slow slow' : ℕ → Bool) :
    SameEnd (runLoop search (some redis) (lookupResults (some redis) obj (bindRunners filters)) slow
        (bindRunners filters).zipIdx obj Dict.empty)
      (runLoop search none Dict.empty slow' (bindRunners filters).zipIdx obj Dict.empty) := by
  have hcached := faithful_lookupResults hm hrec hsig
  rw [bindRunners, List.zipIdx_cons, Nat.zero_add]
  refine runLoop_cons (fetcher_pass_alike hm hredis hcached hsig _ _ _) ?_ ?_
  · exact fun result after' heval => (evaluate_fetcher_records hsig heval).2
  · intro after after' new new' hsame hcomputes
    refine runLoop_alike hm hredis hcached slow slow' 0 (fun i filter hfilter => ?_) hdet hsame
      hcomputes new new'
    rw [Nat.zero_add]
    exact hfilter

/-! ## The walk -/

/-- When the walk drops the object, the runners without the caches do not pass it on either: some
filter would fail its threshold on the way. -/
theorem exec_pass_of_canDrop (hm : Function.Injective m.hash) {filters : List Filter}
    {obj : Object m} {redis : Redis} (hrec : Recorded search (Agrees search filters obj) redis)
    (hsig : obj.computeSignature = true)
    (hdet : ∀ filter ∈ filters, Determined m (search.behaviour filter.config))
    (horder : Orderly search filters (lookupResults (some redis) obj (bindRunners filters)))
    {deps : Finset ℕ} (hdrop : resultCacheCanDrop (bindRunners filters)
      (lookupResults (some redis) obj (bindRunners filters)) = some deps) :
    exec (pass search) obj (bindRunners filters) = none := by
  obtain ⟨i, cached, runner, hi, hrunner, hfail, hderivable⟩ := resultCacheCanDrop_sound hdrop
  have hlt := (List.getElem?_eq_some_iff.mp hrunner).1
  have hsplit := take_eq_append hlt hrunner
  rw [List.take_length] at hsplit
  rw [hsplit, exec_append]
  cases hexec : exec (pass search) obj ((bindRunners filters).take i) with
  | none => rfl
  | some before =>
    -- the runner repeats the score that its threshold rejects
    obtain ⟨result, after, heval, hscore, _⟩ :=
      derivable_repeats hm hrec hsig hdet horder hderivable cached runner before hi hrunner hexec
    have hpass : pass search before runner = none := by
      rw [FilterStackRunner.pass, heval]
      dsimp only
      rw [threshold_congr hscore runner, hfail]
      rfl
    rw [Option.bind_some, exec, hpass]

/-- So the verdict without the caches is a drop as well, with whatever else the runners do on the
way. -/
theorem plain_of_canDrop (hm : Function.Injective m.hash) {filters : List Filter}
    {obj : Object m} {redis : Redis} (hrec : Recorded search (Agrees search filters obj) redis)
    (hsig : obj.computeSignature = true)
    (hdet : ∀ filter ∈ filters, Determined m (search.behaviour filter.config))
    (horder : Orderly search filters (lookupResults (some redis) obj (bindRunners filters)))
    (hload : (search.load obj).unhandled = none) {deps : Finset ℕ}
    (hdrop : resultCacheCanDrop (bindRunners filters)
      (lookupResults (some redis) obj (bindRunners filters)) = some deps) (chance : Chance) :
    (evaluateObject search (bindRunners filters) none chance obj).verdict = .ok false := by
  have hplain := evaluateObject_uncached search filters chance obj
  rw [hload, exec_pass_of_canDrop hm hrec hsig hdet horder hdrop] at hplain
  exact hplain

/-- Ends of the loop that are alike give verdicts and objects that are alike. -/
theorem SameEnd.evaluated {cached : LoopEnd m} {filters : List Filter} {obj : Object m}
    {chance : Chance} (h : SameEnd cached (runLoop search none Dict.empty chance.slow
      (bindRunners filters).zipIdx obj Dict.empty)) :
    handled cached.verdict =
        (evaluateObject search (bindRunners filters) none chance obj).verdict ∧
      ((evaluateObject search (bindRunners filters) none chance obj).verdict = .ok true →
        Same cached.obj (evaluateObject search (bindRunners filters) none chance obj).obj) := by
  rw [evaluateObject_none]
  refine ⟨by rw [h.verdict], fun haccept => h.obj ?_⟩
  dsimp only at haccept
  generalize (runLoop search none Dict.empty chance.slow (bindRunners filters).zipIdx obj
    Dict.empty).verdict = verdict at haccept
  cases verdict with
  | ok accept => exact haccept
  | error failure => cases failure <;> cases haccept

end Runners

/-- After any history of evaluations that filled the caches, an evaluation with the caches has
the verdict of the evaluation that runs everything, and leaves an accepted object with the same
attributes and the same omissions: when the earlier calls about the object had the same filters
behind the same digests and loaded the same attributes, the records of the filters determine
their courses, and what one cached result supplies to another is still there when the other
filter runs. -/
theorem cached_as_plain (hm : Function.Injective m.hash) {search : Search m}
    {filters : List Filter} {obj : Object m} (hsig : obj.computeSignature = true)
    {calls : List (Call m)} {redis : Redis}
    (hcalls : Guarded (evaluateCall search)
      (fun _ call => Agrees search filters obj call) Redis.empty calls)
    (hrun : exec (evaluateCall search) Redis.empty calls = some redis)
    (hdet : ∀ filter ∈ filters, Determined m (search.behaviour filter.config))
    (horder : Orderly search filters (lookupResults (some redis) obj (bindRunners filters)))
    (hload : (search.load obj).unhandled = none) (chance chance' : Chance) :
    (evaluateObject search (bindRunners filters) (some redis) chance obj).verdict =
        (evaluateObject search (bindRunners filters) none chance' obj).verdict ∧
      ((evaluateObject search (bindRunners filters) none chance' obj).verdict = .ok true →
        Same (evaluateObject search (bindRunners filters) (some redis) chance obj).obj
          (evaluateObject search (bindRunners filters) none chance' obj).obj) := by
  have hrec := recorded_of_history hcalls hrun
  cases hdrop : resultCacheCanDrop (bindRunners filters)
      (lookupResults (some redis) obj (bindRunners filters)) with
  | some deps =>
    have hplain := plain_of_canDrop hm hrec hsig hdet horder hload hdrop chance'
    have hcached : (evaluateObject search (bindRunners filters) (some redis) chance obj).verdict =
        .ok false := by
      simp only [evaluateObject, hdrop]
    rw [hcached, hplain]
    exact ⟨rfl, fun h => by cases h⟩
  | none =>
    have hend := (runLoop_bindRunners_alike hm (contentAddressed_of_history hrun) hrec hsig hdet
      chance.slow chance'.slow).evaluated
    simp only [evaluateObject, hdrop] at hend ⊢
    exact hend

/-- The first call with slow filters, whose outputs are cached. -/
def slowCall : Call hexMurmur := { firstCall with chance := ⟨fun _ => true, false⟩ }

/-- The database after the slow call. -/
def slowRedis : Redis := ⟨firstRedis.results, Dict.empty.set "attribute:01" [1]⟩

/-- The slow call fills the empty cache. -/
theorem exec_slowCall :
    exec (evaluateCall namedSearch) Redis.empty [slowCall] = some slowRedis := by
  have hcall : evaluateCall namedSearch Redis.empty slowCall = some slowRedis := rfl
  rw [exec_cons hcall, exec_nil]

/-- The stack of the filter that writes the attribute. -/
def writerStack : List Filter := [namedFilter "one" .zero []]

/-- The stack with the writer finds two results of that call. -/
theorem lookupResults_writerStack :
    lookupResults (some slowRedis) plainObject (bindRunners writerStack) =
      ⟨[(0, fetched), (1, wroteOne)], by decide⟩ := by
  have hresults : cachedEntries slowRedis plainObject (bindRunners writerStack) =
      cachedEntries firstRedis plainObject (bindRunners writerStack) := rfl
  apply Dict.ext
  rw [lookupResults_entries, hresults,
    cachedEntries_named firstRedis_get?_fetcher (fun _ => firstRedis_get?) (by decide)]
  rfl

/-- The filter is not run again: what it wrote is loaded from the cache, and the verdict and the
object are those of a run without it. -/
theorem cached_as_plain_loaded :
    exec (evaluateCall namedSearch) Redis.empty [slowCall] = some slowRedis ∧
      (evaluateObject namedSearch (bindRunners writerStack) none steady plainObject).verdict =
        .ok true ∧
      (evaluateObject namedSearch (bindRunners writerStack) (some slowRedis) steady
        plainObject).verdict = .ok true ∧
      Same (evaluateObject namedSearch (bindRunners writerStack) (some slowRedis) steady
          plainObject).obj
        (evaluateObject namedSearch (bindRunners writerStack) none steady plainObject).obj := by
  have hplain : (evaluateObject namedSearch (bindRunners writerStack) none steady
      plainObject).verdict = .ok true := by decide
  have hguard : Guarded (evaluateCall namedSearch)
      (fun _ call => Agrees namedSearch writerStack plainObject call) Redis.empty [slowCall] := by
    refine ⟨⟨fun _ f hf g hg heq => ?_, fun _ _ => ⟨rfl, fun _ => rfl⟩⟩, fun _ _ => trivial⟩
    simp only [slowCall, firstCall, List.mem_cons, List.not_mem_nil, or_false] at hf
    rw [writerStack, List.mem_singleton] at hg
    subst hg
    rcases hf with rfl | rfl
    · rfl
    · exact absurd (namedDigest_inj (by decide) (by decide) heq) (by decide)
  have hdet : ∀ filter ∈ writerStack, Determined hexMurmur (namedSearch.behaviour filter.config) := by
    intro filter hfilter
    rw [writerStack, List.mem_singleton] at hfilter
    subst hfilter
    exact determined_writeX 1
  have horder : Orderly namedSearch writerStack
      (lookupResults (some slowRedis) plainObject (bindRunners writerStack)) := by
    rw [lookupResults_writerStack]
    rintro p i key valsig _ _ ⟨result, hi, hmem⟩
    rcases i with _ | _ | k
    · cases hi
      simp [fetched, FilterResult.new, Dict.empty] at hmem
    · cases hi
      simp [wroteOne, FilterResult.new, Dict.empty] at hmem
    · simp [Dict.get?, find] at hi
  obtain ⟨hverdict, hsame⟩ := cached_as_plain hexMurmur_injective rfl hguard exec_slowCall hdet
    horder rfl steady steady
  exact ⟨exec_slowCall, hplain, hverdict.trans hplain, hsame hplain⟩

end OpenDiamond.CachedEvaluation
