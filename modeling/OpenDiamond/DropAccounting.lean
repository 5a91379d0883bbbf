import Mathlib.Algebra.BigOperators.Group.Finset.Piecewise
import Mathlib.Algebra.Order.BigOperators.Group.Finset
import OpenDiamond.CachedWalk
import OpenDiamond.Worker

/-!
# Dropped objects in the statistics

Which counter of dropped objects an evaluation raises. A filter that dies
leaves the default score in its record, and the logger is told what the
thresholds make of that score. A drop from the result cache notifies every
runner whose cached result takes part.
-/

namespace OpenDiamond.DropAccounting

open Lib.OrderedDict Lib.Binary64 Lib.Runs DiamondObject FilterProtocol FilterStackRunner
  CachedWalk Statistics Worker

variable {m : Murmur} {ε σ : Type}

/-! ## The command loop -/

/-- No reply to a command changes the score; only the result does. -/
theorem handle_reply_score {services : Services ε} {st st' : FilterProtocol.LoopState m ε}
    {cmd : Command} {r : Reply} (h : handle services st cmd = .reply r st') :
    st'.result.score = st.result.score := by
  unfold handle at h
  split at h <;> try (split at h)
  all_goals grind

/-- An `IOError` of the loop is no failed load. -/
theorem onIOError_ne (initialized : Bool) : onIOError initialized ≠ .objectLoadError := by
  cases initialized <;> simp

/-- No command raises the failure of the loader. -/
theorem handle_raise_ne {services : Services ε} {st : FilterProtocol.LoopState m ε}
    {cmd : Command} {failure : Failure} (h : handle services st cmd = .raise failure) :
    failure ≠ .objectLoadError := by
  unfold handle at h
  split at h <;> try (split at h)
  all_goals grind [onIOError_ne]

/-- A loop that raised has not seen a score, and did not load an object. -/
theorem commandLoop_raised {services : Services ε} {proc : Proc σ} {failure : Failure}
    (st : FilterProtocol.LoopState m ε)
    (h : (commandLoop services proc st).ending = .raised failure) :
    (commandLoop services proc st).state.result.score = st.result.score ∧
      failure ≠ .objectLoadError := by
  induction proc generalizing st with
  | emit cmd next ih =>
    cases hcmd : handle services st cmd with
    | reply r st' =>
      simp only [commandLoop, hcmd] at h ⊢
      rw [← handle_reply_score hcmd]
      exact ih r st' h
    | leave st' => simp [commandLoop, hcmd] at h
    | raise failure' =>
      simp only [commandLoop, hcmd, Ending.raised.injEq] at h ⊢
      exact ⟨trivial, h ▸ handle_raise_ne hcmd⟩
  | finish score s =>
    cases score with
    | none =>
      cases h
      exact ⟨rfl, by simp⟩
    | some score => simp [commandLoop] at h
  | exit =>
    simp only [commandLoop, Ending.raised.injEq] at h ⊢
    exact ⟨trivial, h ▸ onIOError_ne st.initialized⟩

/-- What `evaluate` of a filter returns is its record, and what it raises is
what the loop raised. -/
theorem evaluate_outcome (services : Services ε) (program : Program σ)
    (connection : Option (Connection σ)) (slow : Bool) (obj : Object m) (env : ε) :
    match (FilterProtocol.evaluate services program connection slow obj env).outcome with
    | .ok result => result.score = (record services program connection obj env).score
    | .error failure =>
      (record services program connection obj env).score = .zero ∧
        failure ≠ .objectLoadError := by
  let conn := connection.getD ⟨program.start, false⟩
  let st : FilterProtocol.LoopState m ε := ⟨obj, .new, env, conn.initialized⟩
  cases hend : (commandLoop services conn.proc st).ending with
  | finished s =>
    simp only [conn, st] at hend
    simp only [FilterProtocol.evaluate, concluded, record, hend]
  | broken rest =>
    simp only [conn, st] at hend
    simp only [FilterProtocol.evaluate, concluded, record, hend]
  | raised failure =>
    have hraised := commandLoop_raised st hend
    simp only [conn, st] at hend hraised
    simp only [FilterProtocol.evaluate, concluded, record, hend]
    exact hraised

/-! ## One runner -/

/-- The runner counts the object as dropped. An exception leaves the default
score. -/
def counts (runner : Runner) : Except Failure FilterResult → Bool
  | .ok result => !runner.threshold result
  | .error _ => !runner.threshold .new

/-- The threshold looks at nothing but the score. -/
theorem threshold_congr {runner : Runner} {result result' : FilterResult}
    (h : result.score = result'.score) : runner.threshold result = runner.threshold result' := by
  cases runner with
  | fetcher => rfl
  | filterRunner filter => simp only [Runner.threshold, h]

/-- `done_evaluate` counts a drop exactly when the runner does not accept. -/
theorem doneEvaluate_dropped (outcome : Except Failure FilterResult) (accept gtPresent : Bool)
    (elapsed : ℤ) (stats : FilterStatistics) :
    (doneEvaluate outcome accept gtPresent elapsed stats).objsDropped =
      stats.objsDropped + ofBool (!accept) := by
  unfold doneEvaluate
  split <;> rfl

/-- When one runner has counted, the counts of all are what they were, with one more for that runner
if it dropped. -/
theorem update_dropped (stats : ℕ → FilterStatistics) (i : ℕ) {stat : FilterStatistics}
    {b : Bool} (h : stat.objsDropped = (stats i).objsDropped + ofBool b) (j : ℕ) :
    (Function.update stats i stat j).objsDropped =
      (stats j).objsDropped + ofBool (decide (j = i) && b) := by
  rcases eq_or_ne j i with rfl | hne
  · simpa using h
  · simp [hne, ofBool]

/-- A result from the cache counts like one that was run: as a drop when it fails the threshold. -/
theorem cacheHit_dropped (result : FilterResult) (stats : FilterStatistics) (runner : Runner) :
    (cacheHit result stats runner).objsDropped =
      stats.objsDropped + ofBool (counts runner (.ok result)) := by
  cases runner with
  | fetcher => simp [cacheHit, counts, Runner.threshold, ofBool]
  | filterRunner filter => rfl

/-- A runner that is run counts a drop for itself at most, exactly when its outcome is one. -/
theorem evaluateRunner_dropped (setting : Setting ε σ) (occasion : Occasion m) (i : ℕ)
    (runner : Runner) (st : Worker.LoopState m ε σ) (j : ℕ) :
    ((evaluateRunner setting occasion i st runner).2.stats j).objsDropped =
      (st.stats j).objsDropped +
        ofBool (decide (j = i) && counts runner (evaluateRunner setting occasion i st runner).1) := by
  cases runner with
  | fetcher =>
    unfold evaluateRunner
    dsimp only
    split <;> simp [counts, Runner.threshold, ofBool]
  | filterRunner filter =>
    refine update_dropped _ _ ?_ j
    rw [doneEvaluate_dropped]
    have hout := evaluate_outcome setting.services (setting.program filter.config)
      (st.connections i) occasion.slow st.obj st.env
    simp only [evaluateRunner]
    cases hcase : (FilterProtocol.evaluate setting.services (setting.program filter.config)
        (st.connections i) occasion.slow st.obj st.env).outcome with
    | ok result =>
      rw [hcase] at hout
      rw [counts, threshold_congr hout]
    | error failure =>
      rw [hcase] at hout
      have hzero : (record setting.services (setting.program filter.config) (st.connections i)
          st.obj st.env).score = FilterResult.new.score := hout.1
      rw [counts, threshold_congr hzero]

/-- Only the fetcher fails to load an object, and it does not die. -/
theorem evaluateRunner_error {setting : Setting ε σ} {occasion : Occasion m} {i : ℕ}
    {runner : Runner} {st : Worker.LoopState m ε σ} {failure : Failure}
    (h : (evaluateRunner setting occasion i st runner).1 = .error failure) :
    (failure = .objectLoadError → runner = .fetcher) ∧
      (failure = .dropObject → ∃ filter, runner = .filterRunner filter) := by
  cases runner with
  | fetcher =>
    refine ⟨fun _ => rfl, ?_⟩
    rintro rfl
    unfold evaluateRunner at h
    dsimp only at h
    split at h
    · cases h
      exact absurd ‹_› (occasion.loads st.obj)
    · cases h
  | filterRunner filter =>
    refine ⟨fun hload => ?_, fun _ => ⟨filter, rfl⟩⟩
    have hout := evaluate_outcome setting.services (setting.program filter.config)
      (st.connections i) occasion.slow st.obj st.env
    simp only [evaluateRunner] at h
    rw [h] at hout
    exact absurd hload hout.2

/-- The same holds whether the outcome was run or loaded from the cache. -/
theorem loadOrRun_dropped (setting : Setting ε σ) (occasion : Occasion m)
    (cacheResults : Dict ℕ FilterResult) (i : ℕ) (runner : Runner)
    (st : Worker.LoopState m ε σ) (j : ℕ) :
    ((Worker.loadOrRun setting occasion cacheResults i runner st).2.stats j).objsDropped =
      (st.stats j).objsDropped + ofBool (decide (j = i) &&
        counts runner (Worker.loadOrRun setting occasion cacheResults i runner st).1) := by
  unfold Worker.loadOrRun
  split
  · exact update_dropped _ _ (cacheHit_dropped _ _ runner) j
  · have hrun := evaluateRunner_dropped setting occasion i runner st j
    split <;> simp_all

/-- The loader's failure comes from the fetcher, and a dropped object from a filter. -/
theorem loadOrRun_error {setting : Setting ε σ} {occasion : Occasion m}
    {cacheResults : Dict ℕ FilterResult} {i : ℕ} {runner : Runner}
    {st : Worker.LoopState m ε σ} {failure : Failure}
    (h : (Worker.loadOrRun setting occasion cacheResults i runner st).1 = .error failure) :
    (failure = .objectLoadError → runner = .fetcher) ∧
      (failure = .dropObject → ∃ filter, runner = .filterRunner filter) := by
  unfold Worker.loadOrRun at h
  split at h
  · cases h
  · split at h
    · cases h
    · refine @evaluateRunner_error _ _ _ setting occasion i runner st _ ?_
      simp_all

/-! ## The loop -/

/-- How the loop ends, with the counter of dropped objects it raised. -/
inductive Ends (runners : List (Runner × ℕ)) (last : ℕ) (charged : ℕ → Bool) :
    Except Failure Bool → Prop
  | accepted (h : ∀ j, charged j = false) : Ends runners last charged (.ok true)
  | rejected {filter : Filter} (hmem : (.filterRunner filter, last) ∈ runners)
      (h : ∀ j, charged j = decide (j = last)) : Ends runners last charged (.ok false)
  | unloadable (h : ∀ j, charged j = false) : Ends runners last charged (.error .objectLoadError)
  | died {filter : Filter} (hmem : (.filterRunner filter, last) ∈ runners)
      (h : ∀ j, charged j = (decide (j = last) && !(Runner.filterRunner filter).threshold .new)) :
      Ends runners last charged (.error .dropObject)
  | raised {failure : Failure} (hload : failure ≠ .objectLoadError)
      (hdied : failure ≠ .dropObject) : Ends runners last charged (.error failure)

/-- How the loop ends over some runners is also an end over more of them. -/
theorem Ends.mono {runners runners' : List (Runner × ℕ)} {last : ℕ} {charged : ℕ → Bool}
    {verdict : Except Failure Bool} (h : Ends runners last charged verdict)
    (hsub : ∀ entry ∈ runners, entry ∈ runners') : Ends runners' last charged verdict := by
  cases h with
  | accepted h => exact .accepted h
  | rejected hmem h => exact .rejected (hsub _ hmem) h
  | unloadable h => exact .unloadable h
  | died hmem h => exact .died (hsub _ hmem) h
  | raised hload hdied => exact .raised hload hdied

/-- The loop ends at the first runner that does not accept, which is the only one it charges; the
others that ran have counted no drop. -/
theorem ends_runLoop (setting : Setting ε σ) (occasions : ℕ → Occasion m)
    (cacheResults : Dict ℕ FilterResult) (runners : List (Runner × ℕ))
    (st : Worker.LoopState m ε σ) :
    let loop := Worker.runLoop setting occasions cacheResults runners st
    ∃ charged : ℕ → Bool,
      (∀ j, (loop.state.stats j).objsDropped = (st.stats j).objsDropped + ofBool (charged j)) ∧
        Ends runners loop.last charged loop.verdict := by
  induction runners generalizing st with
  | nil => exact ⟨fun _ => false, fun j => by simp [Worker.runLoop, ofBool], .accepted fun _ => rfl⟩
  | cons entry rest ih =>
    obtain ⟨runner, i⟩ := entry
    have hdropped := loadOrRun_dropped setting (occasions i) cacheResults i runner st
    have herror := @loadOrRun_error _ _ _ setting (occasions i) cacheResults i runner st
    rcases hrun : Worker.loadOrRun setting (occasions i) cacheResults i runner st with
      ⟨failure | result, st'⟩
    · simp only [hrun, counts] at hdropped herror
      simp only [Worker.runLoop, hrun]
      refine ⟨_, hdropped, ?_⟩
      obtain ⟨hload, hdied⟩ := herror rfl
      by_cases hl : failure = .objectLoadError
      · subst hl
        obtain rfl := hload rfl
        exact .unloadable fun j => by simp [Runner.threshold]
      · by_cases hd : failure = .dropObject
        · subst hd
          obtain ⟨filter, rfl⟩ := hdied rfl
          exact .died List.mem_cons_self fun _ => rfl
        · exact .raised hl hd
    · simp only [hrun, counts] at hdropped
      simp only [Worker.runLoop, hrun]
      by_cases ht : runner.threshold result = true
      · simp only [ht, if_true]
        obtain ⟨charged, hcharged, hends⟩ :=
          ih { st' with obj := Worker.storeScore setting st'.obj result runner }
        refine ⟨charged, fun j => ?_, hends.mono fun _ => List.mem_cons_of_mem _⟩
        rw [hcharged, hdropped j, ht]
        simp [ofBool]
      · simp only [ht]
        refine ⟨_, hdropped, ?_⟩
        cases runner with
        | fetcher => exact absurd rfl ht
        | filterRunner filter =>
          refine .rejected List.mem_cons_self fun j => ?_
          simp [ht]

/-! ## One call -/

/-- Only a filter has a threshold that can fail. -/
theorem filterRunner_of_threshold {runner : Runner} {result : FilterResult}
    (h : runner.threshold result = false) : ∃ filter, runner = .filterRunner filter := by
  cases runner with
  | fetcher => cases h
  | filterRunner filter => exact ⟨filter, rfl⟩

/-- Filters come after the fetcher, so that the place of a filter among the runners is one more than
in the stack. -/
theorem position_of_filterRunner {filters : List Filter} {filter : Filter} {i : ℕ}
    (h : (bindRunners filters)[i]? = some (.filterRunner filter)) :
    ∃ k < filters.length, i = k + 1 := by
  cases i with
  | zero => cases h
  | succ k =>
    refine ⟨k, ?_, rfl⟩
    rw [bindRunners, List.getElem?_cons_succ, List.getElem?_map] at h
    obtain ⟨_, hk, _⟩ := Option.map_eq_some_iff.mp h
    exact (List.getElem?_eq_some_iff.mp hk).1

/-- The counter of a filter that a cached result outside its thresholds
raises. -/
def countsCached (runners : List Runner) (cacheResults : Dict ℕ FilterResult) (i : ℕ) : Bool :=
  match runners[i]?, cacheResults.get? i with
  | some runner, some result => !runner.threshold result
  | _, _ => false

/-- A runner is charged from the cache exactly for a cached result that fails its threshold. -/
theorem countsCached_iff {runners : List Runner} {cacheResults : Dict ℕ FilterResult} {i : ℕ} :
    countsCached runners cacheResults i = true ↔ FailsThreshold runners cacheResults i := by
  unfold countsCached FailsThreshold
  cases runners[i]? <;> cases cacheResults.get? i <;> simp

/-- The notification charges the runners behind the end of the loop whose cached results fail, each
of them once. -/
theorem notify_dropped (runners : List Runner) (cacheResults : Dict ℕ FilterResult)
    (deps : Finset ℕ) (stats : ℕ → FilterStatistics) (j : ℕ) :
    (notify runners cacheResults deps stats j).objsDropped =
      (stats j).objsDropped +
        ofBool (decide (j ∈ deps) && countsCached runners cacheResults j) := by
  unfold notify countsCached
  split
  · split
    · rw [cacheHit_dropped]
      simp [*, counts]
    · simp [ofBool]
  · simp [*, ofBool]

/-- No filter that accepts the default score dies on the object, or is taken
for dead as its resource raised an `IOError`, and a drop from the result
cache rests on one cached result outside its thresholds. The counters have
room for the object. -/
def ChargedOnce (setting : Setting ε σ) (filters : List Filter) (totals : Totals)
    (call : Call m ε σ) : Prop :=
  totals.search.objsProcessed.toInt < 2 ^ 31 - 1 ∧
    match resultCacheCanDrop (bindRunners filters)
      (lookupResults call.redis call.obj (bindRunners filters)) with
    | some deps => ∀ i ∈ deps, ∀ j ∈ deps,
      FailsThreshold (bindRunners filters)
        (lookupResults call.redis call.obj (bindRunners filters)) i →
      FailsThreshold (bindRunners filters)
        (lookupResults call.redis call.obj (bindRunners filters)) j → i = j
    | none => ∀ filter,
      (call.loop setting (bindRunners filters) totals.filters).verdict = .error .dropObject →
      (bindRunners filters)[(call.loop setting (bindRunners filters) totals.filters).last]? =
        some (.filterRunner filter) →
      (Runner.filterRunner filter).threshold .new = false

/-- What a verdict adds to the statistics. -/
inductive Adds (n : ℕ) (totals totals' : Totals) : Prop
  | accepted (hprocessed : totals'.search.objsProcessed = totals.search.objsProcessed + ofBool true)
      (hpassed : totals'.search.objsPassed = totals.search.objsPassed + ofBool true)
      (hdropped : totals'.search.objsDropped = totals.search.objsDropped + ofBool false)
      (hunloadable : totals'.search.objsUnloadable = totals.search.objsUnloadable)
      (hfilters : ∀ j, (totals'.filters j).objsDropped = (totals.filters j).objsDropped)
  | unloadable
      (hprocessed : totals'.search.objsProcessed = totals.search.objsProcessed + ofBool true)
      (hpassed : totals'.search.objsPassed = totals.search.objsPassed + ofBool false)
      (hdropped : totals'.search.objsDropped = totals.search.objsDropped + ofBool true)
      (hunloadable :
        totals'.search.objsUnloadable = totals.search.objsUnloadable + ofBool true)
      (hfilters : ∀ j, (totals'.filters j).objsDropped = (totals.filters j).objsDropped)
  | dropped {k : ℕ} (hk : k < n)
      (hprocessed : totals'.search.objsProcessed = totals.search.objsProcessed + ofBool true)
      (hpassed : totals'.search.objsPassed = totals.search.objsPassed + ofBool false)
      (hdropped : totals'.search.objsDropped = totals.search.objsDropped + ofBool true)
      (hunloadable : totals'.search.objsUnloadable = totals.search.objsUnloadable)
      (hfilters : ∀ j, (totals'.filters j).objsDropped =
        (totals.filters j).objsDropped + ofBool (decide (j = k + 1)))

/-- Counting nothing changes no count. -/
theorem add_ofBool_false (x : Int32) : x + ofBool false = x := by simp [ofBool]

/-- A drop from the result cache. -/
theorem adds_notify {filters : List Filter} {cacheResults : Dict ℕ FilterResult}
    {deps : Finset ℕ} (hdeps : resultCacheCanDrop (bindRunners filters) cacheResults = some deps)
    (hone : ∀ i ∈ deps, ∀ j ∈ deps, FailsThreshold (bindRunners filters) cacheResults i →
      FailsThreshold (bindRunners filters) cacheResults j → i = j)
    (totals : Totals) (gtPresent : Bool) (elapsed : ℤ) :
    Adds filters.length totals
      { search := totals.search.onDoneEvaluate false gtPresent elapsed
        filters := notify (bindRunners filters) cacheResults deps totals.filters } := by
  obtain ⟨i, hfails, hexplains⟩ := resultCacheCanDrop_explains hdeps
  obtain ⟨result, runner, _, hrunner, hthreshold⟩ := id hfails
  obtain ⟨filter, rfl⟩ := filterRunner_of_threshold hthreshold
  obtain ⟨k, hk, rfl⟩ := position_of_filterRunner hrunner
  refine .dropped hk rfl rfl rfl rfl fun j => ?_
  have honly : (decide (j ∈ deps) && countsCached (bindRunners filters) cacheResults j) =
      decide (j = k + 1) := by
    rw [Bool.eq_iff_iff, Bool.and_eq_true, decide_eq_true_iff, decide_eq_true_iff, countsCached_iff]
    constructor
    · rintro ⟨hmem, hj⟩
      exact hone j hmem (k + 1) hexplains.member hj hfails
    · rintro rfl
      exact ⟨hexplains.member, hfails⟩
  rw [← honly]
  exact notify_dropped _ _ _ _ j

/-- An evaluation with at most one charge adds as much to the filters together as to the search. -/
theorem adds_evaluate {setting : Setting ε σ} {filters : List Filter} {totals totals' : Totals}
    {call : Call m ε σ} {accept : Bool} (hguard : ChargedOnce setting filters totals call)
    (h : evaluate setting (bindRunners filters) totals call = (.ok accept, totals')) :
    Adds filters.length totals totals' := by
  obtain ⟨_, hguard⟩ := hguard
  unfold Worker.evaluate at h
  dsimp only at h
  split at h
  · rename_i deps hdeps
    rw [hdeps] at hguard
    cases h
    exact adds_notify hdeps hguard totals _ _
  · rename_i hnone
    simp only [hnone] at hguard
    obtain ⟨charged, hcharged, hends⟩ := ends_runLoop setting call.occasions
      (lookupResults call.redis call.obj (bindRunners filters)) (bindRunners filters).zipIdx
      (call.start totals.filters)
    change ∀ j, ((call.loop setting (bindRunners filters) totals.filters).state.stats j).objsDropped =
      (totals.filters j).objsDropped + ofBool (charged j) at hcharged
    change Ends _ (call.loop setting (bindRunners filters) totals.filters).last charged
      (call.loop setting (bindRunners filters) totals.filters).verdict at hends
    generalize call.loop setting (bindRunners filters) totals.filters = loop at *
    obtain ⟨verdict, last, st⟩ := loop
    dsimp only at *
    cases hends with
    | accepted hno =>
      cases h
      refine .accepted rfl rfl rfl rfl fun j => ?_
      rw [hcharged, hno, add_ofBool_false]
    | rejected hmem hlast =>
      cases h
      obtain ⟨k, hk, rfl⟩ := position_of_filterRunner (List.mem_zipIdx_iff_getElem?.mp hmem)
      refine .dropped hk rfl rfl rfl rfl fun j => ?_
      rw [hcharged, hlast]
    | unloadable hno =>
      cases h
      refine .unloadable rfl rfl rfl rfl fun j => ?_
      rw [hcharged, hno, add_ofBool_false]
    | died hmem hlast =>
      cases h
      have hrunner := List.mem_zipIdx_iff_getElem?.mp hmem
      have hzero := hguard _ rfl hrunner
      obtain ⟨k, hk, rfl⟩ := position_of_filterRunner hrunner
      refine .dropped hk rfl rfl rfl rfl fun j => ?_
      rw [hcharged, hlast, hzero]
      simp
    | raised hload hdied => cases ‹Failure› <;> simp_all [handled]

/-! ## Sequences of calls -/

/-- All counters at their start. -/
def Totals.new : Totals := ⟨.new, fun _ => .new⟩

/-- A call that returns a verdict. -/
def step (setting : Setting ε σ) (filters : List Filter) (totals : Totals) (call : Call m ε σ) :
    Option Totals :=
  match evaluate setting (bindRunners filters) totals call with
  | (.ok _, totals) => some totals
  | (.error _, _) => none

/-- Objects charged to the filters. -/
def charged (n : ℕ) (totals : Totals) : ℤ :=
  ∑ k ∈ Finset.range n, (totals.filters (k + 1)).objsDropped.toInt

/-- Objects are passed or dropped, and each one dropped is charged to a filter
or to loading. -/
def Balanced (n : ℕ) (totals : Totals) : Prop :=
  totals.search.objsProcessed.toInt =
      totals.search.objsPassed.toInt + totals.search.objsDropped.toInt ∧
    totals.search.objsDropped.toInt = totals.search.objsUnloadable.toInt + charged n totals

instance decidableBalanced (n : ℕ) (totals : Totals) : Decidable (Balanced n totals) :=
  inferInstanceAs (Decidable (_ ∧ _))

/-- The totals are balanced and none of the counters is negative. -/
structure Accounted (n : ℕ) (totals : Totals) : Prop where
  /-- The totals are balanced. -/
  balanced : Balanced n totals
  /-- Objects passed. -/
  passed : 0 ≤ totals.search.objsPassed.toInt
  /-- Objects that failed to load. -/
  unloadable : 0 ≤ totals.search.objsUnloadable.toInt
  /-- Objects dropped by a filter. -/
  filters : ∀ k < n, 0 ≤ (totals.filters (k + 1)).objsDropped.toInt

/-- At the start nothing was counted. -/
theorem accounted_new (n : ℕ) : Accounted n Totals.new where
  balanced := ⟨rfl, by simp [charged, Totals.new, SearchStatistics.new, FilterStatistics.new]⟩
  passed := Int.le_refl _
  unloadable := Int.le_refl _
  filters _ _ := Int.le_refl _

/-- What was charged is the sum of the filters' counts of drops, and depends on nothing else. -/
theorem charged_congr {n : ℕ} {totals totals' : Totals}
    (h : ∀ j, (totals'.filters j).objsDropped = (totals.filters j).objsDropped) :
    charged n totals' = charged n totals := by
  simp only [charged, h]

/-- A filter is charged with at most all objects charged. -/
theorem le_charged {n k : ℕ} {totals : Totals}
    (h : ∀ k < n, 0 ≤ (totals.filters (k + 1)).objsDropped.toInt) (hk : k < n) :
    (totals.filters (k + 1)).objsDropped.toInt ≤ charged n totals := by
  refine Finset.single_le_sum (f := fun k => (totals.filters (k + 1)).objsDropped.toInt) ?_
    (Finset.mem_range.mpr hk)
  exact fun i hi => h i (Finset.mem_range.mp hi)

/-- One more object is charged to a filter. -/
theorem charged_succ {n k : ℕ} {totals totals' : Totals} (hk : k < n)
    (h₀ : 0 ≤ (totals.filters (k + 1)).objsDropped.toInt)
    (hlt : (totals.filters (k + 1)).objsDropped.toInt < 2 ^ 31 - 1)
    (h : ∀ j, (totals'.filters j).objsDropped =
      (totals.filters j).objsDropped + ofBool (decide (j = k + 1))) :
    charged n totals' = charged n totals + 1 := by
  have hterm : ∀ i, (totals'.filters (i + 1)).objsDropped.toInt =
      (totals.filters (i + 1)).objsDropped.toInt + if i = k then 1 else 0 := by
    intro i
    rcases eq_or_ne i k with rfl | hne
    · rw [h, decide_eq_true rfl, toInt_add_ofBool h₀ hlt]
      simp
    · simp [h, hne, add_ofBool_false]
  rw [charged, Finset.sum_congr rfl fun i _ => hterm i, Finset.sum_add_distrib,
    Finset.sum_ite_eq', if_pos (Finset.mem_range.mpr hk)]
  rfl

/-- A verdict keeps the totals balanced. -/
theorem Accounted.adds {n : ℕ} {totals totals' : Totals} (h : Accounted n totals)
    (hroom : totals.search.objsProcessed.toInt < 2 ^ 31 - 1) (hadds : Adds n totals totals') :
    Accounted n totals' := by
  obtain ⟨⟨hprocessed, hdropped⟩, hpassed, hunloadable, hfilters⟩ := h
  have hcharged : 0 ≤ charged n totals :=
    Finset.sum_nonneg fun k hk => hfilters k (Finset.mem_range.mp hk)
  have raise : ∀ {x : Int32} {b : Bool}, 0 ≤ x.toInt → x.toInt < 2 ^ 31 - 1 →
      (x + ofBool b).toInt = x.toInt + if b then 1 else 0 :=
    fun h₀ hlt => toInt_add_ofBool h₀ hlt _
  cases hadds with
  | accepted h₁ h₂ h₃ h₄ h₅ =>
    refine ⟨⟨?_, ?_⟩, ?_, ?_, fun k hk => ?_⟩
    · rw [h₁, h₂, h₃, raise (by omega) (by omega), raise (by omega) (by omega), add_ofBool_false]
      simp only [if_true]
      omega
    · rw [h₃, h₄, charged_congr h₅, add_ofBool_false]
      exact hdropped
    · rw [h₂, raise (by omega) (by omega)]
      simp only [if_true]
      omega
    · rw [h₄]
      exact hunloadable
    · rw [h₅]
      exact hfilters k hk
  | unloadable h₁ h₂ h₃ h₄ h₅ =>
    refine ⟨⟨?_, ?_⟩, ?_, ?_, fun k hk => ?_⟩
    · rw [h₁, h₂, h₃, add_ofBool_false, raise (by omega) (by omega), raise (by omega) (by omega)]
      simp only [if_true]
      omega
    · rw [h₃, h₄, charged_congr h₅, raise (by omega) (by omega), raise (by omega) (by omega)]
      simp only [if_true]
      omega
    · rw [h₂, add_ofBool_false]
      exact hpassed
    · rw [h₄, raise (by omega) (by omega)]
      simp only [if_true]
      omega
    · rw [h₅]
      exact hfilters k hk
  | @dropped k hk h₁ h₂ h₃ h₄ h₅ =>
    have hle := le_charged hfilters hk
    have hk₀ := hfilters k hk
    refine ⟨⟨?_, ?_⟩, ?_, ?_, fun i hi => ?_⟩
    · rw [h₁, h₂, h₃, add_ofBool_false, raise (by omega) (by omega), raise (by omega) (by omega)]
      simp only [if_true]
      omega
    · rw [h₃, h₄, charged_succ hk hk₀ (by omega) h₅, raise (by omega) (by omega)]
      simp only [if_true]
      omega
    · rw [h₂, add_ofBool_false]
      exact hpassed
    · rw [h₄]
      exact hunloadable
    · have hi₀ := hfilters i hi
      have hile := le_charged hfilters hi
      rw [h₅, raise (by omega) (by omega)]
      split <;> omega

/-- A call that charges at most once keeps the sum of the filters' counts equal to the count of the
search. -/
theorem Accounted.step {setting : Setting ε σ} {filters : List Filter} {totals totals' : Totals}
    {call : Call m ε σ} (h : Accounted filters.length totals)
    (hguard : ChargedOnce setting filters totals call)
    (hstep : DropAccounting.step setting filters totals call = some totals') :
    Accounted filters.length totals' := by
  unfold DropAccounting.step at hstep
  split at hstep
  · cases hstep
    exact h.adds hguard.1 (adds_evaluate hguard ‹_›)
  · cases hstep

/-- The totals are balanced after every sequence of evaluations in which no
filter that accepts the default score dies or is taken for dead, and every
drop from the result cache rests on one result outside its thresholds. -/
theorem balanced_of_chargedOnce {setting : Setting ε σ} {filters : List Filter}
    {calls : List (Call m ε σ)} {totals : Totals}
    (hguard : Guarded (step setting filters) (ChargedOnce setting filters) Totals.new calls)
    (hrun : exec (step setting filters) Totals.new calls = some totals) :
    Balanced filters.length totals := by
  have hstep : ∀ totals (call : Call m ε σ) totals', Accounted filters.length totals →
      ChargedOnce setting filters totals call →
      step setting filters totals call = some totals' → Accounted filters.length totals' :=
    fun _ _ _ h hguard hstep => h.step hguard hstep
  exact (exec_invariant_of_guarded hstep (accounted_new filters.length) hguard hrun).balanced

/-- A filter process that goes on as given, already initialized. -/
def processes (proc : Proc Unit) (_ : ℕ) : Option (Connection Unit) := some ⟨proc, true⟩

/-- Objects load without attributes of their own, and nothing is cached. -/
def uncached (proc : Proc Unit) : Call hexMurmur Unit Unit where
  obj := AttributeCache.plainObject
  redis := none
  occasions _ := ⟨fun _ => ⟨[], none⟩, loads_plain, none, false, 0⟩
  connections := processes proc
  env := ()
  elapsed := 0

/-- A search with the code of one filter. -/
def plainSetting : Setting Unit Unit :=
  ⟨noServices, fun _ => ⟨.exit, fun _ => .exit⟩, fun _ => "1.0"⟩

/-- A filter by its least score. -/
def scoring (minScore : Double) : Filter := 
  ⟨⟨ResultKeys.zeroSignature, "f", [], ResultKeys.zeroSignature⟩, minScore, .one, []⟩

/-- An object accepted, and one on which the filter dies. -/
def twoCalls : List (Call hexMurmur Unit Unit) :=
  [uncached (.finish (some .one) ()), uncached .exit]

/-- Neither of the two calls charges an object twice. -/
theorem twoCalls_guarded :
    Guarded (step plainSetting [scoring .one]) (ChargedOnce plainSetting [scoring .one])
      Totals.new twoCalls := by
  have hroom : ∀ {totals : Totals}, totals.search.objsProcessed = 0 ∨
      totals.search.objsProcessed = 1 → totals.search.objsProcessed.toInt < 2 ^ 31 - 1 := by
    rintro totals (h | h) <;> rw [h] <;> decide
  refine guarded_cons ⟨hroom (.inl rfl), ?_⟩ rfl (guarded_cons ⟨hroom (.inr rfl), ?_⟩ rfl ?_)
  · intro filter hdied
    cases hdied
  · intro filter _ hrunner
    cases hrunner
    decide
  · trivial

/-- Two objects of which one is dropped, without a cache, leave the counts balanced. -/
theorem balanced_of_chargedOnce_uncached :
    ∃ totals, exec (step plainSetting [scoring .one]) Totals.new twoCalls = some totals ∧
      totals.search.objsDropped = 1 ∧ Balanced [scoring .one].length totals :=
  ⟨_, rfl, rfl, balanced_of_chargedOnce twoCalls_guarded rfl⟩

/-- A search whose resources raise an `IOError`. -/
def withoutDaemon : Setting Unit Unit :=
  { plainSetting with services.ensureResource := fun _ _ _ => .error .ioError }

/-- The commands of a filter that asks for a container before its result. -/
def containerized : Proc Unit :=
  .emit (.ensureResource (some "session") (some "docker") []) fun _ => .finish (some .one) ()

/-- A filter that accepts the default score dies on its object, which is
dropped and charged to nothing; and so is the object of a filter whose
resource raises an `IOError`. -/
theorem died_not_charged :
    (∃ totals,
      exec (step plainSetting [scoring .zero]) Totals.new [uncached .exit] = some totals ∧
      totals.search.objsDropped = 1 ∧ totals.search.objsUnloadable = 0 ∧
      (totals.filters 1).objsDropped = 0 ∧ (totals.filters 1).objsTerminate = 1 ∧
      ¬ Balanced 1 totals) ∧
    ∃ totals,
      exec (step withoutDaemon [scoring .zero]) Totals.new [uncached containerized] =
        some totals ∧
      totals.search.objsDropped = 1 ∧ (totals.filters 1).objsDropped = 0 ∧
      ¬ Balanced 1 totals := by
  refine ⟨⟨_, rfl, rfl, rfl, rfl, rfl, ?_⟩, ⟨_, rfl, rfl, rfl, ?_⟩⟩ <;> decide

end OpenDiamond.DropAccounting
