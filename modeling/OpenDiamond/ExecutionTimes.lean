import Mathlib.Algebra.Ring.Nat
import OpenDiamond.Statistics

/-!
# Average execution times

Both statistics return an average: the sum of the elapsed times by the number of processed
objects. The sum is a counter of 32 bits like the others, so the average is exact as long as the
sum is below `2 ^ 31` microseconds.
-/

namespace OpenDiamond.ExecutionTimes

open Statistics

/-- `XDR_stat`. -/
structure Stat where
  /-- The name of the value. -/
  name : String
  /-- The value. -/
  value : ℤ
deriving DecidableEq

/-- `XDR_filter_stats`. -/
structure FilterStats where
  /-- The name of the filter. -/
  name : String
  /-- Its values. -/
  stats : List Stat
deriving DecidableEq

/-- `XDR_search_stats`. -/
structure SearchStats where
  /-- The values of the search. -/
  stats : List Stat
  /-- The values of the filters. -/
  filterStats : List FilterStats
deriving DecidableEq

/-- `old_div` of two counters, and zero after a `ZeroDivisionError`. -/
def average (executionUs objsProcessed : Int32) : ℤ :=
  if objsProcessed = 0 then 0 else executionUs.toInt.fdiv objsProcessed.toInt

/-- `FilterStatistics.xdr`. -/
def filterXdr (name : String) (stats : FilterStatistics) : FilterStats where
  name := name
  stats := [
    ⟨"avg_exec_time_us", average stats.executionUs stats.objsProcessed⟩,
    ⟨"objs_processed", stats.objsProcessed.toInt⟩,
    ⟨"objs_dropped", stats.objsDropped.toInt⟩,
    ⟨"objs_true_positive", stats.objsTruePositive.toInt⟩,
    ⟨"objs_false_negative", stats.objsFalseNegative.toInt⟩,
    ⟨"objs_cache_dropped", stats.objsCacheDropped.toInt⟩,
    ⟨"objs_cache_passed", stats.objsCachePassed.toInt⟩,
    ⟨"objs_computed", stats.objsComputed.toInt⟩,
    ⟨"objs_terminate", stats.objsTerminate.toInt⟩]

/-- `SearchStatistics.xdr`. -/
def searchXdr (objsTotal : ℤ) (filterStats : List (String × FilterStatistics))
    (stats : SearchStatistics) : SearchStats where
  stats := [
    ⟨"objs_total", objsTotal⟩,
    ⟨"avg_obj_time_us", average stats.executionUs stats.objsProcessed⟩,
    ⟨"objs_processed", stats.objsProcessed.toInt⟩,
    ⟨"objs_dropped", stats.objsDropped.toInt⟩,
    ⟨"objs_passed", stats.objsPassed.toInt⟩,
    ⟨"objs_true_positive", stats.objsTruePositive.toInt⟩,
    ⟨"objs_false_negative", stats.objsFalseNegative.toInt⟩,
    ⟨"objs_unloadable", stats.objsUnloadable.toInt⟩]
  filterStats := filterStats.map fun filter => filterXdr filter.1 filter.2

/-! ## Histories of the counters -/

/-- A call of the logger of a search. -/
inductive SearchEvent where
  /-- `on_done_evaluate` after so many microseconds. -/
  | doneEvaluate (accept gtPresent : Bool) (elapsed : ℕ)
  /-- `on_unloadable`. -/
  | unloadable

/-- A call of the logger of a filter. -/
inductive FilterEvent where
  /-- `on_done_evaluate` after so many microseconds. -/
  | doneEvaluate (accept gtPresent : Bool) (elapsed : ℕ)
  /-- `on_cache_hit`. -/
  | cacheHit (accept gtPresent : Bool)
  /-- `on_terminate`. -/
  | terminate

/-- The counters after a call. -/
def SearchEvent.apply (stats : SearchStatistics) : SearchEvent → SearchStatistics
  | doneEvaluate accept gtPresent elapsed => stats.onDoneEvaluate accept gtPresent elapsed
  | unloadable => stats.onUnloadable

/-- The counters after a call. -/
def FilterEvent.apply (stats : FilterStatistics) : FilterEvent → FilterStatistics
  | doneEvaluate accept gtPresent elapsed => stats.onDoneEvaluate accept gtPresent elapsed
  | cacheHit accept gtPresent => stats.onCacheHit accept gtPresent
  | terminate => stats.onTerminate

/-- The elapsed time and the number of objects that a call accounts for. -/
def SearchEvent.account : SearchEvent → ℕ × ℕ
  | doneEvaluate _ _ elapsed => (elapsed, 1)
  | unloadable => (0, 0)

/-- The elapsed time and the number of objects that a call accounts for. -/
def FilterEvent.account : FilterEvent → ℕ × ℕ
  | doneEvaluate _ _ elapsed => (elapsed, 1)
  | cacheHit _ _ => (0, 1)
  | terminate => (0, 0)

section History

variable {σ ε : Type} (account : ε → ℕ × ℕ)

/-- The exact total of the elapsed times. -/
def elapsed (events : List ε) : ℕ := (events.map fun event => (account event).1).sum

/-- The number of processed objects. -/
def processed (events : List ε) : ℕ := (events.map fun event => (account event).2).sum

/-- The exact average, rounded down. -/
def exactAverage (events : List ε) : ℕ :=
  if processed account events = 0 then 0 else elapsed account events / processed account events

variable {account} {apply : σ → ε → σ} {time count : σ → Int32}

/-- The counters are the totals modulo `2 ^ 32`. -/
theorem foldl_counters
    (hstep : ∀ stats event,
      time (apply stats event) = time stats + Int32.ofInt (account event).1 ∧
        count (apply stats event) = count stats + Int32.ofInt (account event).2)
    (events : List ε) (stats : σ) :
    time (events.foldl apply stats) = time stats + Int32.ofInt (elapsed account events) ∧
      count (events.foldl apply stats) = count stats + Int32.ofInt (processed account events) := by
  induction events generalizing stats with
  | nil =>
    have hzero : Int32.ofInt ((0 : ℕ) : ℤ) = 0 := rfl
    exact ⟨by rw [List.foldl_nil, elapsed, List.map_nil, List.sum_nil, hzero, Int32.add_zero],
      by rw [List.foldl_nil, processed, List.map_nil, List.sum_nil, hzero, Int32.add_zero]⟩
  | cons event events ih =>
    obtain ⟨htime, hcount⟩ := hstep stats event
    obtain ⟨htimes, hcounts⟩ := ih (apply stats event)
    have helapsed : elapsed account (event :: events) =
        (account event).1 + elapsed account events := rfl
    have hprocessed : processed account (event :: events) =
        (account event).2 + processed account events := rfl
    rw [List.foldl_cons, htimes, hcounts, htime, hcount, helapsed, hprocessed, Int.natCast_add,
      Int.natCast_add, Int32.ofInt_add, Int32.ofInt_add, Int32.add_assoc, Int32.add_assoc]
    exact ⟨rfl, rfl⟩

/-- Without processed objects there is no elapsed time. -/
theorem elapsed_eq_zero (haccount : ∀ event, (account event).2 = 0 → (account event).1 = 0)
    {events : List ε} (h : processed account events = 0) : elapsed account events = 0 := by
  induction events with
  | nil => rfl
  | cons event events ih =>
    have hsum : (account event).2 + processed account events = 0 := h
    have helapsed : elapsed account (event :: events) =
        (account event).1 + elapsed account events := rfl
    rw [helapsed, haccount event (by omega), ih (by omega)]

end History

/-! ## When the averages are exact -/

/-- A counter below `2 ^ 31` holds its total. -/
theorem toInt_ofInt_of_lt {total : ℕ} (h : total < 2 ^ 31) : (Int32.ofInt total).toInt = total :=
  Int32.toInt_ofInt_of_le (by omega) (by omega)

/-- A counter that is not below `2 ^ 31` falls short of its total by a multiple of `2 ^ 32`. -/
theorem toInt_ofInt_of_le {total : ℕ} (h : 2 ^ 31 ≤ total) :
    (Int32.ofInt total).toInt + 2 ^ 32 ≤ total := by
  have hsize : Int32.size = 2 ^ 32 := rfl
  rw [Int32.toInt_ofInt, hsize, Int.bmod_def]
  omega

/-- Of fewer than `2 ^ 31` objects the average is exact if the elapsed time is below `2 ^ 31`. -/
theorem average_eq_iff {total objects : ℕ} (hzero : objects = 0 → total = 0)
    (hobjects : objects < 2 ^ 31) :
    average (Int32.ofInt total) (Int32.ofInt objects) =
        ((if objects = 0 then 0 else total / objects : ℕ) : ℤ) ↔ total < 2 ^ 31 := by
  by_cases hnone : objects = 0
  · have htotal := hzero hnone
    subst hnone htotal
    decide
  · have hcount := toInt_ofInt_of_lt hobjects
    have hpos : (0 : ℤ) < objects := by omega
    have hne : Int32.ofInt objects ≠ 0 := by
      intro heq
      rw [heq] at hcount
      have hreal : (0 : Int32).toInt = 0 := rfl
      omega
    rw [average, if_neg hne, if_neg hnone, hcount, Int.fdiv_eq_ediv_of_nonneg _ (by omega),
      Int.natCast_ediv]
    constructor
    · intro heq
      by_contra hge
      have hshort := toInt_ofInt_of_le (Nat.not_lt.mp hge)
      have hnext : ((Int32.ofInt total).toInt + 1 * objects) / objects =
          (Int32.ofInt total).toInt / objects + 1 := Int.add_mul_ediv_right _ _ (by omega)
      have hmono : ((Int32.ofInt total).toInt + 1 * objects) / objects ≤ (total : ℤ) / objects :=
        Int.ediv_le_ediv hpos (by omega)
      omega
    · intro htotal
      rw [toInt_ofInt_of_lt htotal]

/-- The value that a list of statistics gives for a name. -/
def reported (name : String) (stats : List Stat) : Option ℤ :=
  (stats.find? fun stat => stat.name = name).map Stat.value

/-- The search reports the exact average after these calls. -/
def SearchExact (events : List SearchEvent) : Prop :=
  ∀ objsTotal filterStats,
    reported "avg_obj_time_us"
        (searchXdr objsTotal filterStats (events.foldl SearchEvent.apply .new)).stats =
      some ↑(exactAverage SearchEvent.account events)

/-- The filter reports the exact average after these calls. -/
def FilterExact (events : List FilterEvent) : Prop :=
  ∀ name,
    reported "avg_exec_time_us" (filterXdr name (events.foldl FilterEvent.apply .new)).stats =
      some ↑(exactAverage FilterEvent.account events)

theorem reported_search (objsTotal : ℤ) (filterStats : List (String × FilterStatistics))
    (stats : SearchStatistics) :
    reported "avg_obj_time_us" (searchXdr objsTotal filterStats stats).stats =
      some (average stats.executionUs stats.objsProcessed) := rfl

theorem reported_filter (name : String) (stats : FilterStatistics) :
    reported "avg_exec_time_us" (filterXdr name stats).stats =
      some (average stats.executionUs stats.objsProcessed) := rfl

/-- The average that counters from zero give for a history is the true one exactly when the total of
the times fits 32 bits; the number of objects is assumed to fit. -/
theorem average_foldl_iff {σ ε : Type} {account : ε → ℕ × ℕ} {apply : σ → ε → σ}
    {time count : σ → Int32}
    (hstep : ∀ stats event,
      time (apply stats event) = time stats + Int32.ofInt (account event).1 ∧
        count (apply stats event) = count stats + Int32.ofInt (account event).2)
    (haccount : ∀ event, (account event).2 = 0 → (account event).1 = 0) {new : σ}
    (htime : time new = 0) (hcount : count new = 0) {events : List ε}
    (h : processed account events < 2 ^ 31) :
    average (time (events.foldl apply new)) (count (events.foldl apply new)) =
      exactAverage account events ↔ elapsed account events < 2 ^ 31 := by
  obtain ⟨htimes, hcounts⟩ := foldl_counters hstep events new
  rw [htimes, hcounts, htime, hcount, Int32.zero_add, Int32.zero_add]
  exact average_eq_iff (elapsed_eq_zero haccount) h

/-- An event adds its own time and its own object to the counters of the search, in 32 bits. -/
theorem SearchEvent.counters (stats : SearchStatistics) (event : SearchEvent) :
    (apply stats event).executionUs = stats.executionUs + Int32.ofInt event.account.1 ∧
      (apply stats event).objsProcessed = stats.objsProcessed + Int32.ofInt event.account.2 := by
  cases event with
  | doneEvaluate accept gtPresent elapsed => exact ⟨rfl, rfl⟩
  | unloadable => exact ⟨(Int32.add_zero _).symm, (Int32.add_zero _).symm⟩

/-- The same of a filter's counters. -/
theorem FilterEvent.counters (stats : FilterStatistics) (event : FilterEvent) :
    (apply stats event).executionUs = stats.executionUs + Int32.ofInt event.account.1 ∧
      (apply stats event).objsProcessed = stats.objsProcessed + Int32.ofInt event.account.2 := by
  cases event with
  | doneEvaluate accept gtPresent elapsed => exact ⟨rfl, rfl⟩
  | cacheHit accept gtPresent => exact ⟨(Int32.add_zero _).symm, rfl⟩
  | terminate => exact ⟨(Int32.add_zero _).symm, (Int32.add_zero _).symm⟩

/-- Where the search counts no object, it counts no time either. -/
theorem SearchEvent.elapsed_eq_zero (event : SearchEvent) (h : event.account.2 = 0) :
    event.account.1 = 0 := by
  cases event with
  | doneEvaluate accept gtPresent elapsed => exact absurd h Nat.one_ne_zero
  | unloadable => rfl

/-- The same of a filter. -/
theorem FilterEvent.elapsed_eq_zero (event : FilterEvent) (h : event.account.2 = 0) :
    event.account.1 = 0 := by
  cases event with
  | doneEvaluate accept gtPresent elapsed => exact absurd h Nat.one_ne_zero
  | cacheHit accept gtPresent => rfl
  | terminate => rfl

/-- As long as the number of objects fits, the search reports the true average exactly when the sum
of the times fits. -/
theorem searchExact_iff {events : List SearchEvent}
    (h : processed SearchEvent.account events < 2 ^ 31) :
    SearchExact events ↔ elapsed SearchEvent.account events < 2 ^ 31 := by
  rw [← average_foldl_iff SearchEvent.counters SearchEvent.elapsed_eq_zero
    (rfl : SearchStatistics.new.executionUs = 0) (rfl : SearchStatistics.new.objsProcessed = 0) h]
  constructor
  · intro hexact
    have hreported := hexact 0 []
    rw [reported_search] at hreported
    exact Option.some.inj hreported
  · intro haverage objsTotal filterStats
    rw [reported_search, haverage]

/-- The same of the average of a filter. -/
theorem filterExact_iff {events : List FilterEvent}
    (h : processed FilterEvent.account events < 2 ^ 31) :
    FilterExact events ↔ elapsed FilterEvent.account events < 2 ^ 31 := by
  rw [← average_foldl_iff FilterEvent.counters FilterEvent.elapsed_eq_zero
    (rfl : FilterStatistics.new.executionUs = 0) (rfl : FilterStatistics.new.objsProcessed = 0) h]
  constructor
  · intro hexact
    have hreported := hexact ""
    rw [reported_filter] at hreported
    exact Option.some.inj hreported
  · intro haverage name
    rw [reported_filter, haverage]

/-- After every history of fewer than `2 ^ 31` processed objects, the averages of the search and
of the filters are exact if and only if the total of the elapsed times is below `2 ^ 31`. -/
theorem averages_exact_iff {searchEvents : List SearchEvent} {filterEvents : List FilterEvent}
    (hsearch : processed SearchEvent.account searchEvents < 2 ^ 31)
    (hfilter : processed FilterEvent.account filterEvents < 2 ^ 31) :
    (SearchExact searchEvents ↔ elapsed SearchEvent.account searchEvents < 2 ^ 31) ∧
      (FilterExact filterEvents ↔ elapsed FilterEvent.account filterEvents < 2 ^ 31) :=
  ⟨searchExact_iff hsearch, filterExact_iff hfilter⟩

/-- One evaluation of five microseconds is averaged exactly, beside events that take no time and are
not counted. -/
theorem averages_exact_iff_short :
    SearchExact [.doneEvaluate true false 5, .unloadable] ∧
      FilterExact [.doneEvaluate true false 5, .cacheHit false true] := by
  have hexact : (SearchExact [.doneEvaluate true false 5, .unloadable] ↔ _) ∧
      (FilterExact [.doneEvaluate true false 5, .cacheHit false true] ↔ _) :=
    averages_exact_iff (by decide) (by decide)
  exact ⟨hexact.1.mpr (by decide), hexact.2.mpr (by decide)⟩

/-- One object that takes `2 ^ 31` microseconds is reported with a negative average. -/
theorem longEvaluation_not_exact :
    ¬SearchExact [.doneEvaluate true false (2 ^ 31)] ∧
      ¬FilterExact [.doneEvaluate true false (2 ^ 31)] := by
  constructor
  · intro h
    exact absurd (h 0 []) (by decide)
  · intro h
    exact absurd (h "") (by decide)

end OpenDiamond.ExecutionTimes
