import Mathlib.Algebra.Group.Int.Defs
import Mathlib.Data.Int.Basic

/-!
# Search and filter statistics

The counters of `statistics.py` and the two loggers that write them. Every
counter is a C `int` shared by the workers; its lock is held while a logger
writes. Times are arguments.
-/

namespace OpenDiamond.Statistics

/-- `int` of a truth value, as a counter adds it. -/
def ofBool (b : Bool) : Int32 := if b then 1 else 0

/-- `SearchStatistics`. -/
structure SearchStatistics where
  /-- Objects considered. -/
  objsProcessed : Int32
  /-- Objects dropped. -/
  objsDropped : Int32
  /-- Objects passed. -/
  objsPassed : Int32
  /-- Objects passed with label. -/
  objsTruePositive : Int32
  /-- Objects dropped with label. -/
  objsFalseNegative : Int32
  /-- Objects failing to load. -/
  objsUnloadable : Int32
  /-- Total object examination time. -/
  executionUs : Int32

/-- `FilterStatistics`. -/
structure FilterStatistics where
  /-- Total objects considered. -/
  objsProcessed : Int32
  /-- Total objects dropped. -/
  objsDropped : Int32
  /-- Objects passed with label. -/
  objsTruePositive : Int32
  /-- Objects dropped with label. -/
  objsFalseNegative : Int32
  /-- Objects dropped by cache. -/
  objsCacheDropped : Int32
  /-- Objects skipped by cache. -/
  objsCachePassed : Int32
  /-- Objects examined by filter. -/
  objsComputed : Int32
  /-- Objects causing filter to terminate. -/
  objsTerminate : Int32
  /-- Filter execution time. -/
  executionUs : Int32

/-- Every counter starts at zero. -/
def SearchStatistics.new : SearchStatistics := ⟨0, 0, 0, 0, 0, 0, 0⟩

/-- Every counter starts at zero. -/
def FilterStatistics.new : FilterStatistics := ⟨0, 0, 0, 0, 0, 0, 0, 0, 0⟩

namespace FilterStatistics

/-- `FilterRunnerLogger.on_done_evaluate`. -/
def onDoneEvaluate (accept gtPresent : Bool) (elapsed : ℤ) (stats : FilterStatistics) :
    FilterStatistics :=
  { stats with
    executionUs := stats.executionUs + Int32.ofInt elapsed
    objsProcessed := stats.objsProcessed + 1
    objsComputed := stats.objsComputed + 1
    objsDropped := stats.objsDropped + ofBool (!accept)
    objsTruePositive := stats.objsTruePositive + ofBool (accept && gtPresent)
    objsFalseNegative := stats.objsFalseNegative + ofBool (!accept && gtPresent) }

/-- `FilterRunnerLogger.on_cache_hit`. -/
def onCacheHit (accept gtPresent : Bool) (stats : FilterStatistics) : FilterStatistics :=
  { stats with
    objsProcessed := stats.objsProcessed + 1
    objsDropped := stats.objsDropped + ofBool (!accept)
    objsCacheDropped := stats.objsCacheDropped + ofBool (!accept)
    objsCachePassed := stats.objsCachePassed + ofBool accept
    objsTruePositive := stats.objsTruePositive + ofBool (accept && gtPresent)
    objsFalseNegative := stats.objsFalseNegative + ofBool (!accept && gtPresent) }

/-- `FilterRunnerLogger.on_terminate`. -/
def onTerminate (stats : FilterStatistics) : FilterStatistics :=
  { stats with objsTerminate := stats.objsTerminate + 1 }

end FilterStatistics

namespace SearchStatistics

/-- `FilterStackRunnerLogger.on_done_evaluate`. -/
def onDoneEvaluate (accept gtPresent : Bool) (elapsed : ℤ) (stats : SearchStatistics) :
    SearchStatistics :=
  { stats with
    objsProcessed := stats.objsProcessed + 1
    objsPassed := stats.objsPassed + ofBool accept
    objsDropped := stats.objsDropped + ofBool (!accept)
    objsTruePositive := stats.objsTruePositive + ofBool (accept && gtPresent)
    objsFalseNegative := stats.objsFalseNegative + ofBool (!accept && gtPresent)
    executionUs := stats.executionUs + Int32.ofInt elapsed }

/-- `FilterStackRunnerLogger.on_unloadable`. -/
def onUnloadable (stats : SearchStatistics) : SearchStatistics :=
  { stats with objsUnloadable := stats.objsUnloadable + 1 }

end SearchStatistics

/-- A counter is raised by one or left alone, and does not wrap below its
greatest value. -/
theorem toInt_add_ofBool {x : Int32} (h₀ : 0 ≤ x.toInt) (h : x.toInt < 2 ^ 31 - 1) (b : Bool) :
    (x + ofBool b).toInt = x.toInt + if b then 1 else 0 := by
  cases b with
  | false => simp [ofBool]
  | true =>
    rw [ofBool, Int32.toInt_add]
    have hone : (1 : Int32).toInt = 1 := rfl
    simp only [if_true, hone]
    refine Int.bmod_eq_of_le (by omega) (by omega)

end OpenDiamond.Statistics
