import Mathlib.Data.List.Induction
import OpenDiamond.ExecutionTimes
import OpenDiamond.Lib.Mutex

/-!
# Statistics under their lock

The counters of a search and of its filters lie in memory that all worker processes and the
control thread share. A logger holds the lock of the counters while it adds, and `xdr` holds it
while it reads, but every `+=` is a read and a write of its own. In every order of these steps a
report shows a whole number of logger calls.
-/

namespace OpenDiamond.SharedStatistics

open Lib.Runs Lib.Processes Lib.Mutex Statistics ExecutionTimes

/-! ## Accesses to the counters -/

/-- `_stats`, by the name of the counter. -/
abbrev Cells (K : Type) := K → Int32

/-- Where a process is in a section. -/
inductive Point (K : Type) where
  /-- Before the next `+=`. -/
  | adding (rest : List (K × Int32))
  /-- It has read a counter and is about to write the sum. -/
  | writing (name : K) (value : Int32) (rest : List (K × Int32))
  /-- Before the next read of a report, with the values read so far. -/
  | reading (rest : List K) (values : List Int32)

section Accesses

variable {K : Type} [DecidableEq K]

/-- `__getattr__` and `__setattr__`: one access to a counter. -/
def access (cells : Cells K) : Point K → Cells K × (Point K ⊕ List Int32)
  | .adding [] => (cells, .inr [])
  | .adding ((name, amount) :: rest) => (cells, .inl (.writing name (cells name + amount) rest))
  | .writing name value rest => (Function.update cells name value, .inl (.adding rest))
  | .reading [] values => (cells, .inr values)
  | .reading (name :: rest) values => (cells, .inl (.reading rest (values ++ [cells name])))

/-- The counters after some increments. -/
def increase (cells : Cells K) (increments : List (K × Int32)) : Cells K :=
  increments.foldl (fun c inc => Function.update c inc.1 (c inc.1 + inc.2)) cells

/-- What a process that is not disturbed does from its point on. -/
def finish (cells : Cells K) : Point K → Cells K × List Int32
  | .adding rest => (increase cells rest, [])
  | .writing name value rest => (increase (Function.update cells name value) rest, [])
  | .reading rest values => (cells, values ++ rest.map cells)

theorem finish_access (cells : Cells K) (point : Point K) (cells' : Cells K) (next : Point K)
    (h : access cells point = (cells', .inl next)) : finish cells' next = finish cells point := by
  cases point with
  | adding rest =>
    cases rest with
    | nil => cases h
    | cons increment rest =>
      cases h
      rfl
  | writing name value rest =>
    cases h
    rfl
  | reading rest values =>
    cases rest with
    | nil => cases h
    | cons name rest =>
      cases h
      rw [finish, finish, List.map_cons, List.append_assoc, List.singleton_append]

theorem finish_last (cells : Cells K) (point : Point K) (cells' : Cells K) (values : List Int32)
    (h : access cells point = (cells', .inr values)) : finish cells point = (cells', values) := by
  cases point with
  | adding rest =>
    cases rest with
    | nil =>
      cases h
      rfl
    | cons increment rest => cases h
  | writing name value rest => cases h
  | reading rest values' =>
    cases rest with
    | nil =>
      cases h
      rw [finish, List.map_nil, List.append_nil]
    | cons name rest => cases h

end Accesses

/-! ## Calls on one statistics object -/

/-- A call that holds the lock: one of a logger, or `xdr` with its argument. -/
inductive Call (E N : Type) where
  | event (event : E)
  | xdr (argument : N)

/-- A class of statistics: its counters, what the calls of its logger add and what `xdr` makes
of them, in the order of the source; and the record that stands for its counters. -/
structure Kind (K E N S : Type) [DecidableEq K] where
  /-- The `+=` of a logger call. -/
  increments : E → List (K × Int32)
  /-- The counters that `xdr` reads. -/
  names : List K
  /-- The report, from the values read. -/
  report : N → List Int32 → List Stat
  /-- The record of the counters. -/
  record : Cells K → S
  /-- A logger call on the record. -/
  apply : S → E → S
  /-- The report of a record. -/
  shown : N → S → List Stat
  /-- The counters of a record that belong together. -/
  Balanced : S → Prop
  /-- The increments do what the call does. -/
  record_increase : ∀ cells event,
    record (increase cells (increments event)) = apply (record cells) event
  /-- The values read give the report. -/
  report_values : ∀ argument cells,
    report argument (names.map cells) = shown argument (record cells)
  /-- The counters are balanced at first. -/
  balanced_zero : Balanced (record fun _ => 0)
  /-- They stay so. -/
  balanced_apply : ∀ stats event, Balanced stats → Balanced (apply stats event)

namespace Kind

variable {K E N S : Type} [DecidableEq K] (kind : Kind K E N S)

/-- The sections of the class. -/
def body : Body (Cells K) (Call E N) (Point K) (List Int32) where
  enter
    | .event event => .adding (kind.increments event)
    | .xdr _ => .reading kind.names []
  access := access

/-- What a section does undisturbed. -/
def alone : Alone kind.body := ⟨finish, finish_access, finish_last⟩

/-- The logger calls among some calls. -/
def events (calls : List (Call E N)) : List E :=
  calls.filterMap fun call =>
    match call with
    | .event event => some event
    | .xdr _ => none

/-- The record after some calls. -/
def after (calls : List (Call E N)) : S := (events calls).foldl kind.apply (kind.record fun _ => 0)

theorem after_concat_event (calls : List (Call E N)) (event : E) :
    kind.after (calls ++ [.event event]) = kind.apply (kind.after calls) event := by
  simp [after, events]

theorem after_concat_xdr (calls : List (Call E N)) (argument : N) :
    kind.after (calls ++ [.xdr argument]) = kind.after calls := by
  simp [after, events]

/-- The counters after some calls stand for the record after them. -/
theorem record_replay (calls : List (Call E N)) :
    kind.record (kind.alone.replay (fun _ => 0) calls) = kind.after calls := by
  induction calls using List.reverseRecOn with
  | nil => rfl
  | append_singleton calls call ih =>
    rw [kind.alone.replay_append]
    cases call with
    | event event =>
      rw [kind.after_concat_event, ← ih]
      exact kind.record_increase _ event
    | xdr argument =>
      rw [kind.after_concat_xdr, ← ih]
      rfl

theorem balanced_after (calls : List (Call E N)) : kind.Balanced (kind.after calls) := by
  induction calls using List.reverseRecOn with
  | nil => exact kind.balanced_zero
  | append_singleton calls call ih =>
    cases call with
    | event event =>
      rw [kind.after_concat_event]
      exact kind.balanced_apply _ event ih
    | xdr argument =>
      rw [kind.after_concat_xdr]
      exact ih

/-- What holds of the reports of some processes that make their calls at the same time. -/
structure Consistent (script : ℕ → List (Call E N))
    (s : Shared (Cells K) (Call E N) (List Int32)) : Prop where
  /-- A report shows the calls that gave up the lock before it, each of them whole. -/
  report : ∀ before entry rest argument, s.done = before ++ entry :: rest →
    entry.call = .xdr argument →
      kind.report argument entry.result = kind.shown argument (kind.after (before.map Done.call))
  /-- The counters of every report belong together. -/
  balanced : ∀ before : List (Done (Call E N) (List Int32)), before <+: s.done →
    kind.Balanced (kind.after (before.map Done.call))
  /-- When nobody holds the lock, no increment is lost or half done. -/
  settled : s.lock = none → kind.record s.memory = kind.after (s.done.map Done.call)
  /-- Every process has made its calls in its order. -/
  order : ∀ pid, s.callsOf pid <+: script pid

/-- Every run on one statistics object is consistent: the accesses stand between a lock and its
release, so that whole calls take effect one after the other. -/
theorem consistent_of_run {script : ℕ → List (Call E N)} {labels : List (Label Unit Empty)}
    {t : System (Shared (Cells K) (Call E N) (List Int32)) (Thread (Call E N) (Point K) (List Int32))}
    (hrun : exec (lockStep kind.body) (initial (fun _ => 0) script) labels = some t) :
    kind.Consistent script t.shared := by
  have hholds : Holds (SharedInv kind.alone fun _ => 0)
      (ThreadOk kind.alone (fun _ => 0) script) t := run_holds hrun
  obtain ⟨hinv, hok⟩ := hholds
  refine ⟨?_, fun before _ => kind.balanced_after _, ?_, ?_⟩
  · intro before entry rest argument hdone hcall
    have hresult := hinv.result_eq hdone
    rw [hcall] at hresult
    have hvalues : entry.result =
        kind.names.map (kind.alone.replay (fun _ => 0) (before.map Done.call)) := hresult
    rw [hvalues, kind.report_values, kind.record_replay]
  · intro hfree
    rw [hinv.free hfree]
    exact kind.record_replay _
  · intro pid
    exact ⟨_, (hok pid).calls⟩

end Kind

/-! ## The two classes -/

/-- The values of `xdr` in order: the average comes from the first two counters read. -/
def statsOf (first : List Stat) (averageName : String) (names : List String) :
    List Int32 → List Stat
  | executionUs :: objsProcessed :: values =>
    first ++ ⟨averageName, average executionUs objsProcessed⟩ ::
      List.zipWith (fun name value => ⟨name, value.toInt⟩) names values
  | _ => []

/-- The names in `SearchStatistics.attrs`. -/
inductive SearchCounter where
  | objsProcessed
  | objsDropped
  | objsPassed
  | objsTruePositive
  | objsFalseNegative
  | objsUnloadable
  | executionUs
  deriving DecidableEq

/-- `SearchStatistics.attrs` without the execution time. -/
def SearchCounter.attrs : List (SearchCounter × String) := [
  (.objsProcessed, "objs_processed"),
  (.objsDropped, "objs_dropped"),
  (.objsPassed, "objs_passed"),
  (.objsTruePositive, "objs_true_positive"),
  (.objsFalseNegative, "objs_false_negative"),
  (.objsUnloadable, "objs_unloadable")]

/-- The increments of `FilterStackRunnerLogger`. -/
def SearchCounter.increments : SearchEvent → List (SearchCounter × Int32)
  | .doneEvaluate accept gtPresent elapsed => [
    (.objsProcessed, 1),
    (.objsPassed, ofBool accept),
    (.objsDropped, ofBool (!accept)),
    (.objsTruePositive, ofBool (accept && gtPresent)),
    (.objsFalseNegative, ofBool (!accept && gtPresent)),
    (.executionUs, Int32.ofInt elapsed)]
  | .unloadable => [(.objsUnloadable, 1)]

/-- `SearchStatistics`, with the number of objects in the scope as the argument of `xdr`. The
reports of the filters that `xdr` adds are those of other objects, under their own locks. -/
def search : Kind SearchCounter SearchEvent ℤ SearchStatistics where
  increments := SearchCounter.increments
  names := .executionUs :: .objsProcessed :: SearchCounter.attrs.map Prod.fst
  report objsTotal :=
    statsOf [⟨"objs_total", objsTotal⟩] "avg_obj_time_us" (SearchCounter.attrs.map Prod.snd)
  record cells := ⟨cells .objsProcessed, cells .objsDropped, cells .objsPassed,
    cells .objsTruePositive, cells .objsFalseNegative, cells .objsUnloadable, cells .executionUs⟩
  apply := SearchEvent.apply
  shown objsTotal stats := (searchXdr objsTotal [] stats).stats
  Balanced stats := stats.objsProcessed = stats.objsPassed + stats.objsDropped
  record_increase cells event := by
    cases event <;> simp [SearchCounter.increments, increase, Function.update, SearchEvent.apply,
      SearchStatistics.onDoneEvaluate, SearchStatistics.onUnloadable]
  report_values _ _ := rfl
  balanced_zero := rfl
  balanced_apply stats event h := by
    cases event with
    | doneEvaluate accept gtPresent elapsed =>
      cases accept <;>
        simp only [SearchEvent.apply, SearchStatistics.onDoneEvaluate, ofBool, h] <;> grind
    | unloadable => exact h

/-- The names in `FilterStatistics.attrs`. -/
inductive FilterCounter where
  | objsProcessed
  | objsDropped
  | objsTruePositive
  | objsFalseNegative
  | objsCacheDropped
  | objsCachePassed
  | objsComputed
  | objsTerminate
  | executionUs
  deriving DecidableEq

/-- `FilterStatistics.attrs` without the execution time. -/
def FilterCounter.attrs : List (FilterCounter × String) := [
  (.objsProcessed, "objs_processed"),
  (.objsDropped, "objs_dropped"),
  (.objsTruePositive, "objs_true_positive"),
  (.objsFalseNegative, "objs_false_negative"),
  (.objsCacheDropped, "objs_cache_dropped"),
  (.objsCachePassed, "objs_cache_passed"),
  (.objsComputed, "objs_computed"),
  (.objsTerminate, "objs_terminate")]

/-- The increments of `FilterRunnerLogger`. -/
def FilterCounter.increments : FilterEvent → List (FilterCounter × Int32)
  | .doneEvaluate accept gtPresent elapsed => [
    (.executionUs, Int32.ofInt elapsed),
    (.objsProcessed, 1),
    (.objsComputed, 1),
    (.objsDropped, ofBool (!accept)),
    (.objsTruePositive, ofBool (accept && gtPresent)),
    (.objsFalseNegative, ofBool (!accept && gtPresent))]
  | .cacheHit accept gtPresent => [
    (.objsProcessed, 1),
    (.objsDropped, ofBool (!accept)),
    (.objsCacheDropped, ofBool (!accept)),
    (.objsCachePassed, ofBool accept),
    (.objsTruePositive, ofBool (accept && gtPresent)),
    (.objsFalseNegative, ofBool (!accept && gtPresent))]
  | .terminate => [(.objsTerminate, 1)]

/-- `FilterStatistics`; `xdr` has no argument. -/
def filter : Kind FilterCounter FilterEvent Unit FilterStatistics where
  increments := FilterCounter.increments
  names := .executionUs :: .objsProcessed :: FilterCounter.attrs.map Prod.fst
  report _ := statsOf [] "avg_exec_time_us" (FilterCounter.attrs.map Prod.snd)
  record cells := ⟨cells .objsProcessed, cells .objsDropped, cells .objsTruePositive,
    cells .objsFalseNegative, cells .objsCacheDropped, cells .objsCachePassed,
    cells .objsComputed, cells .objsTerminate, cells .executionUs⟩
  apply := FilterEvent.apply
  shown _ stats := (filterXdr "" stats).stats
  Balanced stats := stats.objsProcessed =
    stats.objsComputed + (stats.objsCacheDropped + stats.objsCachePassed)
  record_increase cells event := by
    cases event <;> simp [FilterCounter.increments, increase, Function.update, FilterEvent.apply,
      FilterStatistics.onDoneEvaluate, FilterStatistics.onCacheHit, FilterStatistics.onTerminate]
  report_values _ _ := rfl
  balanced_zero := rfl
  balanced_apply stats event h := by
    cases event with
    | doneEvaluate accept gtPresent elapsed =>
      simp only [FilterEvent.apply, FilterStatistics.onDoneEvaluate, h]
      grind
    | cacheHit accept gtPresent =>
      cases accept <;>
        simp only [FilterEvent.apply, FilterStatistics.onCacheHit, ofBool, h] <;> grind
    | terminate => exact h

/-- In every order of the accesses of any number of processes, the reports of a search and those
of a filter show whole logger calls, and no increment is lost. -/
theorem reports_consistent :
    (∀ (script : ℕ → List (Call SearchEvent ℤ)) (labels : List (Label Unit Empty)) t,
      exec (lockStep search.body) (initial (fun _ => 0) script) labels = some t →
        search.Consistent script t.shared) ∧
    (∀ (script : ℕ → List (Call FilterEvent Unit)) (labels : List (Label Unit Empty)) t,
      exec (lockStep filter.body) (initial (fun _ => 0) script) labels = some t →
        filter.Consistent script t.shared) := by
  constructor
  · intro script labels t hrun
    exact search.consistent_of_run hrun
  · intro script labels t hrun
    exact filter.consistent_of_run hrun

end OpenDiamond.SharedStatistics
