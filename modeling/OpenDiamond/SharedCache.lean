import OpenDiamond.Lib.Processes
import OpenDiamond.ResultCache
import OpenDiamond.Worker

/-!
# Workers over one Redis database

Any number of workers, each with a stack of its own, evaluate objects over one
database. A worker takes a step for each of its accesses: the lookup of the
results, one step for each runner with its lookup of attributes, and the
update at the end. Between two steps other workers may do anything, entries
may be evicted, and a worker may die.
-/

namespace OpenDiamond.SharedCache

open Lib.OrderedDict Lib.Runs Lib.Processes DiamondObject FilterProtocol AttributeCache
  FilterStackRunner ResultCache ResultKeys Statistics

variable {m : Murmur} {ε σ : Type}

/-- What a worker is doing. -/
inductive Task (m : Murmur) (ε σ : Type) where
  /-- Waiting for an object, with its filter processes. -/
  | waiting (connections : ℕ → Option (Connection σ)) (stats : ℕ → FilterStatistics)
  /-- In the loop, with the results it looked up and the runners left. -/
  | looping (cacheResults : Dict ℕ FilterResult) (rest : List (Runner × ℕ))
      (st : Worker.LoopState m ε σ)
  /-- At the `finally` clause. -/
  | storing (st : Worker.LoopState m ε σ)
  | dead

/-- The object in hand. -/
def Task.object : Task m ε σ → Option (Object m)
  | .looping _ _ st => some st.obj
  | .storing st => some st.obj
  | _ => none

/-- A worker with its stack. -/
structure Worker (m : Murmur) (ε σ : Type) where
  /-- `_runners`. -/
  runners : List Runner
  /-- What it is doing. -/
  task : Task m ε σ

/-- How a worker moves. -/
inductive Choice (m : Murmur) (ε : Type) where
  /-- Take an object and look up the results. -/
  | begin (obj : Object m) (env : ε)
  /-- Load the next result or run the runner; the database of the occasion is
  the shared one. -/
  | next (occasion : Worker.Occasion m) (env : ε)
  /-- Update the cache; `mset` may fail. -/
  | store (msetFails : Bool)
  /-- The worker dies. -/
  | die

/-- What a worker does after the runner at the head of the list. -/
def afterRunner (setting : Worker.Setting ε σ) (cacheResults : Dict ℕ FilterResult)
    (runner : Runner) (rest : List (Runner × ℕ)) :
    Except Failure FilterResult × Worker.LoopState m ε σ → Task m ε σ
  | (.error _, st) => .storing st
  | (.ok result, st) =>
    if runner.threshold result then
      .looping cacheResults rest { st with obj := Worker.storeScore setting st.obj result runner }
    else .storing st

/-- One step of a worker. Where Redis is configured the signatures of objects
are computed. -/
def workerStep (setting : Worker.Setting ε σ) (redis : Redis) (_ : ℕ) (worker : Worker m ε σ)
    (choice : Choice m ε) : Option (Redis × Worker m ε σ) :=
  match choice, worker.task with
  | .begin obj env, .waiting connections stats =>
    if obj.computeSignature then
      let cacheResults := lookupResults (some redis) obj worker.runners
      match resultCacheCanDrop worker.runners cacheResults with
      | some deps =>
        some (redis, { worker with
          task := .waiting connections (Worker.notify worker.runners cacheResults deps stats) })
      | none =>
        some (redis, { worker with
          task := .looping cacheResults worker.runners.zipIdx
            ⟨obj, Dict.empty, connections, env, stats⟩ })
    else none
  | .next _ _, .looping _ [] st => some (redis, { worker with task := .storing st })
  | .next occasion env, .looping cacheResults ((runner, i) :: rest) st =>
    let found := Worker.loadOrRun setting { occasion with redis := some redis } cacheResults i
      runner { st with env }
    some (redis, { worker with task := afterRunner setting cacheResults runner rest found })
  | .store msetFails, .storing st =>
    some (if msetFails then redis
        else updateCache (cacheKey worker.runners st.obj) st.obj st.newResults redis,
      { worker with task := .waiting st.connections st.stats })
  | .die, _ => some (redis, { worker with task := .dead })
  | _, _ => none

/-- Redis keeps these entries and evicts the others. -/
structure Eviction where
  /-- Results kept. -/
  results : Finset String
  /-- Attributes kept. -/
  attributes : Finset String

/-- Eviction. -/
def evict (redis : Redis) (kept : Eviction) : Option Redis :=
  some ⟨redis.results.restrict kept.results, redis.attributes.restrict kept.attributes⟩

/-- Workers with these stacks and an empty database. -/
def initial (runners : ℕ → List Runner) : System Redis (Worker m ε σ) :=
  ⟨Redis.empty, fun pid => ⟨runners pid, .waiting (fun _ => none) fun _ => .new⟩⟩

/-- The steps of the system. -/
abbrev cacheStep (setting : Worker.Setting ε σ) :
    System Redis (Worker m ε σ) → Label (Choice m ε) Eviction →
      Option (System Redis (Worker m ε σ)) :=
  Lib.Processes.step (workerStep setting) evict

/-! ## Objects keep computing signatures -/

/-- No command changes whether signatures are computed. -/
theorem handle_computeSignature {services : Services ε} {st st' : FilterProtocol.LoopState m ε}
    {cmd : Command}
    (h : ∃ r, handle services st cmd = .reply r st' ∨ handle services st cmd = .leave st') :
    st'.obj.computeSignature = st.obj.computeSignature := by
  obtain ⟨r, h⟩ := h
  cases cmd with
  | omitAttribute key =>
    cases key with
    | none => simp [handle] at h
    | some key =>
      simp only [handle] at h
      cases homit : st.obj.omitAttr key with
      | none => grind
      | some obj =>
        have hobj := (Object.omitAttr_eq_some.mp homit).2
        grind
  | setAttribute key value =>
    cases key with
    | none => simp [handle] at h
    | some key =>
      simp only [handle] at h
      grind [Object.setItem_computeSignature]
  | _ =>
    unfold handle at h
    grind

/-- Nor does a whole loop of commands. -/
theorem commandLoop_computeSignature (services : Services ε) (proc : Proc σ)
    (st : FilterProtocol.LoopState m ε) :
    (commandLoop services proc st).state.obj.computeSignature = st.obj.computeSignature := by
  induction proc generalizing st with
  | emit cmd next ih =>
    cases hcmd : handle services st cmd with
    | reply r st' =>
      simp only [commandLoop, hcmd]
      rw [ih, handle_computeSignature ⟨r, .inl hcmd⟩]
    | leave st' =>
      simp only [commandLoop, hcmd]
      exact handle_computeSignature ⟨.nothing, .inr hcmd⟩
    | raise failure => simp only [commandLoop, hcmd]
  | finish score s => cases score <;> rfl
  | exit => rfl

/-- Nor does the evaluation of a filter, whether or not its process lives through it. -/
theorem evaluate_computeSignature (services : Services ε) (program : Program σ)
    (connection : Option (Connection σ)) (slow : Bool) (obj : Object m) (env : ε) :
    (FilterProtocol.evaluate services program connection slow obj env).obj.computeSignature =
      obj.computeSignature := by
  have hloop := commandLoop_computeSignature services
    (connection.getD ⟨program.start, false⟩).proc
    (⟨obj, .new, env, (connection.getD ⟨program.start, false⟩).initialized⟩ :
      FilterProtocol.LoopState m ε)
  unfold FilterProtocol.evaluate concluded
  dsimp only
  split <;> exact hloop

/-- Nor does the run of any runner, the fetcher included. -/
theorem evaluateRunner_computeSignature (setting : Worker.Setting ε σ)
    (occasion : Worker.Occasion m) (i : ℕ) (st : Worker.LoopState m ε σ) (runner : Runner) :
    (Worker.evaluateRunner setting occasion i st runner).2.obj.computeSignature =
      st.obj.computeSignature := by
  cases runner with
  | fetcher =>
    have hload := (st.obj.setItems_spec (occasion.loading st.obj).items).2.1
    unfold Worker.evaluateRunner
    dsimp only
    split <;> exact hload
  | filterRunner filter =>
    exact evaluate_computeSignature setting.services (setting.program filter.config)
      (st.connections i) occasion.slow st.obj st.env

/-- Nor does a result that is loaded from the cache. -/
theorem loadOrRun_computeSignature (setting : Worker.Setting ε σ) (occasion : Worker.Occasion m)
    (cacheResults : Dict ℕ FilterResult) (i : ℕ) (runner : Runner)
    (st : Worker.LoopState m ε σ) :
    (Worker.loadOrRun setting occasion cacheResults i runner st).2.obj.computeSignature =
      st.obj.computeSignature := by
  unfold Worker.loadOrRun
  split
  · rename_i cached loaded hload
    obtain ⟨cached', _, hload⟩ := Option.bind_eq_some_iff.mp hload
    obtain ⟨loaded', hload, heq⟩ := Option.map_eq_some_iff.mp hload
    cases heq
    exact tryLoad_computeSignature hload
  · have hrun := evaluateRunner_computeSignature setting occasion i st runner
    split <;> simp_all

/-! ## The database -/

/-- A value is stored under the signature the object has for it. -/
theorem contentAddressed_set {redis : Redis} (h : redis.ContentAddressed m) {obj : Object m}
    (hobj : obj.computeSignature = true) {name : String} {sig : Signature} {key : String}
    {value : Bytes} (hkey : getAttributeKey sig = some key)
    (hvalue : obj.attrs.get? name = some value) (hsig : obj.getSignature name = some sig) :
    Redis.ContentAddressed m { redis with attributes := redis.attributes.set key value } := by
  intro key' value' hget
  rw [Dict.get?_set] at hget
  split at hget
  · rename_i hsame
    cases hget
    rw [Object.getSignature_eq, hvalue, Option.map_some, hobj, Option.some.injEq] at hsig
    rw [← hsig] at hkey
    rw [← hsame, ← Option.some.inj hkey]
  · exact h key' value' hget

/-- What a worker stores for its object is stored under the signature of the value itself. -/
theorem contentAddressed_cacheOutputs {redis : Redis} (h : redis.ContentAddressed m)
    {obj : Object m} (hobj : obj.computeSignature = true) (result : FilterResult) :
    (cacheOutputs obj result redis).ContentAddressed m := by
  unfold cacheOutputs
  split
  · generalize result.outputAttrs.entries = entries
    induction entries generalizing redis with
    | nil => exact h
    | cons entry rest ih =>
      refine ih ?_
      dsimp only
      split
      · split
        · exact contentAddressed_set h hobj ‹_› ‹_› ‹_›
        · exact h
      · exact h
  · exact h

/-- The update at the end of a run, against the object as it is then. -/
theorem contentAddressed_updateCache {redis : Redis} (h : redis.ContentAddressed m)
    {obj : Object m} (hobj : obj.computeSignature = true) (cacheKey : ℕ → String)
    (newResults : Dict ℕ FilterResult) :
    (updateCache cacheKey obj newResults redis).ContentAddressed m := by
  unfold updateCache
  generalize newResults.entries = entries
  induction entries generalizing redis with
  | nil => exact h
  | cons entry rest ih =>
    refine ih (contentAddressed_cacheOutputs ?_ hobj entry.2)
    exact h

/-- An eviction only takes entries away. -/
theorem contentAddressed_evict {redis redis' : Redis} (h : redis.ContentAddressed m)
    {kept : Eviction} (hevict : evict redis kept = some redis') : redis'.ContentAddressed m := by
  cases hevict
  intro key value hget
  rw [Dict.get?_restrict] at hget
  split at hget
  · exact h key value hget
  · cases hget

/-! ## Runs -/

/-- The object a worker has in hand computes signatures. -/
def Task.Signing (task : Task m ε σ) : Prop :=
  ∀ obj, task.object = some obj → obj.computeSignature = true

/-- A task with an object is signing exactly when its object computes signatures. -/
theorem Task.signing_iff {task : Task m ε σ} {obj : Object m} (h : task.object = some obj) :
    task.Signing ↔ obj.computeSignature = true := by
  unfold Task.Signing
  rw [h]
  simp

/-- Behind a runner the task is still signing, whatever the runner gave. -/
theorem afterRunner_signing {setting : Worker.Setting ε σ} {cacheResults : Dict ℕ FilterResult}
    {runner : Runner} {rest : List (Runner × ℕ)}
    {found : Except Failure FilterResult × Worker.LoopState m ε σ}
    (h : found.2.obj.computeSignature = true) :
    (afterRunner setting cacheResults runner rest found).Signing := by
  rcases found with ⟨failure | result, st⟩
  · exact (Task.signing_iff rfl).mpr h
  · unfold afterRunner
    dsimp only
    split
    · refine (Task.signing_iff rfl).mpr ?_
      cases runner <;> exact h
    · exact (Task.signing_iff rfl).mpr h

/-- A step of a worker keeps every value of the cache under its own signature, and keeps the worker
signing. -/
theorem workerStep_kept {setting : Worker.Setting ε σ} {redis redis' : Redis} {pid : ℕ}
    {worker worker' : Worker m ε σ} {choice : Choice m ε} (h : redis.ContentAddressed m)
    (hsigning : worker.task.Signing)
    (hstep : workerStep setting redis pid worker choice = some (redis', worker')) :
    redis'.ContentAddressed m ∧ worker'.task.Signing := by
  have hnone : ∀ {task : Task m ε σ}, task.object = none → task.Signing := by
    intro task htask obj hobj
    cases htask.symm.trans hobj
  unfold workerStep at hstep
  split at hstep
  · -- the result cache decides, or the loop begins
    split at hstep
    · dsimp only at hstep
      split at hstep <;> cases hstep
      · exact ⟨h, hnone rfl⟩
      · exact ⟨h, (Task.signing_iff rfl).mpr ‹_›⟩
    · cases hstep
  · rename_i htask
    rw [htask] at hsigning
    cases hstep
    exact ⟨h, hsigning⟩
  · rename_i htask
    rw [htask, Task.signing_iff rfl] at hsigning
    cases hstep
    refine ⟨h, afterRunner_signing ?_⟩
    rw [loadOrRun_computeSignature]
    exact hsigning
  · rename_i htask
    rw [htask, Task.signing_iff rfl] at hsigning
    cases hstep
    refine ⟨?_, hnone rfl⟩
    split
    · exact h
    · exact contentAddressed_updateCache h hsigning _ _
  · cases hstep
    exact ⟨h, hnone rfl⟩
  · cases hstep

/-- An empty cache has no value in a wrong place. -/
theorem contentAddressed_empty : Redis.empty.ContentAddressed m := by
  intro key value hget
  simp [Redis.empty] at hget

/-- The invariant of the database and of the workers holds after every run, with evictions and
deaths at any time. -/
theorem cacheStep_holds {setting : Worker.Setting ε σ} {runners : ℕ → List Runner}
    {labels : List (Label (Choice m ε) Eviction)} {s : System Redis (Worker m ε σ)}
    (hrun : exec (cacheStep setting) (initial runners) labels = some s) :
    Holds (Redis.ContentAddressed m) (fun _ _ worker => worker.task.Signing) s := by
  refine exec_holds_of_steps ?_ ?_ ⟨contentAddressed_empty, fun pid obj hobj => ?_⟩ hrun
  · intro redis pid worker choice redis' worker' h hsigning hstep
    obtain ⟨h', hsigning'⟩ := workerStep_kept h hsigning hstep
    exact ⟨h', hsigning', fun _ _ _ hother => hother⟩
  · intro redis kept redis' h hevict
    exact ⟨contentAddressed_evict h hevict, fun _ _ hother => hother⟩
  · cases hobj

/-- Every attribute of the object has the signature of its value. -/
def Signed (obj : Object m) : Prop :=
  ∀ key, obj.signatures.get? key = (obj.attrs.get? key).map fun value => .digest (m.hash value)

/-- An object that computes signatures has the right one for every attribute. -/
theorem signed_of_computeSignature {obj : Object m} (h : obj.computeSignature = true) :
    Signed obj := by
  intro key
  rw [obj.signed, h]
  rfl

/-- In every state of every run, each attribute entry is filed under the
signature of its value, and the objects that workers have in hand, or load from
the cache, have with each attribute the signature of its value. A loaded
attribute has the signature recorded with the result. -/
theorem cache_contentAddressed {setting : Worker.Setting ε σ} {runners : ℕ → List Runner}
    {labels : List (Label (Choice m ε) Eviction)} {s : System Redis (Worker m ε σ)}
    (hrun : exec (cacheStep setting) (initial runners) labels = some s) :
    s.shared.ContentAddressed m ∧
      (∀ pid obj, (s.procs pid).task.object = some obj → Signed obj) ∧
      ∀ (obj loaded : Object m) (result : FilterResult), obj.computeSignature = true →
        attributeCacheTryLoad (some s.shared) obj result = some loaded →
        Signed loaded ∧ ∀ key sig, result.outputAttrs.get? key = some sig →
          loaded.getSignature key = some sig := by
  obtain ⟨hredis, hworkers⟩ := cacheStep_holds hrun
  refine ⟨hredis, fun pid obj hobj => signed_of_computeSignature (hworkers pid obj hobj), ?_⟩
  intro obj loaded result hobj hload
  have hloaded : loaded.computeSignature = true := (tryLoad_computeSignature hload).trans hobj
  refine ⟨signed_of_computeSignature hloaded, fun key sig hsig => ?_⟩
  obtain ⟨hcached, hattrs, _⟩ := tryLoad_spec hload
  have hsome := hcached key (by rw [hsig]; rfl)
  rw [hsig, Option.bind_some] at hsome
  obtain ⟨value, hvalue⟩ := Option.isSome_iff_exists.mp hsome
  have hlookup : (getAttributeKey sig).bind s.shared.attributes.get? = some value := hvalue
  obtain ⟨name, hname, hget⟩ := Option.bind_eq_some_iff.mp hlookup
  have hkey := hredis name value hget
  cases sig with
  | unsigned => cases hname
  | digest hex =>
    have hhex : "attribute:" ++ hex = "attribute:" ++ m.hash value :=
      (Option.some.inj hname).trans hkey
    rw [Object.getSignature, signed_of_computeSignature hloaded, hattrs, hsig, Option.bind_some,
      hvalue, (String.append_right_inj _).mp hhex]
    rfl

/-- Every filter writes its attribute and scores one. -/
def writing : Worker.Setting Unit Unit :=
  let body : Proc Unit := .emit (.setAttribute (some "x") [1]) fun _ => .finish (some .one) ()
  ⟨noServices, fun _ => ⟨.emit .initSuccess fun _ => body, fun _ => body⟩, fun _ => "1.0"⟩

/-- One filter. -/
def oneRunner : List Runner :=
  [.filterRunner ⟨⟨zeroSignature, "f", [], zeroSignature⟩, .zero, .one, []⟩]

/-- A slow filter, whose output is cached. -/
def slowly : Worker.Occasion hexMurmur :=
  ⟨fun _ => ⟨[], none⟩, Worker.loads_plain, none, true, 0⟩

/-- One worker stores what its filter wrote while another is in its loop; the
other one dies. -/
def twoWorkers : List (Label (Choice hexMurmur Unit) Eviction) :=
  [.proc 0 (.begin plainObject ()), .proc 1 (.begin plainObject ()), .proc 0 (.next slowly ()),
    .proc 0 (.next slowly ()), .proc 0 (.store false), .proc 1 (.next slowly ()), .proc 1 .die]

/-- The run of the two workers leaves one value in the cache. -/
theorem exec_twoWorkers :
    ∃ s, exec (cacheStep writing) (initial fun _ => oneRunner) twoWorkers = some s ∧
      s.shared.attributes.entries = [("attribute:01", [1])] :=
  ⟨_, rfl, by decide⟩

/-- One worker stores a value while another one is in its loop and then dies; the value stands under
its own signature. -/
theorem cache_contentAddressed_twoWorkers :
    ∃ s, exec (cacheStep writing) (initial fun _ => oneRunner) twoWorkers = some s ∧
      s.shared.attributes.entries = [("attribute:01", [1])] ∧
      s.shared.ContentAddressed hexMurmur := by
  obtain ⟨s, hrun, hentries⟩ := exec_twoWorkers
  exact ⟨s, hrun, hentries, (cache_contentAddressed hrun).1⟩

end OpenDiamond.SharedCache
