import OpenDiamond.Lib.Processes

/-!
# Critical sections under one lock

Any number of threads make calls that hold a lock from their first access to a shared memory
to their last one. Every access is a step of its own, and the steps of the threads come in
any order. What the calls did is then what they do one at a time, in the order in which they
gave up the lock.
-/

namespace OpenDiamond.Lib.Mutex

open Runs Processes

/-- The body of a call: where it begins, and its next access to the memory, after which it goes
on or ends with a result. -/
structure Body (M C P R : Type*) where
  /-- Where the body of a call begins. -/
  enter : C → P
  /-- One access. -/
  access : M → P → M × (P ⊕ R)

/-- What the rest of a body does to the memory when no other thread comes between, and the
result it ends with. -/
structure Alone {M C P R : Type*} (body : Body M C P R) where
  /-- The memory and the result at the end. -/
  finish : M → P → M × R
  /-- An access leaves the end as it is. -/
  finish_access : ∀ m p m' q, body.access m p = (m', .inl q) → finish m' q = finish m p
  /-- The last access. -/
  finish_last : ∀ m p m' r, body.access m p = (m', .inr r) → finish m p = (m', r)

/-- A call that has given up the lock. -/
structure Done (C R : Type*) where
  /-- The thread. -/
  pid : ℕ
  /-- Its call. -/
  call : C
  /-- What the call returned. -/
  result : R

/-- The shared memory, the lock and a record of the calls. -/
structure Shared (M C R : Type*) where
  /-- The memory. -/
  memory : M
  /-- The thread that holds the lock. -/
  lock : Option ℕ
  /-- The calls that gave up the lock, in this order. -/
  done : List (Done C R)

/-- A thread, with the calls it has still to make. -/
inductive Thread (C P R : Type*) where
  /-- Before its next call. -/
  | outside (todo : List C)
  /-- It holds the lock, at a point of the body. -/
  | inside (call : C) (point : P) (todo : List C)
  /-- It holds the lock after the last access. -/
  | leaving (call : C) (result : R) (todo : List C)

variable {M C P R : Type*}

/-- A step of a thread. The lock is taken only when it is free. -/
def threadStep (body : Body M C P R) (s : Shared M C R) (pid : ℕ) :
    Thread C P R → Unit → Option (Shared M C R × Thread C P R)
  | .outside [], _ => none
  | .outside (call :: todo), _ =>
    if s.lock = none then some ({ s with lock := some pid }, .inside call (body.enter call) todo)
    else none
  | .inside call point todo, _ =>
    match body.access s.memory point with
    | (memory, .inl next) => some ({ s with memory := memory }, .inside call next todo)
    | (memory, .inr result) => some ({ s with memory := memory }, .leaving call result todo)
  | .leaving call result todo, _ =>
    some ({ s with lock := none, done := s.done ++ [⟨pid, call, result⟩] }, .outside todo)

/-- The threads in any order. -/
abbrev lockStep (body : Body M C P R) :
    System (Shared M C R) (Thread C P R) → Label Unit Empty →
      Option (System (Shared M C R) (Thread C P R)) :=
  step (threadStep body) fun _ (_ : Empty) => none

/-- No call was made yet. -/
def initial (memory : M) (script : ℕ → List C) : System (Shared M C R) (Thread C P R) :=
  ⟨⟨memory, none, []⟩, fun pid => .outside (script pid)⟩

/-! ## One call at a time -/

namespace Alone

variable {body : Body M C P R} (alone : Alone body)

/-- A whole call. -/
def call (m : M) (c : C) : M × R := alone.finish m (body.enter c)

/-- The memory after some calls. -/
def replay : M → List C → M
  | m, [] => m
  | m, c :: rest => replay (alone.call m c).1 rest

/-- What the calls return. -/
def results : M → List C → List R
  | _, [] => []
  | m, c :: rest => (alone.call m c).2 :: results (alone.call m c).1 rest

theorem replay_append (m : M) (first second : List C) :
    alone.replay m (first ++ second) = alone.replay (alone.replay m first) second := by
  induction first generalizing m with
  | nil => rfl
  | cons c rest ih => exact ih _

theorem results_append (m : M) (first second : List C) :
    alone.results m (first ++ second) =
      alone.results m first ++ alone.results (alone.replay m first) second := by
  induction first generalizing m with
  | nil => rfl
  | cons c rest ih => exact congrArg (_ :: ·) (ih _)

theorem length_results (m : M) (calls : List C) :
    (alone.results m calls).length = calls.length := by
  induction calls generalizing m with
  | nil => rfl
  | cons c rest ih => exact congrArg (· + 1) (ih _)

end Alone

/-! ## What every run keeps -/

/-- The calls of a thread that were made. -/
def Shared.callsOf (s : Shared M C R) (pid : ℕ) : List C :=
  (s.done.filter (·.pid = pid)).map Done.call

/-- The calls of a thread that are not over. -/
def Thread.rest : Thread C P R → List C
  | .outside todo => todo
  | .inside call _ todo => call :: todo
  | .leaving call _ todo => call :: todo

variable {body : Body M C P R} (alone : Alone body) (m₀ : M) (script : ℕ → List C)

/-- The memory after the calls that are over. -/
def Shared.committed (s : Shared M C R) : M := alone.replay m₀ (s.done.map Done.call)

/-- The record is one call after the other, and a free lock leaves nothing half done. -/
structure SharedInv (s : Shared M C R) : Prop where
  /-- What the calls returned. -/
  results : s.done.map Done.result = alone.results m₀ (s.done.map Done.call)
  /-- The memory when nobody holds the lock. -/
  free : s.lock = none → s.memory = s.committed alone m₀

/-- Where a thread is, in terms of the lock and of the calls that are over. -/
def Place (s : Shared M C R) (pid : ℕ) : Thread C P R → Prop
  | .outside _ => s.lock ≠ some pid
  | .inside call point _ =>
    s.lock = some pid ∧ alone.finish s.memory point = alone.call (s.committed alone m₀) call
  | .leaving call result _ =>
    s.lock = some pid ∧ (s.memory, result) = alone.call (s.committed alone m₀) call

/-- A thread is at its place and makes the calls of its script in order. -/
structure ThreadOk (s : Shared M C R) (pid : ℕ) (thread : Thread C P R) : Prop where
  /-- Where it is. -/
  place : Place alone m₀ s pid thread
  /-- What it did and has to do. -/
  calls : s.callsOf pid ++ thread.rest = script pid

/-- A thread that does not hold the lock is outside. -/
theorem Place.of_other {s : Shared M C R} {pid other : ℕ} {thread : Thread C P R}
    (hlock : s.lock = some pid) (hne : other ≠ pid) (h : Place alone m₀ s other thread) :
    ∃ todo, thread = .outside todo := by
  have hother : s.lock ≠ some other := by
    rw [hlock]
    exact fun heq => hne (Option.some.inj heq).symm
  cases thread with
  | outside todo => exact ⟨todo, rfl⟩
  | inside call point todo => exact absurd h.1 hother
  | leaving call result todo => exact absurd h.1 hother

/-- A thread that is not the one that gave up the lock keeps its calls. -/
theorem callsOf_append_of_ne (done : List (Done C R)) (entry : Done C R) {memory : M}
    {lock : Option ℕ} {pid : ℕ} (hne : entry.pid ≠ pid) :
    Shared.callsOf ⟨memory, lock, done ++ [entry]⟩ pid = Shared.callsOf ⟨memory, lock, done⟩ pid := by
  simp [Shared.callsOf, hne]

variable {alone m₀ script}

/-- While a thread holds the lock, the others keep what they have. -/
theorem ThreadOk.of_holder {s t : Shared M C R} {pid other : ℕ} {thread : Thread C P R}
    (hlock : s.lock = some pid) (hne : other ≠ pid) (hfree : t.lock ≠ some other)
    (hcalls : t.callsOf other = s.callsOf other) (h : ThreadOk alone m₀ script s other thread) :
    ThreadOk alone m₀ script t other thread := by
  obtain ⟨todo, rfl⟩ := h.place.of_other alone m₀ hlock hne
  refine ⟨hfree, ?_⟩
  rw [hcalls]
  exact h.calls

/-- One step of a thread. -/
theorem threadStep_kept (s : Shared M C R) (pid : ℕ) (thread : Thread C P R) (choice : Unit)
    (t : Shared M C R) (thread' : Thread C P R) (hinv : SharedInv alone m₀ s)
    (hok : ThreadOk alone m₀ script s pid thread)
    (hstep : threadStep body s pid thread choice = some (t, thread')) :
    SharedInv alone m₀ t ∧ ThreadOk alone m₀ script t pid thread' ∧
      ∀ other q, other ≠ pid → ThreadOk alone m₀ script s other q →
        ThreadOk alone m₀ script t other q := by
  obtain ⟨hplace, hcalls⟩ := hok
  cases thread with
  | outside todo =>
    cases todo with
    | nil => cases hstep
    | cons call todo =>
      by_cases hlock : s.lock = none
      · rw [threadStep, if_pos hlock] at hstep
        cases hstep
        refine ⟨⟨hinv.results, fun h => nomatch h⟩, ⟨⟨rfl, ?_⟩, hcalls⟩, ?_⟩
        · show alone.finish s.memory (body.enter call) = _
          rw [hinv.free hlock]
          rfl
        · intro other q hne hother
          have hfree : s.lock ≠ some other := by simp [hlock]
          cases q with
          | outside rest =>
            refine ⟨?_, hother.calls⟩
            exact fun heq => hne (Option.some.inj heq).symm
          | inside call' point rest => exact absurd hother.place.1 hfree
          | leaving call' result rest => exact absurd hother.place.1 hfree
      · rw [threadStep, if_neg hlock] at hstep
        cases hstep
  | inside call point todo =>
    obtain ⟨hlock, hfinish⟩ := hplace
    have hother : ∀ (m : M) (other : ℕ) (q : Thread C P R), other ≠ pid →
        ThreadOk alone m₀ script s other q →
          ThreadOk alone m₀ script { s with memory := m } other q := by
      intro m other q hne hq
      refine hq.of_holder hlock hne ?_ rfl
      rw [show ({ s with memory := m } : Shared M C R).lock = some pid from hlock]
      exact fun heq => hne (Option.some.inj heq).symm
    have hheld : ∀ m : M, ({ s with memory := m } : Shared M C R).lock = none →
        m = Shared.committed alone m₀ s := by
      intro m hnone
      exact absurd (hlock.symm.trans hnone) (Option.some_ne_none pid)
    cases haccess : body.access s.memory point with
    | mk memory next =>
      simp only [threadStep, haccess] at hstep
      cases next with
      | inl next =>
        cases hstep
        refine ⟨⟨hinv.results, hheld memory⟩, ⟨⟨hlock, ?_⟩, hcalls⟩, hother memory⟩
        exact (alone.finish_access _ _ _ _ haccess).trans hfinish
      | inr result =>
        cases hstep
        refine ⟨⟨hinv.results, hheld memory⟩, ⟨⟨hlock, ?_⟩, hcalls⟩, hother memory⟩
        exact (alone.finish_last _ _ _ _ haccess).symm.trans hfinish
  | leaving call result todo =>
    obtain ⟨hlock, hend⟩ := hplace
    cases hstep
    have hcall : alone.call (s.committed alone m₀) call = (s.memory, result) := hend.symm
    refine ⟨⟨?_, fun _ => ?_⟩, ⟨fun h => (nomatch h), ?_⟩, ?_⟩
    · rw [List.map_append, List.map_append, hinv.results, alone.results_append]
      refine congrArg (_ ++ ·) ?_
      show [result] = [(alone.call (s.committed alone m₀) call).2]
      rw [hcall]
    · show s.memory = alone.replay m₀ ((s.done ++ [(⟨pid, call, result⟩ : Done C R)]).map _)
      rw [List.map_append, alone.replay_append]
      show s.memory = (alone.call (s.committed alone m₀) call).1
      rw [hcall]
    · rw [← hcalls]
      simp [Shared.callsOf, Thread.rest]
    · intro other q hne hq
      refine hq.of_holder hlock hne (fun h => nomatch h) ?_
      exact callsOf_append_of_ne s.done _ (Ne.symm hne)

/-- Every reachable state is one of calls made one at a time. -/
theorem run_holds {labels : List (Label Unit Empty)}
    {t : System (Shared M C R) (Thread C P R)}
    (hrun : exec (lockStep body) (initial m₀ script) labels = some t) :
    Holds (SharedInv alone m₀) (ThreadOk alone m₀ script) t := by
  refine exec_holds_of_steps threadStep_kept (fun _ event _ _ => nomatch event) ?_ hrun
  refine ⟨⟨rfl, fun _ => rfl⟩, fun pid => ⟨fun h => (nomatch h), ?_⟩⟩
  simp [initial, Shared.callsOf, Thread.rest]

/-! ## What a run shows -/

/-- What a call returned is what it returns after the calls before it. -/
theorem SharedInv.result_eq {s : Shared M C R} (h : SharedInv alone m₀ s)
    {before after : List (Done C R)} {entry : Done C R}
    (hdone : s.done = before ++ entry :: after) :
    entry.result = (alone.call (alone.replay m₀ (before.map Done.call)) entry.call).2 := by
  have hresults := h.results
  rw [hdone, List.map_append, List.map_append, alone.results_append] at hresults
  have hlength : (before.map Done.result).length =
      (alone.results m₀ (before.map Done.call)).length := by
    rw [alone.length_results, List.length_map, List.length_map]
  have hrest := (List.append_inj hresults hlength).2
  exact (List.cons.inj hrest).1

end OpenDiamond.Lib.Mutex
