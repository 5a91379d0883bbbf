import Mathlib.Algebra.Ring.Nat
import Mathlib.Logic.Function.Basic
import OpenDiamond.Lib.OrderedDict
import OpenDiamond.Lib.Runs

/-!
# The supervisor and its search processes

The supervisor forks a process for each search and registers it in
`_children` under its pid. The handler of SIGCHLD, which can run between any
two steps of the supervisor and of itself, reaps processes that exited and
cleans up after those that are registered. `kill_all` cleans up after all
registered processes. Only the supervisor's side is modelled, and only with
`fork`; the kernel reuses a pid once its process was reaped.
-/

namespace OpenDiamond.ChildManager

open Lib.OrderedDict Lib.Runs

/-- A `_SearchChild`. -/
structure SearchChild where
  /-- `pid`, set by `start`. -/
  pid : Option ℕ
  /-- `_started`. -/
  started : Bool
  /-- `_terminated`: the temporary directory and the cgroup are gone. -/
  terminated : Bool
  /-- The calls of `cleanup` so far. -/
  cleanups : ℕ
  deriving DecidableEq

/-- `_SearchChild.__init__`. -/
def SearchChild.new : SearchChild := ⟨none, false, false, 0⟩

/-- `_SearchChild.cleanup`. -/
def SearchChild.cleanup (child : SearchChild) : SearchChild :=
  { child with terminated := true, cleanups := child.cleanups + 1 }

/-- The process of a child as the kernel has it. -/
inductive Process where
  | unborn
  | running
  /-- It exited and was not waited for. -/
  | zombie
  | reaped
  deriving DecidableEq

/-- What the main flow of the supervisor is doing. -/
inductive Main where
  | idle
  /-- `start` has made the child. -/
  | created (child : ℕ)
  /-- `start` has forked and not registered. -/
  | forked (child pid : ℕ)
  /-- `kill_all` with the pids left. -/
  | killing (pids : List ℕ)
  /-- `kill_all` has taken a child out of `_children`. -/
  | popped (child : ℕ) (pids : List ℕ)
  deriving DecidableEq

/-- What a run of the signal handler is doing. -/
inductive Handler where
  /-- About to call `waitpid`. -/
  | waiting
  /-- `waitpid` returned the pid of the child. -/
  | reaped (pid child : ℕ)
  /-- The child was taken out of `_children`. -/
  | popped (child : ℕ)
  deriving DecidableEq

/-- The supervisor and its processes. Children are known by the order in which
they were made. -/
structure State where
  /-- The `_SearchChild` objects. -/
  child : ℕ → SearchChild
  /-- How many were made. -/
  made : ℕ
  /-- Their processes. -/
  process : ℕ → Process
  /-- `_children`. -/
  children : Dict ℕ ℕ
  /-- The main flow. -/
  main : Main
  /-- Runs of the handler, the innermost first. -/
  handlers : List Handler

/-- The supervisor at its start. -/
def State.init : State :=
  ⟨fun _ => .new, 0, fun _ => .unborn, Dict.empty, .idle, []⟩

/-- The process exists: its pid is taken. -/
def Process.Taken : Process → Prop
  | .running => True
  | .zombie => True
  | _ => False

instance decidableTaken (p : Process) : Decidable p.Taken :=
  match p with
  | .unborn => .isFalse id
  | .running => .isTrue trivial
  | .zombie => .isTrue trivial
  | .reaped => .isFalse id

/-- What can happen. -/
inductive Event where
  /-- `start` makes the child. -/
  | create
  /-- `start` forks. -/
  | fork (pid : ℕ)
  /-- `start` registers the child. -/
  | register
  /-- `kill_all` lists the pids. -/
  | killAll
  /-- `kill_all` looks up the next pid, or ends. -/
  | killNext
  /-- `kill_all` cleans up. -/
  | killCleanup
  /-- A process exits. -/
  | exit (child : ℕ)
  /-- The handler is entered. -/
  | signal
  /-- `waitpid` returns a process that exited. -/
  | waitpid (child : ℕ)
  /-- `waitpid` finds none, and the handler returns. -/
  | noneExited
  /-- The handler looks up the pid. -/
  | handlerPop
  /-- The handler cleans up. -/
  | handlerCleanup

namespace State

/-- Change one child. -/
def update (s : State) (c : ℕ) (child : SearchChild) : State :=
  { s with child := Function.update s.child c child }

/-- No process has the pid. -/
def PidFree (s : State) (pid : ℕ) : Prop :=
  ∀ c < s.made, (s.process c).Taken → (s.child c).pid ≠ some pid

instance decidablePidFree (s : State) (pid : ℕ) : Decidable (s.PidFree pid) :=
  inferInstanceAs (Decidable (∀ c < s.made, (s.process c).Taken → (s.child c).pid ≠ some pid))

/-- A step of the main flow, which goes on only when no handler is running. -/
def mainStep (s : State) (event : Event) : Option State :=
  match event, s.main with
  | .create, .idle =>
    some { s.update s.made .new with made := s.made + 1, main := .created s.made }
  | .fork pid, .created c =>
    if s.PidFree pid then
      some { s.update c { s.child c with pid := some pid, started := true } with
        process := Function.update s.process c .running
        main := .forked c pid }
    else none
  | .register, .forked c pid => some { s with children := s.children.set pid c, main := .idle }
  | .killAll, .idle => some { s with main := .killing s.children.keys }
  | .killNext, .killing [] => some { s with main := .idle }
  | .killNext, .killing (pid :: rest) =>
    match s.children.get? pid with
    | some c => some { s with children := s.children.erase pid, main := .popped c rest }
    | none => some { s with main := .killing rest }
  | .killCleanup, .popped c rest =>
    some { s.update c (s.child c).cleanup with main := .killing rest }
  | _, _ => none

/-- A step of the innermost handler, with the runs it interrupted. -/
def handlerStep (s : State) (outer : List Handler) (event : Event) : Handler → Option State
  | .waiting =>
    match event with
    | .waitpid c =>
      match s.process c, (s.child c).pid with
      | .zombie, some pid =>
        some { s with
          process := Function.update s.process c .reaped
          handlers := .reaped pid c :: outer }
      | _, _ => none
    | .noneExited =>
      if ∀ c < s.made, s.process c ≠ .zombie then some { s with handlers := outer } else none
    | _ => none
  | .reaped pid _ =>
    match event with
    | .handlerPop =>
      match s.children.get? pid with
      | some c => some { s with children := s.children.erase pid, handlers := .popped c :: outer }
      | none => some { s with handlers := .waiting :: outer }
    | _ => none
  | .popped c =>
    match event with
    | .handlerCleanup =>
      some { s.update c (s.child c).cleanup with handlers := .waiting :: outer }
    | _ => none

/-- One step; none when the event is not possible. A process can exit and the
signal can arrive at any time. -/
def step (s : State) : Event → Option State
  | .exit c =>
    if s.process c = .running then
      some { s with process := Function.update s.process c .zombie }
    else none
  | .signal => some { s with handlers := .waiting :: s.handlers }
  | event =>
    match s.handlers with
    | [] => s.mainStep event
    | handler :: outer => s.handlerStep outer event handler

end State

/-- The main flow has no child in hand. -/
def Main.Free : Main → Prop
  | .idle => True
  | .killing _ => True
  | _ => False

/-- The steps, one by one. -/
inductive Move : State → Event → State → Prop
  | create {s : State} (hmain : s.main = .idle) (hnone : s.handlers = []) :
      Move s .create { s.update s.made .new with made := s.made + 1, main := .created s.made }
  | fork {s : State} {c pid : ℕ} (hmain : s.main = .created c) (hnone : s.handlers = [])
      (hfree : s.PidFree pid) :
      Move s (.fork pid) { s.update c { s.child c with pid := some pid, started := true } with
        process := Function.update s.process c .running
        main := .forked c pid }
  | register {s : State} {c pid : ℕ} (hmain : s.main = .forked c pid) (hnone : s.handlers = []) :
      Move s .register { s with children := s.children.set pid c, main := .idle }
  | kill {s : State} {event : Event} {main : Main} (hmain : s.main.Free) (hnone : s.handlers = [])
      (hmain' : main.Free) : Move s event { s with main }
  | killPop {s : State} {pid c : ℕ} {rest : List ℕ} (hmain : s.main = .killing (pid :: rest))
      (hnone : s.handlers = []) (hc : s.children.get? pid = some c) :
      Move s .killNext { s with children := s.children.erase pid, main := .popped c rest }
  | killCleanup {s : State} {c : ℕ} {rest : List ℕ} (hmain : s.main = .popped c rest)
      (hnone : s.handlers = []) :
      Move s .killCleanup { s.update c (s.child c).cleanup with main := .killing rest }
  | exit {s : State} {c : ℕ} (hrunning : s.process c = .running) :
      Move s (.exit c) { s with process := Function.update s.process c .zombie }
  | signal {s : State} : Move s .signal { s with handlers := .waiting :: s.handlers }
  | waitpid {s : State} {c pid : ℕ} {outer : List Handler} (htop : s.handlers = .waiting :: outer)
      (hzombie : s.process c = .zombie) (hpid : (s.child c).pid = some pid) :
      Move s (.waitpid c) { s with
        process := Function.update s.process c .reaped
        handlers := .reaped pid c :: outer }
  | noneExited {s : State} {outer : List Handler} (htop : s.handlers = .waiting :: outer) :
      Move s .noneExited { s with handlers := outer }
  | handlerPop {s : State} {pid d c : ℕ} {outer : List Handler}
      (htop : s.handlers = .reaped pid d :: outer) (hc : s.children.get? pid = some c) :
      Move s .handlerPop
        { s with children := s.children.erase pid, handlers := .popped c :: outer }
  | handlerSkip {s : State} {pid d : ℕ} {outer : List Handler}
      (htop : s.handlers = .reaped pid d :: outer) (hc : s.children.get? pid = none) :
      Move s .handlerPop { s with handlers := .waiting :: outer }
  | handlerCleanup {s : State} {c : ℕ} {outer : List Handler}
      (htop : s.handlers = .popped c :: outer) :
      Move s .handlerCleanup
        { s.update c (s.child c).cleanup with handlers := .waiting :: outer }

/-- Outside the handler a step is one of the moves of the main program. -/
theorem move_of_mainStep {s t : State} {event : Event} (hnone : s.handlers = [])
    (h : s.mainStep event = some t) : Move s event t := by
  unfold State.mainStep at h
  split at h
  · cases h
    exact .create ‹_› hnone
  · split at h
    · cases h
      exact .fork ‹_› hnone ‹_›
    · cases h
  · cases h
    exact .register ‹_› hnone
  · cases h
    exact .kill (by rw [‹s.main = _›]; trivial) hnone trivial
  · cases h
    exact .kill (by rw [‹s.main = _›]; trivial) hnone trivial
  · split at h
    · cases h
      exact .killPop ‹_› hnone ‹_›
    · cases h
      exact .kill (by rw [‹s.main = _›]; trivial) hnone trivial
  · cases h
    exact .killCleanup ‹_› hnone
  · cases h

/-- Inside the handler a step is one of the moves of its innermost run. -/
theorem move_of_handlerStep {s t : State} {event : Event} {handler : Handler}
    {outer : List Handler} (htop : s.handlers = handler :: outer)
    (h : s.handlerStep outer event handler = some t) : Move s event t := by
  cases handler with
  | waiting =>
    cases event with simp only [State.handlerStep, reduceCtorEq] at h
    | waitpid c =>
      split at h
      · cases h
        exact .waitpid htop ‹_› ‹_›
      · cases h
    | noneExited =>
      split at h
      · cases h
        exact .noneExited htop
      · cases h
  | reaped pid d =>
    cases event with simp only [State.handlerStep, reduceCtorEq] at h
    | handlerPop =>
      split at h
      · cases h
        exact .handlerPop htop ‹_›
      · cases h
        exact .handlerSkip htop ‹_›
  | popped c =>
    cases event with simp only [State.handlerStep, reduceCtorEq] at h
    | handlerCleanup =>
      cases h
      exact .handlerCleanup htop

/-- Every step is one of the moves; this is the only place that goes through all of them. -/
theorem move_of_step {s t : State} {event : Event} (h : s.step event = some t) :
    Move s event t := by
  unfold State.step at h
  split at h
  · split at h
    · cases h
      exact .exit ‹_›
    · cases h
  · cases h
    exact .signal
  · split at h
    · exact move_of_mainStep ‹_› h
    · exact move_of_handlerStep ‹_› h

/-! ## Where a child is -/

/-- The main flow has the child in hand. -/
def Main.holds (c : ℕ) : Main → ℕ
  | .forked d _ => if d = c then 1 else 0
  | .popped d _ => if d = c then 1 else 0
  | _ => 0

/-- Between its calls the main program holds no child. -/
theorem Main.holds_of_free {main : Main} (h : main.Free) (c : ℕ) : main.holds c = 0 := by
  cases main <;> first | rfl | cases h

/-- The handler has taken the child out of `_children`. -/
def Handler.holds (c : ℕ) : Handler → ℕ
  | .popped d => if d = c then 1 else 0
  | _ => 0

namespace State

/-- The places where the child is: in the hands of the main flow or of a
handler, in `_children`, or cleaned up. -/
def places (s : State) (c : ℕ) : ℕ :=
  s.main.holds c + (s.handlers.map (Handler.holds c)).sum + s.children.values.count c +
    (s.child c).cleanups

/-- The pid of the child is its own: the process is there, or a handler that
reaped it has not looked it up. -/
def Held (s : State) (c : ℕ) : Prop :=
  (s.process c).Taken ∨ ∃ pid, .reaped pid c ∈ s.handlers

/-- What holds when no child is reaped before it is registered. -/
structure Consistent (s : State) : Prop where
  /-- A child with a process is in one place. -/
  placed : ∀ c, s.places c = if s.process c = .unborn then 0 else 1
  /-- Processes belong to children that were made. -/
  made : ∀ c, s.made ≤ c → s.process c = .unborn
  /-- A child that was made and not forked. -/
  created : ∀ c, s.main = .created c → c < s.made ∧ s.process c = .unborn
  /-- A child that was forked and not registered. -/
  forked : ∀ c pid, s.main = .forked c pid → (s.process c).Taken ∧ (s.child c).pid = some pid
  /-- A pid the handler got from `waitpid`. -/
  frames : ∀ pid c, .reaped pid c ∈ s.handlers →
    s.process c = .reaped ∧ (s.child c).pid = some pid
  /-- A registered child. -/
  table : ∀ pid c, s.children.get? pid = some c → s.Held c ∧ (s.child c).pid = some pid
  /-- A pid belongs to one child. -/
  distinct : ∀ c d pid, s.Held c → s.Held d → (s.child c).pid = some pid →
    (s.child d).pid = some pid → c = d

/-- At the start there is no child to account for. -/
theorem consistent_init : Consistent init where
  placed c := rfl
  made c _ := rfl
  created c h := by cases h
  forked c pid h := by cases h
  frames pid c h := by cases h
  table pid c h := by cases h
  distinct c d pid h := by
    rcases h with h | ⟨_, h⟩ <;> cases h

end State

/-- The handler does not reap a child that `start` has forked and not
registered. -/
def RegisteredFirst (s : State) (event : Event) : Prop :=
  ∀ c pid, event = .waitpid c → s.main ≠ .forked c pid

namespace State

variable {s : State}

/-- Outside the handler a child that is held is held by the main program. -/
theorem held_of_handlers_nil (hnone : s.handlers = []) {c : ℕ} (h : s.Held c) :
    (s.process c).Taken := by
  refine h.resolve_right ?_
  rintro ⟨pid, hmem⟩
  rw [hnone] at hmem
  cases hmem

/-- A child in hand is in no other place. -/
theorem Consistent.not_registered (h : s.Consistent) {c : ℕ} (hborn : s.process c ≠ .unborn)
    (hmain : s.main.holds c = 1) (pid : ℕ) : s.children.get? pid ≠ some c := by
  intro hget
  have hplaces := h.placed c
  have hmem : c ∈ s.children.values :=
    List.mem_map.mpr ⟨(pid, c), (s.children.get?_eq_some_iff pid c).mp hget, rfl⟩
  have hcount := List.count_pos_iff.mpr hmem
  rw [if_neg hborn, places] at hplaces
  omega

/-- The pid of a child that is being registered is new to `_children`. -/
theorem Consistent.get?_forked (h : s.Consistent) {c pid : ℕ} (hmain : s.main = .forked c pid) :
    s.children.get? pid = none := by
  obtain ⟨htaken, hpid⟩ := h.forked c pid hmain
  cases hget : s.children.get? pid with
  | none => rfl
  | some d =>
    obtain ⟨hheld, hpid'⟩ := h.table pid d hget
    have hsame : c = d := h.distinct c d pid (Or.inl htaken) hheld hpid hpid'
    have hborn : s.process c ≠ .unborn := by
      intro hunborn
      rw [hunborn] at htaken
      exact htaken
    refine absurd (hsame ▸ hget) (h.not_registered hborn ?_ pid)
    rw [hmain, Main.holds, if_pos rfl]

/-! ## Steps of the main flow -/

attribute [local grind] Process.Taken

/-- A new child is in the hands of `start`, and nowhere else. -/
theorem Consistent.create (h : s.Consistent) (hmain : s.main = .idle) (hnone : s.handlers = []) :
    Consistent { s.update s.made .new with made := s.made + 1, main := .created s.made } := by
  have hnew : s.process s.made = .unborn := h.made s.made (Nat.le_refl _)
  have hchild : ∀ c, s.Held c → Function.update s.child s.made .new c = s.child c := by
    intro c hc
    refine Function.update_of_ne ?_ _ _
    rintro rfl
    have htaken := held_of_handlers_nil hnone hc
    rw [hnew] at htaken
    exact htaken
  constructor
  case placed =>
    intro c
    have hplaced := h.placed c
    simp only [places, update, hmain, hnone, Main.holds] at hplaced ⊢
    by_cases hc : c = s.made
    · subst hc
      rw [hnew] at hplaced ⊢
      simp only [Function.update_self, SearchChild.new]
      grind
    · rw [Function.update_of_ne hc]
      exact hplaced
  case made => exact fun c hc => h.made c (Nat.le_of_succ_le hc)
  case created =>
    intro c hc
    cases hc
    exact ⟨Nat.lt_succ_self _, hnew⟩
  case forked =>
    intro c pid hc
    cases hc
  case frames =>
    intro pid c hmem
    simp only [update, hnone] at hmem
    cases hmem
  case table =>
    intro pid c hget
    obtain ⟨hheld, hpid⟩ := h.table pid c hget
    exact ⟨hheld, (congrArg SearchChild.pid (hchild c hheld)).trans hpid⟩
  case distinct =>
    intro c d pid hc hd hpid hpid'
    exact h.distinct c d pid hc hd ((congrArg SearchChild.pid (hchild c hc)).symm.trans hpid)
      ((congrArg SearchChild.pid (hchild d hd)).symm.trans hpid')

/-- The pid of the new process is free, so it stays the pid of one child. -/
theorem Consistent.fork (h : s.Consistent) {c pid : ℕ} (hmain : s.main = .created c)
    (hnone : s.handlers = []) (hfree : s.PidFree pid) :
    Consistent { s.update c { s.child c with pid := some pid, started := true } with
      process := Function.update s.process c .running
      main := .forked c pid } := by
  obtain ⟨hmade, hunborn⟩ := h.created c hmain
  have hplaced := h.placed
  have hborn := h.made
  have htable := h.table
  have hdistinct := h.distinct
  have hold : ∀ d, (s.process d).Taken → (s.child d).pid ≠ some pid := by
    intro d htaken
    refine hfree d ?_ htaken
    by_contra hge
    rw [h.made d (Nat.le_of_not_lt hge)] at htaken
    exact htaken
  constructor <;> simp only [places, Held, update, hnone] at *
  case placed =>
    intro d
    have hd := hplaced d
    simp only [hmain, Main.holds] at hd ⊢
    grind [Function.update_apply]
  all_goals grind [Function.update_apply]

/-- A child that is registered goes from the hands of `start` into the table. -/
theorem Consistent.register (h : s.Consistent) {c pid : ℕ} (hmain : s.main = .forked c pid) :
    Consistent { s with children := s.children.set pid c, main := .idle } := by
  have hfresh := h.get?_forked hmain
  obtain ⟨htaken, hpid⟩ := h.forked c pid hmain
  constructor
  case placed =>
    intro d
    have hplaced := h.placed d
    simp only [places, hmain, Main.holds, Dict.count_values_set _ hfresh] at hplaced ⊢
    grind
  case made => exact h.made
  case created =>
    intro d hd
    cases hd
  case forked =>
    intro d p hd
    cases hd
  case frames => exact h.frames
  case table =>
    intro p d hget
    simp only [Dict.get?_set] at hget
    split at hget
    · cases hget
      subst p
      exact ⟨Or.inl htaken, hpid⟩
    · exact h.table p d hget
  case distinct => exact h.distinct

/-- `kill_all` without a child in hand. -/
theorem Consistent.kill (h : s.Consistent) {main : Main} (hmain : s.main.Free)
    (hmain' : main.Free) : Consistent { s with main } := by
  constructor
  case placed =>
    intro d
    have hplaced := h.placed d
    simp only [places, Main.holds_of_free hmain, Main.holds_of_free hmain'] at hplaced ⊢
    exact hplaced
  case made => exact h.made
  case created =>
    rintro d rfl
    cases hmain'
  case forked =>
    rintro d p rfl
    cases hmain'
  case frames => exact h.frames
  case table => exact h.table
  case distinct => exact h.distinct

/-- A child that is killed goes from the table into the hands of the main program. -/
theorem Consistent.killPop (h : s.Consistent) {pid c : ℕ} {rest : List ℕ}
    (hmain : s.main = .killing (pid :: rest)) (hc : s.children.get? pid = some c) :
    Consistent { s with children := s.children.erase pid, main := .popped c rest } := by
  constructor
  case placed =>
    intro d
    have hplaced := h.placed d
    simp only [places, hmain, Main.holds, Dict.count_values_erase _ hc] at hplaced ⊢
    grind
  case made => exact h.made
  case created =>
    intro d hd
    cases hd
  case forked =>
    intro d p hd
    cases hd
  case frames => exact h.frames
  case table =>
    intro p d hget
    simp only [Dict.get?_erase] at hget
    split at hget
    · cases hget
    · exact h.table p d hget
  case distinct => exact h.distinct

/-- A child in hand is cleaned up. -/
theorem Consistent.killCleanup (h : s.Consistent) {c : ℕ} {rest : List ℕ}
    (hmain : s.main = .popped c rest) :
    Consistent { s.update c (s.child c).cleanup with main := .killing rest } := by
  have hplaced := h.placed
  have hframes := h.frames
  have htable := h.table
  have hdistinct := h.distinct
  constructor <;> simp only [places, Held, update, hmain, Main.holds] at *
  case placed =>
    intro d
    have hd := hplaced d
    grind [Function.update_apply, SearchChild.cleanup]
  case made => exact h.made
  all_goals grind [Function.update_apply, SearchChild.cleanup]

/-! ## Steps of the kernel and of the handler -/

/-- A child that exits waits to be reaped, wherever it is held. -/
theorem Consistent.exit (h : s.Consistent) {c : ℕ} (hrunning : s.process c = .running) :
    Consistent { s with process := Function.update s.process c .zombie } := by
  have hplaced := h.placed
  have hmade := h.made
  have hcreated := h.created
  have hforked := h.forked
  have hframes := h.frames
  have htable := h.table
  have hdistinct := h.distinct
  constructor <;> simp only [places, Held] at *
  all_goals grind [Function.update_apply]

/-- The handler holds the same children as before, and no pid of a registered child is lost. -/
theorem Consistent.setHandlers (h : s.Consistent) {handlers : List Handler}
    (hsum : ∀ c, (handlers.map (Handler.holds c)).sum = (s.handlers.map (Handler.holds c)).sum)
    (hreaped : ∀ pid c, .reaped pid c ∈ handlers → .reaped pid c ∈ s.handlers)
    (htable : ∀ pid c, s.children.get? pid = some c → Held { s with handlers } c) :
    Consistent { s with handlers } := by
  have hheld : ∀ c, Held { s with handlers } c → s.Held c :=
    fun c => Or.imp_right (Exists.imp fun pid => hreaped pid c)
  constructor
  case placed =>
    intro c
    have hplaced := h.placed c
    simp only [places, hsum] at hplaced ⊢
    exact hplaced
  case made => exact h.made
  case created => exact h.created
  case forked => exact h.forked
  case frames => exact fun pid c hmem => h.frames pid c (hreaped pid c hmem)
  case table => exact fun pid c hget => ⟨htable pid c hget, (h.table pid c hget).2⟩
  case distinct => exact fun c d pid hc hd => h.distinct c d pid (hheld c hc) (hheld d hd)

/-- A signal begins a run of the handler on top of whatever runs. -/
theorem Consistent.signal (h : s.Consistent) :
    Consistent { s with handlers := .waiting :: s.handlers } := by
  refine h.setHandlers (fun c => ?_) (fun pid c hmem => ?_) fun pid c hget => ?_
  · rw [List.map_cons, List.sum_cons]
    exact Nat.zero_add _
  · exact (List.mem_cons.mp hmem).resolve_left (by simp)
  · exact (h.table pid c hget).1.imp_right (Exists.imp fun _ => List.mem_cons_of_mem _)

/-- A process that was reaped is held by the handler, until it looks up the
pid. -/
theorem held_of_waitpid {c pid d : ℕ} {outer : List Handler}
    (htop : s.handlers = .waiting :: outer) (hzombie : s.process c = .zombie)
    (h : Held { s with
      process := Function.update s.process c .reaped
      handlers := .reaped pid c :: outer } d) : s.Held d := by
  simp only [Held, htop, List.mem_cons] at h ⊢
  rcases eq_or_ne d c with rfl | hne
  · rw [hzombie]
    exact Or.inl trivial
  · grind [Function.update_apply]

/-- Reaping a child leaves it where it is held; it was registered, as no child that is still to be
registered is reaped. -/
theorem Consistent.waitpid (h : s.Consistent) {c pid : ℕ} {outer : List Handler}
    (htop : s.handlers = .waiting :: outer) (hzombie : s.process c = .zombie)
    (hpid : (s.child c).pid = some pid) (hregistered : ∀ pid, s.main ≠ .forked c pid) :
    Consistent { s with
      process := Function.update s.process c .reaped
      handlers := .reaped pid c :: outer } := by
  have hplaced := h.placed
  have hmade := h.made
  have hcreated := h.created
  have hforked := h.forked
  have hframes := h.frames
  have htable := h.table
  constructor
  case distinct =>
    intro a b p ha hb
    exact h.distinct a b p (held_of_waitpid htop hzombie ha) (held_of_waitpid htop hzombie hb)
  case frames =>
    intro p d hmem
    simp only [htop, List.mem_cons] at hmem hframes
    rcases eq_or_ne d c with rfl | hne <;> grind [Function.update_apply]
  all_goals
    simp only [places, Held, htop, List.map_cons, List.sum_cons, Handler.holds,
      List.mem_cons] at *
    grind [Function.update_apply]

/-- The handler ends, or goes on, with no child in hand. -/
theorem Consistent.noneExited (h : s.Consistent) {outer : List Handler}
    (htop : s.handlers = .waiting :: outer) : Consistent { s with handlers := outer } := by
  refine h.setHandlers (fun c => ?_) (fun pid c hmem => ?_) fun pid c hget => ?_
  · rw [htop, List.map_cons, List.sum_cons]
    exact (Nat.zero_add _).symm
  · rw [htop]
    exact List.mem_cons_of_mem _ hmem
  · refine (h.table pid c hget).1.imp_right (Exists.imp fun _ hmem => ?_)
    rw [htop] at hmem
    exact (List.mem_cons.mp hmem).resolve_left (by simp)

/-- A child that was reaped goes from the table into the hands of the handler. -/
theorem Consistent.handlerPop (h : s.Consistent) {pid d c : ℕ} {outer : List Handler}
    (htop : s.handlers = .reaped pid d :: outer) (hc : s.children.get? pid = some c) :
    Consistent { s with children := s.children.erase pid, handlers := .popped c :: outer } := by
  have hplaced := h.placed
  have hframes := h.frames
  have htable := h.table
  have hdistinct := h.distinct
  constructor <;>
    simp only [places, Held, htop, List.map_cons, List.sum_cons, Handler.holds,
      List.mem_cons] at *
  case placed =>
    intro e
    have he := hplaced e
    simp only [Dict.count_values_erase _ hc] at he ⊢
    grind
  case made => exact h.made
  case created => exact h.created
  case forked => exact h.forked
  all_goals grind [Dict.get?_erase]

/-- The pid is not in `_children`. -/
theorem Consistent.handlerSkip (h : s.Consistent) {pid d : ℕ} {outer : List Handler}
    (htop : s.handlers = .reaped pid d :: outer) (hc : s.children.get? pid = none) :
    Consistent { s with handlers := .waiting :: outer } := by
  refine h.setHandlers (fun c => ?_) (fun p c hmem => ?_) fun p c hget => ?_
  · rw [htop, List.map_cons, List.map_cons, List.sum_cons, List.sum_cons]
    rfl
  · rw [htop]
    exact List.mem_cons_of_mem _ ((List.mem_cons.mp hmem).resolve_left (by simp))
  · obtain ⟨hheld, hpid⟩ := h.table p c hget
    rcases hheld with htaken | ⟨q, hmem⟩
    · exact Or.inl htaken
    · -- the frame that goes is not that of a registered child
      rw [htop] at hmem
      rcases List.mem_cons.mp hmem with heq | hmem
      · obtain ⟨-, rfl⟩ := Handler.reaped.inj heq
        have hown := (h.frames pid c (htop ▸ List.mem_cons_self)).2
        rw [hown, Option.some.injEq] at hpid
        rw [← hpid, hc] at hget
        cases hget
      · exact Or.inr ⟨q, List.mem_cons_of_mem _ hmem⟩

/-- The handler cleans its child up once and lets go of it. -/
theorem Consistent.handlerCleanup (h : s.Consistent) {c : ℕ} {outer : List Handler}
    (htop : s.handlers = .popped c :: outer) :
    Consistent { s.update c (s.child c).cleanup with handlers := .waiting :: outer } := by
  have hplaced := h.placed
  have hforked := h.forked
  have hframes := h.frames
  have htable := h.table
  have hdistinct := h.distinct
  constructor <;>
    simp only [places, Held, update, htop, List.map_cons, List.sum_cons, Handler.holds,
      List.mem_cons] at *
  case placed =>
    intro d
    have hd := hplaced d
    grind [Function.update_apply, SearchChild.cleanup]
  case made => exact h.made
  case created => exact h.created
  all_goals grind [Function.update_apply, SearchChild.cleanup]

/-- Every move keeps the account of who holds which child, if no child is reaped between its fork
and its registration. -/
theorem Consistent.move (h : s.Consistent) {t : State} {event : Event} (hmove : Move s event t)
    (hguard : RegisteredFirst s event) : t.Consistent := by
  cases hmove with
  | create hmain hnone => exact h.create hmain hnone
  | fork hmain hnone hfree => exact h.fork hmain hnone hfree
  | register hmain _ => exact h.register hmain
  | kill hmain _ hmain' => exact h.kill hmain hmain'
  | killPop hmain _ hc => exact h.killPop hmain hc
  | killCleanup hmain _ => exact h.killCleanup hmain
  | exit hrunning => exact h.exit hrunning
  | signal => exact h.signal
  | waitpid htop hzombie hpid =>
    exact h.waitpid htop hzombie hpid fun pid => hguard _ pid rfl
  | noneExited htop => exact h.noneExited htop
  | handlerPop htop hc => exact h.handlerPop htop hc
  | handlerSkip htop hc => exact h.handlerSkip htop hc
  | handlerCleanup htop => exact h.handlerCleanup htop

/-! ## Cleaning up -/

/-- Between the calls of `start` and outside the handler, children that were
reaped have been cleaned up once, and those registered were not reaped. -/
def Clean (s : State) : Prop :=
  s.main.Free → s.handlers = [] →
    (∀ c, s.process c = .reaped → (s.child c).cleanups = 1) ∧
      ∀ pid c, s.children.get? pid = some c →
        s.process c ≠ .reaped ∧ (s.child c).pid = some pid

/-- Where nothing runs, no child is held by hand, so that each of those reaped was cleaned up. -/
theorem Consistent.clean (h : s.Consistent) : s.Clean := by
  intro hmain hnone
  have htable : ∀ pid c, s.children.get? pid = some c → s.process c ≠ .reaped := by
    intro pid c hget hreaped
    have htaken := held_of_handlers_nil hnone (h.table pid c hget).1
    rw [hreaped] at htaken
    exact htaken
  refine ⟨fun c hreaped => ?_, fun pid c hget => ⟨htable pid c hget, (h.table pid c hget).2⟩⟩
  have hplaced := h.placed c
  have habsent : s.children.values.count c = 0 := by
    refine List.count_eq_zero.mpr fun hmem => ?_
    obtain ⟨⟨pid, d⟩, hpair, rfl⟩ := List.mem_map.mp hmem
    exact htable pid d ((s.children.get?_eq_some_iff pid d).mpr hpair) hreaped
  simp only [places, Main.holds_of_free hmain, hnone, habsent, hreaped] at hplaced
  simpa using hplaced

end State

/-- Children are cleaned up once in every run in which the handler reaps none
between its fork and its registration. -/
theorem reaped_cleaned_once {events : List Event} {s : State}
    (hguard : Guarded State.step RegisteredFirst State.init events)
    (hrun : exec State.step State.init events = some s) : s.Clean := by
  have hstep : ∀ s event t, State.Consistent s → RegisteredFirst s event →
      s.step event = some t → t.Consistent :=
    fun s event t hs hfirst ht => hs.move (move_of_step ht) hfirst
  exact (exec_invariant_of_guarded hstep State.consistent_init hguard hrun).clean

/-- A child that exits after it was registered. -/
def lateExit : List Event :=
  [.create, .fork 7, .register, .exit 0, .signal, .waitpid 0, .handlerPop, .handlerCleanup,
    .noneExited]

/-- In this run the child is reaped only after it was registered. -/
theorem lateExit_guarded : Guarded State.step RegisteredFirst State.init lateExit := by
  have hother : ∀ {s : State} {event : Event}, (∀ c, event ≠ .waitpid c) →
      RegisteredFirst s event := fun h c _ hc => absurd hc (h c)
  refine guarded_cons (hother (by simp)) rfl (guarded_cons (hother (by simp)) rfl
    (guarded_cons (hother (by simp)) rfl (guarded_cons (hother (by simp)) rfl
      (guarded_cons (hother (by simp)) rfl (guarded_cons ?_ rfl
        (guarded_cons (hother (by simp)) rfl (guarded_cons (hother (by simp)) rfl
          (guarded_cons (hother (by simp)) rfl trivial))))))))
  intro c pid _ hmain
  cases hmain

/-- The child of this run exits after it was registered; the handler reaps it and cleans it up, and
nothing of it is left in the table. -/
theorem reaped_cleaned_once_lateExit :
    ∃ s, exec State.step State.init lateExit = some s ∧ s.process 0 = .reaped ∧ s.Clean :=
  ⟨_, rfl, rfl, reaped_cleaned_once lateExit_guarded rfl⟩

/-- A child that exits before it is registered. -/
def earlyExit : List Event :=
  [.create, .fork 7, .exit 0, .signal, .waitpid 0, .handlerPop, .noneExited, .register]

/-- A child that is reaped between its fork and its registration stays in `_children` for good, and
is not cleaned up. -/
theorem earlyExit_leaks : ∃ s, exec State.step State.init earlyExit = some s ∧
    s.process 0 = .reaped ∧ (s.child 0).cleanups = 0 ∧ s.children.get? 7 = some 0 ∧ ¬ s.Clean := by
  refine ⟨_, rfl, rfl, rfl, rfl, fun hclean => ?_⟩
  have honce := (hclean trivial rfl).1 0 rfl
  exact absurd honce (by decide)

end OpenDiamond.ChildManager
