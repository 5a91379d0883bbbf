import Mathlib.Logic.Function.Basic
import OpenDiamond.Lib.Runs

/-!
# Processes over a shared state

Any number of processes, each with a local state, take atomic steps on a
shared state, in any order and mixed with steps of the environment. An
invariant of the shared state and a property of each local state are kept by
every run when each step keeps the invariant, establishes the property of the
process that moves and does not disturb the property of any other process.
-/

namespace OpenDiamond.Lib.Processes

open Runs

/-- The shared state and the local state of every process. -/
structure System (S L : Type*) where
  /-- What all processes see. -/
  shared : S
  /-- The local states, by process number. -/
  procs : ℕ → L

/-- Which component moves, and how it resolves its choices. -/
inductive Label (A B : Type*) where
  | proc (pid : ℕ) (choice : A)
  | env (event : B)

variable {S L A B : Type*}

/-- One step of a process or of the environment. -/
def step (call : S → ℕ → L → A → Option (S × L)) (env : S → B → Option S) (s : System S L) :
    Label A B → Option (System S L)
  | .proc pid choice => (call s.shared pid (s.procs pid) choice).map fun next =>
      ⟨next.1, Function.update s.procs pid next.2⟩
  | .env event => (env s.shared event).map fun shared => ⟨shared, s.procs⟩

/-- A condition on the steps, by the state before each. -/
def stepGuard (callGuard : S → ℕ → L → A → Prop) (envGuard : S → B → Prop) (s : System S L) :
    Label A B → Prop
  | .proc pid choice => callGuard s.shared pid (s.procs pid) choice
  | .env event => envGuard s.shared event

variable {call : S → ℕ → L → A → Option (S × L)} {env : S → B → Option S}
  {callGuard : S → ℕ → L → A → Prop} {envGuard : S → B → Prop}

theorem step_proc_eq_some {s t : System S L} {pid : ℕ} {choice : A} :
    step call env s (.proc pid choice) = some t ↔
      ∃ shared p, call s.shared pid (s.procs pid) choice = some (shared, p) ∧
        t = ⟨shared, Function.update s.procs pid p⟩ := by
  rw [step, Option.map_eq_some_iff]
  constructor
  · rintro ⟨⟨shared, p⟩, hp, rfl⟩
    exact ⟨shared, p, hp, rfl⟩
  · rintro ⟨shared, p, hp, rfl⟩
    exact ⟨(shared, p), hp, rfl⟩

theorem step_env_eq_some {s t : System S L} {event : B} :
    step call env s (.env event) = some t ↔
      ∃ shared, env s.shared event = some shared ∧ t = ⟨shared, s.procs⟩ := by
  rw [step, Option.map_eq_some_iff]
  constructor
  · rintro ⟨shared, h, rfl⟩
    exact ⟨shared, h, rfl⟩
  · rintro ⟨shared, h, rfl⟩
    exact ⟨shared, h, rfl⟩

/-- The invariant of the shared state, and the property of every process. -/
def Holds (Inv : S → Prop) (Ok : S → ℕ → L → Prop) (s : System S L) : Prop :=
  Inv s.shared ∧ ∀ pid, Ok s.shared pid (s.procs pid)

/-- Steps that keep the invariant and do not interfere keep everything. -/
theorem step_holds {Inv : S → Prop} {Ok : S → ℕ → L → Prop}
    (hcall : ∀ s pid p choice s' p', Inv s → Ok s pid p → callGuard s pid p choice →
      call s pid p choice = some (s', p') →
        Inv s' ∧ Ok s' pid p' ∧ ∀ other q, other ≠ pid → Ok s other q → Ok s' other q)
    (henv : ∀ s event s', Inv s → envGuard s event → env s event = some s' →
      Inv s' ∧ ∀ pid p, Ok s pid p → Ok s' pid p)
    {s t : System S L} {label : Label A B} (hs : Holds Inv Ok s)
    (hg : stepGuard callGuard envGuard s label) (h : step call env s label = some t) :
    Holds Inv Ok t := by
  cases label with
  | proc pid choice =>
    obtain ⟨shared, p, hp, rfl⟩ := step_proc_eq_some.mp h
    obtain ⟨hinv, hown, hothers⟩ := hcall _ pid _ choice shared p hs.1 (hs.2 pid) hg hp
    refine ⟨hinv, fun other => ?_⟩
    show Ok shared other (Function.update s.procs pid p other)
    by_cases ho : other = pid
    · subst ho
      rw [Function.update_self]
      exact hown
    · rw [Function.update_of_ne ho]
      exact hothers other _ ho (hs.2 other)
  | env event =>
    obtain ⟨shared, hshared, rfl⟩ := step_env_eq_some.mp h
    obtain ⟨hinv, hall⟩ := henv _ event shared hs.1 hg hshared
    exact ⟨hinv, fun pid => hall pid _ (hs.2 pid)⟩

/-- The same for whole runs. -/
theorem exec_holds {Inv : S → Prop} {Ok : S → ℕ → L → Prop}
    (hcall : ∀ s pid p choice s' p', Inv s → Ok s pid p → callGuard s pid p choice →
      call s pid p choice = some (s', p') →
        Inv s' ∧ Ok s' pid p' ∧ ∀ other q, other ≠ pid → Ok s other q → Ok s' other q)
    (henv : ∀ s event s', Inv s → envGuard s event → env s event = some s' →
      Inv s' ∧ ∀ pid p, Ok s pid p → Ok s' pid p)
    {s t : System S L} {labels : List (Label A B)} (hs : Holds Inv Ok s)
    (hg : Guarded (step call env) (stepGuard callGuard envGuard) s labels)
    (hr : exec (step call env) s labels = some t) : Holds Inv Ok t :=
  exec_invariant_of_guarded (fun _ _ _ hs hg h => step_holds hcall henv hs hg h) hs hg hr

/-- The same for whole runs without a condition on the steps. -/
theorem exec_holds_of_steps {Inv : S → Prop} {Ok : S → ℕ → L → Prop}
    (hcall : ∀ s pid p choice s' p', Inv s → Ok s pid p → call s pid p choice = some (s', p') →
      Inv s' ∧ Ok s' pid p' ∧ ∀ other q, other ≠ pid → Ok s other q → Ok s' other q)
    (henv : ∀ s event s', Inv s → env s event = some s' →
      Inv s' ∧ ∀ pid p, Ok s pid p → Ok s' pid p)
    {s t : System S L} {labels : List (Label A B)} (hs : Holds Inv Ok s)
    (hr : exec (step call env) s labels = some t) : Holds Inv Ok t := by
  refine exec_invariant (fun s label t hs h => ?_) hs hr
  have hguard : stepGuard (fun _ _ _ _ => True) (fun _ _ => True) s label := by
    cases label <;> trivial
  exact step_holds (fun s pid p choice s' p' hs hp _ h => hcall s pid p choice s' p' hs hp h)
    (fun s event s' hs _ h => henv s event s' hs h) hs hguard h

/-- A step of the given process. -/
def Label.isOf (pid : ℕ) : Label A B → Bool
  | .proc other _ => other == pid
  | .env _ => false

/-- A property of one local state that counts the steps of its process: the
other components do not change the local state. -/
theorem exec_local {pid : ℕ} {R : ℕ → L → Prop}
    (hcall : ∀ n s p choice s' p', R n p → call s pid p choice = some (s', p') → R (n + 1) p')
    {s t : System S L} {labels : List (Label A B)} {n : ℕ} (hs : R n (s.procs pid))
    (hr : exec (step call env) s labels = some t) :
    R (n + labels.countP (Label.isOf pid)) (t.procs pid) := by
  induction labels generalizing s n with
  | nil =>
    cases hr
    exact hs
  | cons label rest ih =>
    obtain ⟨u, hu, hrest⟩ := exec_cons_eq_some.mp hr
    rw [List.countP_cons]
    cases label with
    | env event =>
      obtain ⟨shared, _, rfl⟩ := step_env_eq_some.mp hu
      exact ih (s := ⟨shared, s.procs⟩) hs hrest
    | proc other choice =>
      obtain ⟨shared, p, hp, rfl⟩ := step_proc_eq_some.mp hu
      by_cases ho : other = pid
      · subst ho
        have hnext := hcall n _ _ choice shared p hs hp
        have htail := ih (n := n + 1) (by simpa using hnext) hrest
        have hsum : n + (rest.countP (Label.isOf other) + 1) =
            n + 1 + rest.countP (Label.isOf other) := by omega
        simpa [Label.isOf, hsum] using htail
      · have hsame : R n (Function.update s.procs other p pid) := by
          rw [Function.update_of_ne (Ne.symm ho)]
          exact hs
        have htail := ih hsame hrest
        simpa [Label.isOf, ho] using htail

/-- A step of a process. -/
def Label.isProc : Label A B → Bool
  | .proc _ _ => true
  | .env _ => false

/-- A run has no more steps of processes than there is to spend at its start and was earned on the
way, when every such step lowers what there is to spend. -/
theorem exec_countP_le {I : System S L → Prop} {spend earn : System S L → ℕ}
    (hinv : ∀ s label t, I s → step call env s label = some t → I t)
    (hstep : ∀ s label t, I s → step call env s label = some t →
      (if label.isProc then 1 else 0) + spend t + earn s ≤ spend s + earn t)
    {s t : System S L} {labels : List (Label A B)} (hs : I s)
    (hr : exec (step call env) s labels = some t) :
    labels.countP Label.isProc + spend t + earn s ≤ spend s + earn t := by
  induction labels generalizing s with
  | nil =>
    cases hr
    simp
  | cons label rest ih =>
    obtain ⟨u, hu, hrest⟩ := exec_cons_eq_some.mp hr
    have hfirst := hstep s label u hs hu
    have htail := ih (hinv s label u hs hu) hrest
    rw [List.countP_cons]
    omega

end OpenDiamond.Lib.Processes
