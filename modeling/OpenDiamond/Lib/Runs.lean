import Mathlib.Algebra.BigOperators.Group.List.Defs
import Mathlib.Data.List.Basic

/-!
# Runs of a labelled step function

A system is a partial step function: a label says which component moves and
how it resolves its choices, and no successor means that the label is not
enabled. A run is a list of labels executed one after the other. Invariants
are proved by one step lemma, for all runs or for the runs whose steps all
meet a guard.
-/

namespace OpenDiamond.Lib.Runs

variable {S A : Type*}

/-- Execute the labels in order; none if one of them is not enabled. -/
def exec (step : S → A → Option S) : S → List A → Option S
  | s, [] => some s
  | s, a :: rest =>
    match step s a with
    | some t => exec step t rest
    | none => none

@[simp] theorem exec_nil (step : S → A → Option S) (s : S) : exec step s [] = some s := rfl

/-- A nonempty run goes on from the successor. -/
theorem exec_cons_eq_bind (step : S → A → Option S) (s : S) (a : A) (rest : List A) :
    exec step s (a :: rest) = (step s a).bind fun t => exec step t rest := by
  change (match step s a with
    | some t => exec step t rest
    | none => none) = _
  cases step s a with
  | none => rfl
  | some t => rfl

theorem exec_cons {step : S → A → Option S} {s t : S} {a : A} (h : step s a = some t)
    (rest : List A) : exec step s (a :: rest) = exec step t rest := by
  rw [exec_cons_eq_bind, h, Option.bind_some]

/-- A nonempty run is a first step followed by a run. -/
theorem exec_cons_eq_some {step : S → A → Option S} {s u : S} {a : A} {rest : List A} :
    exec step s (a :: rest) = some u ↔
      ∃ t, step s a = some t ∧ exec step t rest = some u := by
  rw [exec_cons_eq_bind, Option.bind_eq_some_iff]

theorem exec_append (step : S → A → Option S) (s : S) (first second : List A) :
    exec step s (first ++ second) =
      (exec step s first).bind fun t => exec step t second := by
  induction first generalizing s with
  | nil => rfl
  | cons a rest ih =>
    rw [List.cons_append]
    cases h : step s a with
    | none => simp [exec, h]
    | some t => rw [exec_cons h, exec_cons h, ih]

/-- A run split in two passes through the state reached by the first part. -/
theorem exec_append_eq_some {step : S → A → Option S} {s u : S} {first second : List A} :
    exec step s (first ++ second) = some u ↔
      ∃ t, exec step s first = some t ∧ exec step t second = some u := by
  rw [exec_append, Option.bind_eq_some_iff]

/-- A label that is never enabled ends every run that holds it. -/
theorem exec_eq_none_of_mem {step : S → A → Option S} {a : A} (h : ∀ s, step s a = none)
    {labels : List A} (hmem : a ∈ labels) (s : S) : exec step s labels = none := by
  induction labels generalizing s with
  | nil => simp at hmem
  | cons b rest ih =>
    rcases List.mem_cons.mp hmem with rfl | hmem
    · simp [exec, h s]
    · cases hb : step s b with
      | none => simp [exec, hb]
      | some t => rw [exec_cons hb, ih hmem]

/-- Every step of the run from this state satisfies the guard. -/
def Guarded (step : S → A → Option S) (guard : S → A → Prop) : S → List A → Prop
  | _, [] => True
  | s, a :: rest => guard s a ∧ ∀ t, step s a = some t → Guarded step guard t rest

theorem guarded_cons {step : S → A → Option S} {guard : S → A → Prop} {s t : S} {a : A}
    {rest : List A} (hg : guard s a) (hstep : step s a = some t)
    (hrest : Guarded step guard t rest) : Guarded step guard s (a :: rest) := by
  refine ⟨hg, fun u hu => ?_⟩
  cases hstep.symm.trans hu
  exact hrest

theorem Guarded.append {step : S → A → Option S} {guard : S → A → Prop} {s t : S}
    {first second : List A} (h : Guarded step guard s (first ++ second))
    (hr : exec step s first = some t) :
    Guarded step guard s first ∧ Guarded step guard t second := by
  induction first generalizing s with
  | nil =>
    cases hr
    exact ⟨trivial, h⟩
  | cons a rest ih =>
    obtain ⟨u, hu, hrest⟩ := exec_cons_eq_some.mp hr
    obtain ⟨hg, hnext⟩ := h
    obtain ⟨_, hsecond⟩ := ih (hnext u hu) hrest
    refine ⟨⟨hg, ?_⟩, hsecond⟩
    intro v hv
    cases hu.symm.trans hv
    exact (ih (hnext u hu) hrest).1

/-- A guard that follows from an invariant is met by every run. -/
theorem guarded_of_invariant {step : S → A → Option S} {guard : S → A → Prop} {I : S → Prop}
    (hstep : ∀ s a t, I s → step s a = some t → I t) (hguard : ∀ s a, I s → guard s a) {s : S}
    (hs : I s) (labels : List A) : Guarded step guard s labels := by
  induction labels generalizing s with
  | nil => trivial
  | cons a rest ih => exact ⟨hguard s a hs, fun t ht => ih (hstep s a t hs ht)⟩

/-- Guards that agree wherever an invariant holds are met by the same runs. -/
theorem guarded_iff_of_invariant {step : S → A → Option S} {guard guard' : S → A → Prop}
    {I : S → Prop} (hstep : ∀ s a t, I s → step s a = some t → I t)
    (hguard : ∀ s a, I s → (guard s a ↔ guard' s a)) {s : S} (hs : I s) (labels : List A) :
    Guarded step guard s labels ↔ Guarded step guard' s labels := by
  induction labels generalizing s with
  | nil => exact Iff.rfl
  | cons a rest ih =>
    have hnext : (∀ t, step s a = some t → Guarded step guard t rest) ↔
        ∀ t, step s a = some t → Guarded step guard' t rest := by
      constructor <;> intro h t ht
      · exact (ih (hstep s a t hs ht)).mp (h t ht)
      · exact (ih (hstep s a t hs ht)).mpr (h t ht)
    exact and_congr (hguard s a hs) hnext

/-- The same for the runs that are possible, where the guards need to agree on enabled
labels only. -/
theorem guarded_iff_of_exec {step : S → A → Option S} {guard guard' : S → A → Prop}
    {I : S → Prop} (hstep : ∀ s a t, I s → step s a = some t → I t)
    (hguard : ∀ s a t, I s → step s a = some t → (guard s a ↔ guard' s a)) {s t : S} (hs : I s)
    {labels : List A} (hr : exec step s labels = some t) :
    Guarded step guard s labels ↔ Guarded step guard' s labels := by
  induction labels generalizing s with
  | nil => exact Iff.rfl
  | cons a rest ih =>
    obtain ⟨u, hu, hrest⟩ := exec_cons_eq_some.mp hr
    have htail := ih (hstep s a u hs hu) hrest
    have hnext : ∀ guard : S → A → Prop,
        (∀ t, step s a = some t → Guarded step guard t rest) ↔ Guarded step guard u rest := by
      intro guard
      constructor
      · intro h
        exact h u hu
      · intro h v hv
        cases hu.symm.trans hv
        exact h
    exact and_congr (hguard s a u hs hu) ((hnext guard).trans (htail.trans (hnext guard').symm))

/-- A run is guarded when the guard holds wherever its beginnings lead. -/
theorem guarded_of_beginnings {step : S → A → Option S} {guard : S → A → Prop} {s t : S}
    {labels : List A} (hr : exec step s labels = some t)
    (h : ∀ before a after u, labels = before ++ a :: after → exec step s before = some u →
      guard u a) : Guarded step guard s labels := by
  induction labels generalizing s with
  | nil => trivial
  | cons a rest ih =>
    obtain ⟨u, hu, hrest⟩ := exec_cons_eq_some.mp hr
    refine guarded_cons (h [] a rest s rfl rfl) hu (ih hrest fun before b after v heq hv => ?_)
    refine h (a :: before) b after v (by rw [heq, List.cons_append]) ?_
    rw [exec_cons hu]
    exact hv

/-- An invariant kept by every guarded step is kept by every guarded run. -/
theorem exec_invariant_of_guarded {step : S → A → Option S} {guard : S → A → Prop}
    {I : S → Prop}
    (hstep : ∀ s a t, I s → guard s a → step s a = some t → I t)
    {s t : S} {labels : List A} (hs : I s) (hg : Guarded step guard s labels)
    (hr : exec step s labels = some t) : I t := by
  induction labels generalizing s with
  | nil =>
    cases hr
    exact hs
  | cons a rest ih =>
    obtain ⟨u, hu, hrest⟩ := exec_cons_eq_some.mp hr
    exact ih (hstep s a u hs hg.1 hu) (hg.2 u hu) hrest

/-- An invariant kept by every step is kept by every run. -/
theorem exec_invariant {step : S → A → Option S} {I : S → Prop}
    (hstep : ∀ s a t, I s → step s a = some t → I t)
    {s t : S} {labels : List A} (hs : I s) (hr : exec step s labels = some t) : I t := by
  induction labels generalizing s with
  | nil =>
    cases hr
    exact hs
  | cons a rest ih =>
    obtain ⟨u, hu, hrest⟩ := exec_cons_eq_some.mp hr
    exact ih (hstep s a u hs hu) hrest

/-- A property with a total to which every label adds its weight. -/
theorem exec_weighted {M : Type*} [AddMonoid M] {step : S → A → Option S} {I : S → M → Prop}
    {weight : A → M}
    (hstep : ∀ s a t total, I s total → step s a = some t → I t (total + weight a))
    {s t : S} {labels : List A} {total : M} (hs : I s total)
    (hr : exec step s labels = some t) : I t (total + (labels.map weight).sum) := by
  induction labels generalizing s total with
  | nil =>
    cases hr
    simpa using hs
  | cons a rest ih =>
    obtain ⟨u, hu, hrest⟩ := exec_cons_eq_some.mp hr
    have htail := ih (hstep s a u total hs hu) hrest
    rwa [add_assoc, ← List.sum_cons, ← List.map_cons] at htail

/-- An output to which every label appends is that of all labels, in order. -/
theorem exec_flatMap {O : Type*} {step : S → A → Option S} (output : S → List O)
    (emit : A → List O) (hstep : ∀ s a t, step s a = some t → output t = output s ++ emit a)
    {s t : S} {labels : List A} (hr : exec step s labels = some t) :
    output t = output s ++ labels.flatMap emit := by
  induction labels generalizing s with
  | nil =>
    cases hr
    simp
  | cons a rest ih =>
    obtain ⟨u, hu, hrest⟩ := exec_cons_eq_some.mp hr
    rw [ih hrest, hstep s a u hu, List.flatMap_cons, List.append_assoc]

/-- A property kept by every label of the run holds at its end. -/
theorem exec_invariant_of_mem {step : S → A → Option S} {I : S → Prop} {labels : List A}
    (hstep : ∀ a ∈ labels, ∀ s t, I s → step s a = some t → I t)
    {s t : S} (hs : I s) (hr : exec step s labels = some t) : I t := by
  induction labels generalizing s with
  | nil =>
    cases hr
    exact hs
  | cons a rest ih =>
    obtain ⟨u, hu, hrest⟩ := exec_cons_eq_some.mp hr
    exact ih (fun b hb => hstep b (List.mem_cons_of_mem a hb))
      (hstep a List.mem_cons_self s u hs hu) hrest

/-- A second system that can answer every step of the first one can answer every run, and
its steps meet the guard that related states carry over. -/
theorem exec_simulates {T : Type*} {step : S → A → Option S} {step' : T → A → Option T}
    {guard : S → A → Prop} {guard' : T → A → Prop} {R : S → T → Prop}
    (hstep : ∀ s t a s', R s t → step s a = some s' → ∃ t', step' t a = some t' ∧ R s' t')
    (hguard : ∀ s t a, R s t → guard s a → guard' t a) {s s' : S} {t : T} {labels : List A}
    (hR : R s t) (hg : Guarded step guard s labels) (hr : exec step s labels = some s') :
    ∃ t', exec step' t labels = some t' ∧ Guarded step' guard' t labels ∧ R s' t' := by
  induction labels generalizing s t with
  | nil =>
    cases hr
    exact ⟨t, rfl, trivial, hR⟩
  | cons a rest ih =>
    obtain ⟨u, hu, hrest⟩ := exec_cons_eq_some.mp hr
    obtain ⟨v, hv, hnext⟩ := hstep s t a u hR hu
    obtain ⟨t', htail, hguarded, hend⟩ := ih hnext (hg.2 u hu) hrest
    exact ⟨t', by rw [exec_cons hv, htail], guarded_cons (hguard s t a hR hg.1) hv hguarded, hend⟩

end OpenDiamond.Lib.Runs
