import Mathlib.Data.List.Basic

/-!
# A queue that is drained at times

Segments of items arrive with a label each. Their items wait in a queue, which
some segments empty: everything that waits is then handed out under the label
of the segment that empties the queue. A segment can also stop everything.
-/

namespace OpenDiamond.Lib.Draining

variable {A L : Type*}

/-- Items that arrive together. -/
structure Segment (A L : Type*) where
  /-- Where they come from. -/
  label : L
  /-- The items. -/
  items : List A
  /-- The queue is emptied after them. -/
  drains : Bool
  /-- Nothing is handed out any more, these items included. -/
  stops : Bool

/-- What is handed out, with the labels under which it is. -/
def handOut : List A → List (Segment A L) → List (A × L)
  | _, [] => []
  | waiting, s :: rest =>
    if s.stops then []
    else if s.drains then
      (waiting ++ s.items).map (fun item => (item, s.label)) ++ handOut [] rest
    else handOut (waiting ++ s.items) rest

/-- The items of a segment under their own label. -/
def Segment.labelled (s : Segment A L) : List (A × L) :=
  s.items.map fun item => (item, s.label)

/-- The first segment that drains or stops drains under the label. -/
def Reaches (label : L) : List (Segment A L) → Prop
  | [] => False
  | s :: rest =>
    s.stops = false ∧
      ((s.drains = true ∧ s.label = label) ∨ (s.drains = false ∧ Reaches label rest))

/-- Items are drained with their segment, or under its label later; when everything is stopped
none are left. -/
def Settled : List (Segment A L) → Prop
  | [] => True
  | s :: rest =>
    (s.stops = true ∧ ∀ t ∈ s :: rest, t.items = []) ∨
      (s.stops = false ∧ (s.items = [] ∨ s.drains = true ∨ Reaches s.label rest) ∧ Settled rest)

theorem flatMap_labelled_eq_nil_iff {segments : List (Segment A L)} :
    segments.flatMap Segment.labelled = [] ↔ ∀ t ∈ segments, t.items = [] := by
  rw [List.flatMap_eq_nil_iff]
  refine forall_congr' fun t => imp_congr_right fun _ => ?_
  rw [Segment.labelled, List.map_eq_nil_iff]

/-- Relabelling changes nothing exactly when the labels are right. -/
theorem map_fst_relabel_eq_iff {owed : List (A × L)} {label : L} :
    (owed.map Prod.fst).map (fun item => (item, label)) = owed ↔ ∀ o ∈ owed, o.2 = label := by
  induction owed with
  | nil => simp
  | cons o rest ih =>
    obtain ⟨item, own⟩ := o
    rw [List.map_cons, List.map_cons, List.cons.injEq, ih, List.forall_mem_cons]
    simp [eq_comm]

/-- What waits and what arrives is handed out under its own labels exactly when what waits is
reached by a drain under its label, and what arrives is settled. -/
theorem handOut_eq_iff {segments : List (Segment A L)} {owed : List (A × L)} :
    handOut (owed.map Prod.fst) segments = owed ++ segments.flatMap Segment.labelled ↔
      (∀ o ∈ owed, Reaches o.2 segments) ∧ Settled segments := by
  induction segments generalizing owed with
  | nil =>
    rw [handOut, List.flatMap_nil, List.append_nil]
    constructor
    · rintro rfl
      simp [Settled]
    · rintro ⟨hreaches, -⟩
      exact (List.eq_nil_iff_forall_not_mem.mpr fun o ho => hreaches o ho).symm
  | cons s rest ih =>
    rw [handOut]
    cases hstops : s.stops with
    | true =>
      rw [if_pos rfl, eq_comm, List.append_eq_nil_iff, flatMap_labelled_eq_nil_iff]
      simp [Reaches, Settled, hstops, List.eq_nil_iff_forall_not_mem]
    | false =>
      rw [if_neg Bool.false_ne_true, List.flatMap_cons]
      cases hdrains : s.drains with
      | true =>
        have hrest : handOut [] rest = rest.flatMap Segment.labelled ↔ Settled rest := by
          simpa using @ih []
        have hlength : ((owed.map Prod.fst).map fun item => (item, s.label)).length =
            owed.length := by
          rw [List.length_map, List.length_map]
        rw [if_pos rfl, List.map_append, List.append_assoc, Segment.labelled]
        have hsettled : Settled (s :: rest) ↔ Settled rest := by simp [Settled, hstops, hdrains]
        have hreaches : ∀ label, Reaches label (s :: rest) ↔ s.label = label := by
          simp [Reaches, hstops, hdrains]
        rw [hsettled, ← hrest]
        simp only [hreaches, eq_comm (a := s.label)]
        rw [← map_fst_relabel_eq_iff]
        constructor
        · intro h
          obtain ⟨hfront, htail⟩ := List.append_inj h hlength
          exact ⟨hfront, List.append_cancel_left htail⟩
        · rintro ⟨hfront, htail⟩
          rw [hfront, htail]
      | false =>
        have hnext := @ih (owed ++ s.labelled)
        have hwaiting : (owed ++ s.labelled).map Prod.fst = owed.map Prod.fst ++ s.items := by
          rw [List.map_append, Segment.labelled, List.map_map]
          simp [Function.comp_def]
        rw [if_neg Bool.false_ne_true, ← hwaiting, ← List.append_assoc, hnext]
        have hreaches : ∀ label, Reaches label (s :: rest) ↔ Reaches label rest := by
          simp [Reaches, hstops, hdrains]
        have hlabelled : (∀ o ∈ s.labelled, Reaches o.2 rest) ↔
            s.items = [] ∨ Reaches s.label rest := by
          rw [Segment.labelled, List.forall_mem_map]
          cases s.items with
          | nil => simp
          | cons item items =>
            constructor
            · intro h
              exact Or.inr (h item List.mem_cons_self)
            · intro h _ _
              exact h.resolve_left (List.cons_ne_nil item items)
        simp only [hreaches, List.forall_mem_append, hlabelled]
        simp [Settled, hstops, hdrains, and_assoc]

end OpenDiamond.Lib.Draining
