import OpenDiamond.Lib.OrderedDict

/-!
# Results kept under names

A result that can be computed is kept under the name of its request and returned for every later
request of that name. A request gets its own result exactly when the request that came first under
the name has the same one.
-/

namespace OpenDiamond.Lib.Memo

open OrderedDict

variable {P N V E : Type*} [DecidableEq N] (name : P → N) (compute : P → Except E V)

/-- Look a request up, or compute and keep its result. -/
def request (store : Dict N V) (p : P) : Except E V × Dict N V :=
  match store.get? (name p) with
  | some value => (.ok value, store)
  | none =>
    match compute p with
    | .ok value => (.ok value, store.set (name p) value)
    | .error error => (.error error, store)

/-- What is kept after a history of requests. -/
def after (history : List P) : Dict N V :=
  history.foldl (fun store p => (request name compute store p).2) Dict.empty

/-- The first request under a name that has a result. -/
def writer (history : List P) (n : N) : Option P :=
  history.find? fun p => decide (name p = n) && (compute p).isOk

variable {name compute}

theorem writer_spec {history : List P} {n : N} {p : P} (h : writer name compute history n = some p) :
    p ∈ history ∧ name p = n ∧ ∃ value, compute p = .ok value := by
  have hfound := List.find?_some h
  rw [Bool.and_eq_true, decide_eq_true_eq] at hfound
  refine ⟨List.mem_of_find?_eq_some h, hfound.1, ?_⟩
  cases hcompute : compute p with
  | ok value => exact ⟨value, rfl⟩
  | error error =>
    rw [hcompute] at hfound
    cases hfound.2

theorem writer_cons (p : P) (rest : List P) (n : N) :
    writer name compute (p :: rest) n =
      if name p = n ∧ (compute p).isOk = true then some p else writer name compute rest n := by
  rw [writer, List.find?_cons]
  by_cases hname : name p = n
  · by_cases hok : (compute p).isOk = true <;> simp [hname, hok, writer]
  · simp [hname, writer]

/-- A request keeps what is there, and adds only its own result. -/
theorem get?_request (store : Dict N V) (p : P) (n : N) :
    (request name compute store p).2.get? n =
      (store.get? n).or (if name p = n then (compute p).toOption else none) := by
  unfold request
  cases hstore : store.get? (name p) with
  | some value =>
    by_cases hname : name p = n
    · rw [if_pos hname, ← hname, hstore, Option.some_or]
    · rw [if_neg hname, Option.or_none]
  | none =>
    cases hcompute : compute p with
    | ok value =>
      rw [Dict.get?_set]
      by_cases hname : name p = n
      · rw [if_pos hname, if_pos hname, ← hname, hstore]
        rfl
      · rw [if_neg hname, if_neg hname, Option.or_none]
    | error error =>
      by_cases hname : name p = n
      · rw [if_pos hname, ← hname, hstore]
        rfl
      · rw [if_neg hname, Option.or_none]

/-- What is kept under a name is the result of the first request that has one. -/
theorem get?_after (history : List P) (n : N) :
    (after name compute history).get? n =
      (writer name compute history n).bind fun p => (compute p).toOption := by
  have hrun : ∀ store : Dict N V,
      (history.foldl (fun store p => (request name compute store p).2) store).get? n =
        (store.get? n).or
          ((writer name compute history n).bind fun p => (compute p).toOption) := by
    induction history with
    | nil => exact fun store => (Option.or_none).symm
    | cons p rest ih =>
      intro store
      rw [List.foldl_cons, ih, get?_request, Option.or_assoc]
      congr 1
      rw [writer_cons]
      by_cases hname : name p = n
      · rw [if_pos hname]
        cases hcompute : compute p with
        | ok value =>
          rw [if_pos ⟨hname, rfl⟩, Option.bind_some, hcompute]
          rfl
        | error error =>
          rw [if_neg fun h => Bool.false_ne_true h.2]
          rfl
      · rw [if_neg hname, if_neg fun h => hname h.1, Option.none_or]
  exact (hrun Dict.empty).trans (by rw [Dict.get?_empty, Option.none_or])

/-- A request gets its own result exactly when the first one under its name has the same. -/
theorem request_after_eq_iff (history : List P) (p : P) :
    (request name compute (after name compute history) p).1 = compute p ↔
      ∀ q, writer name compute history (name p) = some q → compute q = compute p := by
  have hkept : (after name compute history).get? (name p) =
      (writer name compute history (name p)).bind fun q => (compute q).toOption :=
    get?_after history (name p)
  unfold request
  cases hwriter : writer name compute history (name p) with
  | none =>
    rw [hwriter, Option.bind_none] at hkept
    rw [hkept]
    have hown : (match compute p with
        | .ok value => ((.ok value : Except E V), (after name compute history).set (name p) value)
        | .error error => (.error error, after name compute history)).1 = compute p := by
      cases compute p <;> rfl
    exact iff_of_true hown (fun q hq => absurd hq (Option.some_ne_none q).symm)
  | some q =>
    obtain ⟨-, -, value, hvalue⟩ := writer_spec hwriter
    rw [hwriter, Option.bind_some, hvalue] at hkept
    have hsome : (after name compute history).get? (name p) = some value := hkept
    rw [hsome]
    constructor
    · intro h q' hq'
      cases hq'
      exact hvalue.trans h
    · intro h
      exact hvalue.symm.trans (h q rfl)

end OpenDiamond.Lib.Memo
