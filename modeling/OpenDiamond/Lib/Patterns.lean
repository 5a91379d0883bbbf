import Mathlib.Data.List.Basic

/-!
# Patterns of literals and runs

A pattern is a sequence of single symbols and of runs of at least one symbol of a class.
A run takes as many symbols as it can and gives them back one by one when the rest of the
pattern does not match.
-/

namespace OpenDiamond.Lib.Patterns

variable {α : Type*}

/-- An item of a pattern. -/
inductive Item (α : Type*) where
  /-- One symbol of a class. -/
  | one (cls : α → Bool)
  /-- One or more symbols of a class, as many as possible. -/
  | many (cls : α → Bool)

/-- The longest run after which the rest of the pattern matches: the run, and the match of
the rest. -/
def longest {β : Type*} (cls : α → Bool) (next : List α → Option β) :
    List α → Option (List α × β)
  | [] => (next []).map fun found => ([], found)
  | c :: rest =>
    if cls c then
      match longest cls next rest with
      | some (run, found) => some (c :: run, found)
      | none => (next (c :: rest)).map fun found => ([], found)
    else (next (c :: rest)).map fun found => ([], found)

/-- Match a pattern at the start of a text: the runs, and what follows the match. -/
def matchItems : List (Item α) → List α → Option (List (List α) × List α)
  | [], text => some ([], text)
  | _ :: _, [] => none
  | .one cls :: items, c :: rest => if cls c then matchItems items rest else none
  | .many cls :: items, c :: rest =>
    if cls c then
      (longest cls (matchItems items) rest).map fun found =>
        ((c :: found.1) :: found.2.1, found.2.2)
    else none

/-- `re.findall` for a pattern that is not empty, after so many symbols of the last match. -/
def findAllFrom (items : List (Item α)) : ℕ → List α → List (List α)
  | _, [] => []
  | skip + 1, _ :: rest => findAllFrom items skip rest
  | 0, c :: rest =>
    match matchItems items (c :: rest) with
    | some (_, left) =>
      let length := (c :: rest).length - left.length
      (c :: rest).take length :: findAllFrom items (length - 1) rest
    | none => findAllFrom items 0 rest

/-- `re.findall`. -/
def findAll (items : List (Item α)) (text : List α) : List (List α) := findAllFrom items 0 text

/-- The pattern of a word. -/
def literal [DecidableEq α] (word : List α) : List (Item α) := word.map fun c => .one (· = c)

theorem matchItems_literal [DecidableEq α] (word : List α) (items : List (Item α))
    (rest : List α) : matchItems (literal word ++ items) (word ++ rest) = matchItems items rest := by
  induction word with
  | nil => rfl
  | cons c word ih =>
    simp only [literal, List.map_cons, List.cons_append, matchItems, decide_true, if_true]
    exact ih

/-- A run ends in front of a symbol outside its class. -/
theorem longest_of_forall {β : Type*} {cls : α → Bool} {next : List α → Option β}
    {run : List α} (hrun : ∀ c ∈ run, cls c = true) {rest : List α}
    (hrest : ∀ c ∈ rest.head?, cls c = false) {found : β} (hfound : next rest = some found) :
    longest cls next (run ++ rest) = some (run, found) := by
  induction run with
  | nil =>
    cases rest with
    | nil => simp [longest, hfound]
    | cons c rest =>
      have hc : cls c = false := hrest c rfl
      simp [longest, hc, hfound]
  | cons c run ih =>
    have hc := hrun c List.mem_cons_self
    have htail := ih fun other hother => hrun other (List.mem_cons_of_mem _ hother)
    simp only [List.cons_append, longest, hc, if_true, htail]

theorem matchItems_many {cls : α → Bool} {items : List (Item α)} {run : List α} (hne : run ≠ [])
    (hrun : ∀ c ∈ run, cls c = true) {rest : List α} (hrest : ∀ c ∈ rest.head?, cls c = false)
    {runs : List (List α)} {left : List α} (hfound : matchItems items rest = some (runs, left)) :
    matchItems (.many cls :: items) (run ++ rest) = some (run :: runs, left) := by
  cases run with
  | nil => exact absurd rfl hne
  | cons c run =>
    have hc := hrun c List.mem_cons_self
    have htail := longest_of_forall (fun other hother => hrun other (List.mem_cons_of_mem _ hother))
      hrest hfound
    simp only [List.cons_append, matchItems, hc, if_true, htail, Option.map_some]

theorem findAllFrom_length (items : List (Item α)) (skipped rest : List α) :
    findAllFrom items skipped.length (skipped ++ rest) = findAllFrom items 0 rest := by
  induction skipped with
  | nil => rfl
  | cons c skipped ih =>
    rw [List.length_cons, List.cons_append, findAllFrom]
    exact ih

/-- A match at the start of the text is found first. -/
theorem findAll_append {items : List (Item α)} {block rest : List α} (hne : block ≠ [])
    {runs : List (List α)} (hmatch : matchItems items (block ++ rest) = some (runs, rest)) :
    findAll items (block ++ rest) = block :: findAll items rest := by
  cases block with
  | nil => exact absurd rfl hne
  | cons c tail =>
    have hlength : ((c :: tail) ++ rest).length - rest.length = (c :: tail).length := by
      rw [List.length_append]
      omega
    rw [List.cons_append] at hmatch hlength
    simp only [findAll, List.cons_append, findAllFrom, hmatch, hlength]
    rw [← List.cons_append, List.take_left, List.length_cons, Nat.add_sub_cancel,
      findAllFrom_length]

end OpenDiamond.Lib.Patterns
