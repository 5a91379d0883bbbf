import OpenDiamond.FilterStackRunner

/-!
# The order of a filter stack and its optimization

`FilterStack` sorts the filters so that declared dependencies come first.
`optimize` then keeps the first filter of each cache digest. The digest leaves
out the thresholds, and a second run of a filter sees what the first one wrote,
so that the shorter order gives other verdicts as soon as a filter was removed
and every remaining filter can accept an object.
-/

namespace OpenDiamond.FilterOrder

open Lib.OrderedDict Lib.Binary64 Lib.Runs DiamondObject FilterProtocol AttributeCache
open ResultKeys FilterStackRunner

variable {m : Murmur}

/-! ## Ordering by dependencies -/

/-- `FilterDependencyError` with its message. -/
structure FilterDependencyError where
  /-- Text of the exception. -/
  message : String
  deriving DecidableEq

/-- `_order` and `resolved` while the filters are sorted, by position. -/
structure Sorting where
  /-- Filters to execute so far. -/
  order : List ℕ
  /-- Filters already placed. -/
  resolved : Finset ℕ

/-- The loop over the declared dependencies of a filter. -/
def resolveDependencies (names : Dict String ℕ)
    (resolve : Sorting → ℕ → Except FilterDependencyError Sorting) :
    List String → Sorting → Except FilterDependencyError Sorting
  | [], sorting => .ok sorting
  | depname :: rest, sorting =>
    match names.get? depname with
    | none => .error ⟨"No such filter: " ++ depname⟩
    | some dep =>
      match resolve sorting dep with
      | .error error => .error error
      | .ok sorting => resolveDependencies names resolve rest sorting

/-- `resolve` inside `FilterStack.__init__`. The filters in process bound the
depth, which the first argument counts. -/
def resolveFilter (filters : List Filter) (names : Dict String ℕ) :
    ℕ → Finset ℕ → Sorting → ℕ → Except FilterDependencyError Sorting
  | 0, _, sorting, _ => .ok sorting
  | depth + 1, inprocess, sorting, i =>
    match filters[i]? with
    | none => .ok sorting
    | some filter =>
      if i ∈ sorting.resolved then .ok sorting
      else if i ∈ inprocess then
        .error ⟨"Circular dependency involving " ++ filter.config.name⟩
      else
        match resolveDependencies names
            (resolveFilter filters names depth (insert i inprocess)) filter.dependencies sorting with
        | .error error => .error error
        | .ok sorting => .ok ⟨sorting.order ++ [i], insert i sorting.resolved⟩

/-- `_filters`: the last filter with each name. -/
def filterNames (filters : List Filter) : Dict String ℕ :=
  Dict.empty.setAll (filters.zipIdx.map fun entry => (entry.1.config.name, entry.2))

/-- The loop of `__init__` over the filters. -/
def resolveFilters (filters : List Filter) :
    List ℕ → Sorting → Except FilterDependencyError Sorting
  | [], sorting => .ok sorting
  | i :: rest, sorting =>
    match resolveFilter filters (filterNames filters) (filters.length + 1) ∅ sorting i with
    | .error error => .error error
    | .ok sorting => resolveFilters filters rest sorting

/-- A `FilterStack`. -/
structure FilterStack where
  /-- `_order`. -/
  order : List Filter
  /-- `_optimized`. -/
  optimized : Bool
  deriving DecidableEq

/-- `FilterStack.__init__`. -/
def FilterStack.new (filters : List Filter) : Except FilterDependencyError FilterStack :=
  match resolveFilters filters (List.range filters.length) ⟨[], ∅⟩ with
  | .error error => .error error
  | .ok sorting => .ok ⟨sorting.order.filterMap (filters[·]?), false⟩

/-! ## Optimization -/

/-- The loop of `optimize`: drop every filter whose digest was seen. -/
def removeSeen (m : Murmur) : List Filter → Finset String → List Filter
  | [], _ => []
  | filter :: rest, seen =>
    if filter.config.cacheDigest m ∈ seen then removeSeen m rest seen
    else filter :: removeSeen m rest (insert (filter.config.cacheDigest m) seen)

/-- `FilterStack.optimize` on resolved filters. -/
def FilterStack.optimize (m : Murmur) (stack : FilterStack) : FilterStack :=
  if stack.optimized then stack else ⟨removeSeen m stack.order ∅, true⟩

/-- The cache digest of a filter. -/
abbrev digest (m : Murmur) (filter : Filter) : String := filter.config.cacheDigest m

/-- The loop only leaves filters out, and keeps the order of the others. -/
theorem removeSeen_sublist (order : List Filter) (seen : Finset String) :
    (removeSeen m order seen).Sublist order := by
  induction order generalizing seen with
  | nil => exact List.Sublist.refl []
  | cons filter rest ih =>
    rw [removeSeen]
    split
    · exact (ih seen).cons filter
    · exact (ih _).cons_cons filter

/-- The kept filters have distinct digests, none of them seen before. -/
theorem removeSeen_nodup (order : List Filter) (seen : Finset String) :
    ((removeSeen m order seen).map (digest m)).Nodup ∧
      ∀ filter ∈ removeSeen m order seen, digest m filter ∉ seen := by
  induction order generalizing seen with
  | nil => simp [removeSeen]
  | cons filter rest ih =>
    rw [removeSeen]
    split
    · exact ih seen
    · rename_i hfresh
      obtain ⟨hnodup, hseen⟩ := ih (insert (digest m filter) seen)
      refine ⟨?_, ?_⟩
      · rw [List.map_cons, List.nodup_cons]
        refine ⟨fun hmem => ?_, hnodup⟩
        obtain ⟨other, hother, heq⟩ := List.mem_map.mp hmem
        exact hseen other hother (heq ▸ Finset.mem_insert_self _ seen)
      · intro other hother
        rcases List.mem_cons.mp hother with rfl | hother
        · exact hfresh
        · exact fun h => hseen other hother (Finset.mem_insert_of_mem h)

/-- A filter with no filter of its cache digest in front of it. -/
def FirstOfDigest (m : Murmur) (order : List Filter) (filter : Filter) : Prop :=
  ∃ before after, order = before ++ filter :: after ∧ digest m filter ∉ before.map (digest m)

/-- Of the filters the loop keeps the first one of each digest that was not seen before. -/
theorem mem_removeSeen_iff {order : List Filter} {seen : Finset String} {filter : Filter} :
    filter ∈ removeSeen m order seen ↔ digest m filter ∉ seen ∧ FirstOfDigest m order filter := by
  induction order generalizing seen with
  | nil => simp [removeSeen, FirstOfDigest]
  | cons head rest ih =>
    -- the first filter of the rest stays the first unless the head has its digest
    have hlater : digest m filter ≠ digest m head →
        (FirstOfDigest m (head :: rest) filter ↔ FirstOfDigest m rest filter) := by
      intro hne
      constructor
      · rintro ⟨before, after, heq, hfresh⟩
        cases before with
        | nil =>
          cases heq
          exact absurd rfl hne
        | cons first before =>
          cases heq
          rw [List.map_cons, List.mem_cons, not_or] at hfresh
          exact ⟨before, after, rfl, hfresh.2⟩
      · rintro ⟨before, after, rfl, hfresh⟩
        refine ⟨head :: before, after, rfl, ?_⟩
        rw [List.map_cons, List.mem_cons, not_or]
        exact ⟨hne, hfresh⟩
    have hsame : digest m filter = digest m head →
        (FirstOfDigest m (head :: rest) filter ↔ filter = head) := by
      intro heq
      constructor
      · rintro ⟨before, after, horder, hfresh⟩
        cases before with
        | nil =>
          cases horder
          rfl
        | cons first before =>
          cases horder
          exact absurd (heq ▸ List.mem_cons_self) hfresh
      · rintro rfl
        exact ⟨[], rest, rfl, List.not_mem_nil⟩
    rw [removeSeen]
    by_cases hdigest : digest m filter = digest m head
    · rw [hsame hdigest]
      split
      · rename_i hseen
        rw [ih]
        exact ⟨fun h => absurd (hdigest ▸ hseen) h.1, fun h => absurd (hdigest ▸ hseen) h.1⟩
      · rename_i hfresh
        rw [List.mem_cons, ih, hdigest]
        exact ⟨fun h => ⟨hfresh, h.resolve_right fun hrest =>
          hrest.1 (Finset.mem_insert_self _ _)⟩, fun h => Or.inl h.2⟩
    · rw [hlater hdigest]
      split
      · exact ih
      · rw [List.mem_cons, ih, Finset.mem_insert, not_or]
        constructor
        · rintro (rfl | ⟨⟨-, hseen⟩, hfirst⟩)
          · exact absurd rfl hdigest
          · exact ⟨hseen, hfirst⟩
        · exact fun h => Or.inr ⟨⟨hdigest, h.1⟩, h.2⟩

/-- Filters with digests not seen before are kept in front of whatever
follows. -/
theorem removeSeen_append {first : List Filter} {seen : Finset String}
    (hnodup : (first.map (digest m)).Nodup) (hseen : ∀ filter ∈ first, digest m filter ∉ seen)
    (second : List Filter) :
    removeSeen m (first ++ second) seen =
      first ++ removeSeen m second (seen ∪ (first.map (digest m)).toFinset) := by
  induction first generalizing seen with
  | nil => simp
  | cons filter rest ih =>
    rw [List.map_cons, List.nodup_cons] at hnodup
    have hfresh := hseen filter List.mem_cons_self
    have hseen' : ∀ other ∈ rest, digest m other ∉ insert (digest m filter) seen := by
      intro other hother hmem
      rcases Finset.mem_insert.mp hmem with heq | hmem
      · exact hnodup.1 (heq ▸ List.mem_map_of_mem hother)
      · exact hseen other (List.mem_cons_of_mem filter hother) hmem
    have htail := ih hnodup.2 hseen'
    rw [List.cons_append, removeSeen, if_neg hfresh, htail]
    simp [Finset.insert_union, Finset.union_insert]

/-- Nothing is removed from an order with distinct digests. -/
theorem removeSeen_eq_self {order : List Filter} (h : (order.map (digest m)).Nodup) :
    removeSeen m order ∅ = order := by
  have hseen : ∀ filter ∈ order, digest m filter ∉ (∅ : Finset String) := by simp
  have happ := removeSeen_append h hseen []
  simpa [removeSeen] using happ

/-! ## Verdicts before and after -/

/-- The same verdict, and the same score attributes on an accepted object. -/
def SameOutcome (a b : Evaluation m) : Prop :=
  a.verdict = b.verdict ∧ (a.verdict = .ok true →
    ∀ name, a.obj.attrs.get? (scoreAttr name) = b.obj.attrs.get? (scoreAttr name))

/-- Every object gets the same outcome from both orders, whatever the filters
do. -/
def SameMeaning (m : Murmur) (before after : List Filter) : Prop :=
  ∀ (search : Search m) (chance chance' : Chance) (obj : Object m),
    SameOutcome (evaluateObject search (bindRunners before) none chance obj)
      (evaluateObject search (bindRunners after) none chance' obj)

/-- Two orders through which every object goes alike have the same outcome. -/
theorem sameMeaning_of_exec_eq {before after : List Filter}
    (h : ∀ (search : Search m) (obj : Object m),
      exec (pass search) obj (bindRunners before) = exec (pass search) obj (bindRunners after)) :
    SameMeaning m before after := by
  intro search chance chance' obj
  have hb := evaluateObject_uncached search before chance obj
  have ha := evaluateObject_uncached search after chance' obj
  rw [h search obj] at hb
  cases hl : (search.load obj).unhandled with
  | some failure =>
    simp only [hl] at hb ha
    refine ⟨hb.trans ha.symm, fun hv => ?_⟩
    rw [hb] at hv
    cases hv
  | none =>
    simp only [hl] at hb ha
    cases hx : exec (pass search) obj (bindRunners after) with
    | none =>
      simp only [hx] at hb ha
      refine ⟨hb.trans ha.symm, fun hv => ?_⟩
      rw [hb] at hv
      cases hv
    | some passed =>
      simp only [hx] at hb ha
      refine ⟨hb.1.trans ha.1.symm, fun _ name => ?_⟩
      rw [hb.2, ha.2]

/-- A filter whose bounds are not ordered passes no object on, whatever it scores. -/
theorem pass_eq_none_of_empty {filter : Filter} (h : ¬filter.minScore.le filter.maxScore = true)
    (search : Search m) (obj : Object m) : pass search obj (.filterRunner filter) = none := by
  have hno : ∀ result, (Runner.filterRunner filter).threshold result = false := by
    intro result
    rw [Bool.eq_false_iff]
    intro ht
    rw [Runner.threshold, Bool.and_eq_true] at ht
    exact h (Double.le_trans ht.1 ht.2)
  unfold FilterStackRunner.pass
  split
  · rw [hno, if_neg (by simp)]
  · rfl

/-- A filter whose thresholds exclude each other drops every object that comes so far. -/
theorem exec_bindRunners_eq_none {filters : List Filter} {filter : Filter}
    (hmem : filter ∈ filters) (h : ¬filter.minScore.le filter.maxScore = true)
    (search : Search m) (obj : Object m) :
    exec (pass search) obj (bindRunners filters) = none :=
  exec_eq_none_of_mem (pass_eq_none_of_empty h search)
    (List.mem_cons_of_mem _ (List.mem_map_of_mem hmem)) obj

/-! ## A search that tells the orders apart -/

/-- Scores the given value on a first run on an object, and no number on a
second. -/
def scoreOnce (score : Double) : Proc Unit := .emit (.getAttribute (some "seen")) fun
  | .item none => .emit (.setAttribute (some "seen") []) fun _ => .finish (some score) ()
  | _ => .finish (some .nan) ()

/-- The score of a kept filter is its lower bound. -/
def keptScore (kept : List Filter) (config : FilterConfig) : Double :=
  match kept.find? (fun filter => filter.config = config) with
  | some filter => filter.minScore
  | none => .zero

/-- Every kept filter scores its lower bound; the removed one scores no number
where it runs after the kept one with its digest. -/
def tellApart (kept : List Filter) (first removed config : FilterConfig) : Proc Unit :=
  if config = removed then
    if config = first then scoreOnce (keptScore kept config) else .finish (some .nan) ()
  else .finish (some (keptScore kept config)) ()

/-- The filters that tell the two orders apart say the same whenever they are told the same. -/
theorem deterministic_tellApart (kept : List Filter) (first removed config : FilterConfig) :
    Deterministic (tellApart kept first removed config) := by
  unfold tellApart
  split
  · split
    · refine ⟨rfl, fun r hr => ?_⟩
      cases r <;> simp only [Command.Admits] at hr
      rename_i value
      cases value with
      | none => exact ⟨rfl, fun _ _ => rfl⟩
      | some value => exact rfl
    · exact rfl
  · exact rfl

/-- Objects load without attributes of their own. -/
def tellApartSearch (m : Murmur) (kept : List Filter) (first removed : FilterConfig) :
    Search m where
  load _ := ⟨[], none⟩
  behaviour := tellApart kept first removed
  deterministic := deterministic_tellApart kept first removed
  scoreText _ := ""

/-- The attribute that they leave is not that of a score. -/
theorem seen_ne_scoreAttr (name : String) : "seen" ≠ scoreAttr name := by
  intro h
  have hlist := congrArg String.toList h
  simp [scoreAttr] at hlist

section TellApart

variable {kept : List Filter} {first removed : Filter}

/-- A filter that only scores passes the object on with the attribute of its score, if the score is
within its bounds. -/
theorem pass_of_finish {search : Search m} {filter : Filter} {score : Double}
    (h : search.behaviour filter.config = .finish (some score) ()) (obj : Object m) :
    pass search obj (.filterRunner filter) =
      if filter.minScore.le score && score.le filter.maxScore then
        some (obj.setItem (scoreAttr filter.config.name)
          (encodeText (search.scoreText score ++ "\x00")))
      else none := by
  rw [pass_filterRunner, h]
  rfl

/-- A score that is not a number passes no threshold. -/
theorem pass_of_finish_nan {search : Search m} {filter : Filter}
    (h : search.behaviour filter.config = .finish (some .nan) ()) (obj : Object m) :
    pass search obj (.filterRunner filter) = none := by
  simp [pass_of_finish h, Double.le_nan]

/-- The first filter of a kind finds the object new, marks it and gives its score. -/
theorem course_scoreOnce_first {obj : Object m} (h : obj.contains "seen" = false)
    (score : Double) :
    course (scoreOnce score) obj = ([.read "seen" none, .wrote "seen" []], some score) := by
  have hnone : obj.attrs.get? "seen" = none := by simpa [Object.contains] using h
  simp only [scoreOnce, course, answer, Option.map_some, hnone]
  rfl

/-- The second one finds the mark and gives no number. -/
theorem course_scoreOnce_again {obj : Object m} (h : obj.contains "seen" = true)
    (score : Double) : (course (scoreOnce score) obj).2 = some .nan := by
  obtain ⟨value, hvalue⟩ := Option.isSome_iff_exists.mp h
  simp only [scoreOnce, course, answer, Option.map_some, hvalue]

/-- The object after a first run. -/
theorem pass_scoreOnce_first {search : Search m} {filter : Filter} {score : Double}
    (h : search.behaviour filter.config = scoreOnce score) {obj : Object m}
    (hseen : obj.contains "seen" = false) :
    pass search obj (.filterRunner filter) =
      if filter.minScore.le score && score.le filter.maxScore then
        some ((obj.setItem "seen" []).setItem (scoreAttr filter.config.name)
          (encodeText (search.scoreText score ++ "\x00")))
      else none := by
  rw [pass_filterRunner, h, course_scoreOnce_first hseen]
  rfl

/-- So the second one drops the object. -/
theorem pass_scoreOnce_again {search : Search m} {filter : Filter} {score : Double}
    (h : search.behaviour filter.config = scoreOnce score) {obj : Object m}
    (hseen : obj.contains "seen" = true) : pass search obj (.filterRunner filter) = none := by
  rw [pass_filterRunner, h, course_scoreOnce_again hseen]
  simp [Double.le_nan]

/-- Storing a score leaves the mark of a first run alone. -/
theorem contains_seen_storeScore (obj : Object m) (name : String) (value : Bytes) :
    (obj.setItem (scoreAttr name) value).contains "seen" = obj.contains "seen" := by
  simp only [Object.contains, Object.setItem_attrs,
    Dict.get?_set_of_ne _ value (seen_ne_scoreAttr name).symm]

/-- The mark stays on the object. -/
theorem contains_seen_setItem (obj : Object m) : (obj.setItem "seen" []).contains "seen" = true := by
  simp [Object.contains]

/-- The lower bound of a kept filter is found by its configuration. -/
theorem keptScore_eq (hkept : (kept.map (digest m)).Nodup) {filter : Filter}
    (hmem : filter ∈ kept) : keptScore kept filter.config = filter.minScore := by
  unfold keptScore
  cases hfind : kept.find? (fun other => other.config = filter.config) with
  | none =>
    have hnone := List.find?_eq_none.mp hfind filter hmem
    simp at hnone
  | some other =>
    have hother := List.mem_of_find?_eq_some hfind
    have hconfig : other.config = filter.config := by simpa using List.find?_some hfind
    have heq : other = filter :=
      List.inj_on_of_nodup_map hkept hother hmem (by simp only [digest, hconfig])
    rw [heq]

/-- Every kept filter passes an object on which the first one has not run, and
the object then carries the mark once the first one has run. -/
theorem exec_kept (hkept : (kept.map (digest m)).Nodup)
    (hopen : ∀ filter ∈ kept, filter.minScore.le filter.maxScore = true)
    (hfirst : first ∈ kept) (hdigest : digest m first = digest m removed)
    {filters : List Filter} (hsub : filters.Sublist kept) (obj : Object m)
    (hseen : first ∈ filters → obj.contains "seen" = false) :
    ∃ passed, exec (pass (tellApartSearch m kept first.config removed.config)) obj
        (filters.map .filterRunner) = some passed ∧
      (obj.contains "seen" = true ∨ (first.config = removed.config ∧ first ∈ filters) →
        passed.contains "seen" = true) := by
  induction filters generalizing obj with
  | nil => exact ⟨obj, rfl, fun h => by simpa using h⟩
  | cons filter rest ih =>
    have hmem : filter ∈ kept := hsub.subset List.mem_cons_self
    have hscore := keptScore_eq hkept hmem
    have hbounds := hopen filter hmem
    have hlow := Double.le_self_of_le hbounds
    have hnodup : ((filter :: rest).map (digest m)).Nodup := (hsub.map _).nodup hkept
    have hsub' : rest.Sublist kept := (List.sublist_cons_self filter rest).trans hsub
    have hout : ∀ other, digest m filter = digest m other → other ∉ rest := by
      intro other heq hother
      exact (List.nodup_cons.mp hnodup).1 (heq ▸ List.mem_map_of_mem hother)
    by_cases hc : filter.config = removed.config
    · -- the only kept filter with this digest is the first one
      have heq : filter = first :=
        List.inj_on_of_nodup_map hkept hmem hfirst (by rw [hdigest, digest, hc])
      subst heq
      have hbeh : (tellApartSearch m kept filter.config removed.config).behaviour filter.config =
          scoreOnce filter.minScore := by
        simp only [tellApartSearch, tellApart, if_pos hc, if_true, hscore]
      have hpass := pass_scoreOnce_first hbeh (hseen List.mem_cons_self)
      rw [hlow, hbounds] at hpass
      obtain ⟨passed, hexec, hmark⟩ := ih hsub' _ (fun h => absurd h (hout filter rfl))
      refine ⟨passed, ?_, fun _ => hmark (Or.inl ?_)⟩
      · rw [List.map_cons, exec_cons hpass, hexec]
      · rw [contains_seen_storeScore, contains_seen_setItem]
    · have hbeh : (tellApartSearch m kept first.config removed.config).behaviour filter.config =
          .finish (some filter.minScore) () := by
        simp only [tellApartSearch, tellApart, if_neg hc, hscore]
      have hpass := pass_of_finish hbeh obj
      rw [hlow, hbounds] at hpass
      obtain ⟨passed, hexec, hmark⟩ := ih hsub' _ (fun h => by
        rw [contains_seen_storeScore]
        exact hseen (List.mem_cons_of_mem filter h))
      refine ⟨passed, ?_, fun h => hmark ?_⟩
      · rw [List.map_cons, exec_cons hpass, hexec]
      · rw [contains_seen_storeScore]
        rcases h with h | ⟨hconfig, h⟩
        · exact Or.inl h
        · rcases List.mem_cons.mp h with rfl | h
          · exact absurd hconfig hc
          · exact Or.inr ⟨hconfig, h⟩

/-- The removed filter drops what the kept filters before it passed on. -/
theorem pass_removed_eq_none {obj : Object m}
    (hseen : first.config = removed.config → obj.contains "seen" = true) :
    pass (tellApartSearch m kept first.config removed.config) obj (.filterRunner removed) =
      none := by
  by_cases hc : removed.config = first.config
  · have hbeh : (tellApartSearch m kept first.config removed.config).behaviour removed.config =
        scoreOnce (keptScore kept removed.config) := by
      simp only [tellApartSearch, tellApart, if_true, if_pos hc]
    exact pass_scoreOnce_again hbeh (hseen hc.symm)
  · have hbeh : (tellApartSearch m kept first.config removed.config).behaviour removed.config =
        .finish (some .nan) () := by
      simp only [tellApartSearch, tellApart, if_true, if_neg hc]
    exact pass_of_finish_nan hbeh obj

end TellApart

/-- The first filter of an order whose digest was seen, with the filters before
it and the one that has its digest. -/
theorem exists_first_duplicate {order : List Filter} (h : ¬(order.map (digest m)).Nodup) :
    ∃ before removed after first, order = before ++ removed :: after ∧
      (before.map (digest m)).Nodup ∧ first ∈ before ∧ digest m first = digest m removed := by
  induction order using List.reverseRecOn with
  | nil => exact absurd List.nodup_nil h
  | append_singleton rest last ih =>
    by_cases hrest : (rest.map (digest m)).Nodup
    · rw [List.map_append, List.nodup_append] at h
      have hmem : digest m last ∈ rest.map (digest m) := by
        by_contra hout
        refine h ⟨hrest, List.nodup_singleton _, ?_⟩
        intro a ha b hb heq
        rw [List.map_singleton, List.mem_singleton] at hb
        exact hout (hb ▸ heq ▸ ha)
      obtain ⟨first, hfirst, heq⟩ := List.mem_map.mp hmem
      exact ⟨rest, last, [], first, rfl, hrest, hfirst, heq⟩
    · obtain ⟨before, removed, after, first, rfl, hb, hf, heq⟩ := ih hrest
      exact ⟨before, removed, after ++ [last], first, by simp, hb, hf, heq⟩

/-- A removed filter shows as soon as every kept filter can accept an object. -/
theorem not_sameMeaning_of_removed {before after kept : List Filter} {first removed : Filter}
    (hkept : (kept.map (digest m)).Nodup)
    (hopen : ∀ filter ∈ kept, filter.minScore.le filter.maxScore = true)
    (hfront : before.Sublist kept) (hfirst : first ∈ before)
    (hdigest : digest m first = digest m removed) :
    ¬SameMeaning m (before ++ removed :: after) kept := by
  intro hsame
  have hmem := hfront.subset hfirst
  let search := tellApartSearch m kept first.config removed.config
  let obj := Object.new m "" "" none none true
  let chance : Chance := ⟨fun _ => false, false⟩
  have hseen : obj.contains "seen" = false := rfl
  obtain ⟨passed, hall, _⟩ := exec_kept hkept hopen hmem hdigest (List.Sublist.refl kept) obj
    (fun _ => hseen)
  obtain ⟨halfway, hhalf, hmark⟩ := exec_kept hkept hopen hmem hdigest hfront obj
    (fun _ => hseen)
  have hfetch : pass search obj .fetcher = some obj := rfl
  have hload : (search.load obj).unhandled = none := rfl
  have hstop : pass search halfway (.filterRunner removed) = none :=
    pass_removed_eq_none fun hc => hmark (Or.inr ⟨hc, hfirst⟩)
  have hdropped : exec (pass search) obj (bindRunners (before ++ removed :: after)) = none := by
    rw [bindRunners, exec_cons hfetch, List.map_append, exec_append, hhalf, List.map_cons]
    simp only [Option.bind_some, exec, hstop]
  have haccepted : exec (pass search) obj (bindRunners kept) = some passed := by
    rw [bindRunners, exec_cons hfetch, hall]
  have hafter := evaluateObject_uncached search kept chance obj
  have hbefore := evaluateObject_uncached search (before ++ removed :: after) chance obj
  simp only [hload, haccepted] at hafter
  simp only [hload, hdropped] at hbefore
  have hverdict := (hsame search chance chance obj).1
  rw [hbefore, hafter.1] at hverdict
  cases hverdict

/-- Two filters with one digest can be told apart by a search in which the second of them drops what
the first has marked, provided that the thresholds let an object through at all. -/
theorem not_sameMeaning_of_duplicate {order : List Filter}
    (h : ¬(order.map (digest m)).Nodup)
    (hopen : ∀ filter ∈ removeSeen m order ∅, filter.minScore.le filter.maxScore = true) :
    ¬SameMeaning m order (removeSeen m order ∅) := by
  obtain ⟨before, removed, after, first, rfl, hb, hfirst, hdigest⟩ := exists_first_duplicate h
  have hfront : before.Sublist (removeSeen m (before ++ removed :: after) ∅) := by
    rw [removeSeen_append hb (by simp)]
    exact List.sublist_append_left _ _
  exact not_sameMeaning_of_removed (removeSeen_nodup _ ∅).1 hopen hfront hfirst hdigest

/-- Optimization keeps the meaning of a stack exactly when the digests of its filters differ or
when the first filter of some digest accepts no score. -/
theorem optimize_sameMeaning_iff (filters : List Filter) :
    ∀ stack, FilterStack.new filters = .ok stack →
      (SameMeaning m stack.order (stack.optimize m).order ↔
        (stack.order.map (digest m)).Nodup ∨
          ∃ filter, FirstOfDigest m stack.order filter ∧
            ¬filter.minScore.le filter.maxScore = true) := by
  intro stack hnew
  have hkept : ∀ filter, filter ∈ removeSeen m stack.order ∅ ↔
      FirstOfDigest m stack.order filter := fun filter => by
    rw [mem_removeSeen_iff]
    exact and_iff_right (Finset.notMem_empty _)
  have hopt : (stack.optimize m).order = removeSeen m stack.order ∅ := by
    unfold FilterStack.new at hnew
    split at hnew
    · cases hnew
    · cases hnew
      rfl
  rw [hopt]
  constructor
  · intro hsame
    by_contra hcon
    simp only [not_or, not_exists, not_and, not_not] at hcon
    exact not_sameMeaning_of_duplicate hcon.1
      (fun filter hmem => hcon.2 filter ((hkept filter).mp hmem)) hsame
  · rintro (hnodup | ⟨filter, hfirst, hempty⟩)
    · rw [removeSeen_eq_self hnodup]
      exact sameMeaning_of_exec_eq fun _ _ => rfl
    · refine sameMeaning_of_exec_eq fun search obj => ?_
      have hmem := (hkept filter).mpr hfirst
      have hmem' := (removeSeen_sublist stack.order ∅).subset hmem
      rw [exec_bindRunners_eq_none hmem' hempty, exec_bindRunners_eq_none hmem hempty]

/-- A filter without arguments and dependencies. -/
def plainFilter (name : String) (minScore maxScore : Double) : Filter :=
  ⟨⟨zeroSignature, name, [], zeroSignature⟩, minScore, maxScore, []⟩

/-- Optimization removes the second of two filters that differ in their thresholds, and keeps the
meaning, as the first one accepts no score. -/
theorem optimize_sameMeaning_closed :
    ∃ stack, FilterStack.new [plainFilter "f" .one .zero, plainFilter "f" .zero .one] = .ok stack ∧
      stack.order.length = 2 ∧ (stack.optimize hexMurmur).order = [plainFilter "f" .one .zero] ∧
      SameMeaning hexMurmur stack.order (stack.optimize hexMurmur).order := by
  have hnew : FilterStack.new [plainFilter "f" .one .zero, plainFilter "f" .zero .one] =
      .ok ⟨[plainFilter "f" .one .zero, plainFilter "f" .zero .one], false⟩ := by decide
  have hsame : digest hexMurmur (plainFilter "f" .zero .one) =
      digest hexMurmur (plainFilter "f" .one .zero) := rfl
  have hopt : removeSeen hexMurmur [plainFilter "f" .one .zero, plainFilter "f" .zero .one] ∅ =
      [plainFilter "f" .one .zero] := by
    simp [removeSeen, hsame]
  refine ⟨_, hnew, rfl, hopt, (optimize_sameMeaning_iff _ _ hnew).mpr (Or.inr ?_)⟩
  exact ⟨plainFilter "f" .one .zero, ⟨[], [plainFilter "f" .zero .one], rfl, List.not_mem_nil⟩,
    by decide⟩

/-- Filters that score every object zero. -/
def zeroSearch : Search hexMurmur where
  load _ := ⟨[], none⟩
  behaviour _ := .finish (some .zero) ()
  deterministic _ := rfl
  scoreText _ := "0.0"

/-- One configuration with two thresholds: the second filter drops the object,
and optimization removes it. -/
theorem optimize_drops_threshold :
    ∃ stack, FilterStack.new [plainFilter "f" .zero .one, plainFilter "f" .one .one] = .ok stack ∧
      (evaluateObject zeroSearch (bindRunners stack.order) none ⟨fun _ => false, false⟩
        plainObject).verdict = .ok false ∧
      (evaluateObject zeroSearch (bindRunners (stack.optimize hexMurmur).order) none
        ⟨fun _ => false, false⟩ plainObject).verdict = .ok true := by
  have hsame : digest hexMurmur (plainFilter "f" .one .one) =
      digest hexMurmur (plainFilter "f" .zero .one) := rfl
  have hopt : removeSeen hexMurmur [plainFilter "f" .zero .one, plainFilter "f" .one .one] ∅ =
      [plainFilter "f" .zero .one] := by
    simp [removeSeen, hsame]
  refine ⟨⟨[plainFilter "f" .zero .one, plainFilter "f" .one .one], false⟩, by decide, by decide, ?_⟩
  simp only [FilterStack.optimize, hopt]
  decide

end OpenDiamond.FilterOrder
