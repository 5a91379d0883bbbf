import OpenDiamond.ItemLists
import OpenDiamond.Lib.Floats
import OpenDiamond.Search

/-!
# The filter of the proxy

The proxy trains models on labelled examples. Examples come with the setup of a search and from
the user while it runs; they are kept in three item lists, by label and name.
-/

namespace OpenDiamond.ProxyFilters

open ItemLists Lib.Floats Lib.Latest Lib.Unicode Lib.Words Search

variable {F M : Type}

/-! ## The program -/

/-- Exceptions of a proxy filter. -/
inductive Raised where
  /-- A missing argument, label or feature. -/
  | indexError
  /-- A text that is no number, or no JSON. -/
  | valueError
  /-- A number of models that no double holds. -/
  | overflowError
  deriving DecidableEq

/-- `ProxyFilter`. -/
structure ProxyFilter (F M : Type) where
  /-- `filter`. -/
  filter : FilterConfig
  /-- `blob`. -/
  blob : String
  /-- `code`. -/
  code : String
  /-- `max_models`. -/
  maxModels : ℤ
  /-- `majority_frac`. -/
  majorityFrac : Float
  /-- `threshold`. -/
  threshold : Float
  /-- `positive_items`. -/
  positiveItems : ItemList String F
  /-- `negative_items`. -/
  negativeItems : ItemList String F
  /-- `init_negative_items`. -/
  initNegativeItems : ItemList String F
  /-- `full_models`. -/
  fullModels : List M
  /-- `current_max`. -/
  currentMax : ℤ
  /-- `num_model_per_iter`. -/
  numModelPerIter : ℤ

/-- An argument of the filter. -/
def argument {α : Type} (f : FilterConfig) (i : ℕ) (read : Text → Option α) : Except Raised α :=
  match f.arguments[i]? with
  | none => .error .indexError
  | some text =>
    match read (ofString text) with
    | none => .error .valueError
    | some value => .ok value

/-- `int(max_models / 3.)`. -/
def third (maxModels : ℤ) : Except Raised ℤ :=
  match (ofInt maxModels).bind fun x => truncate (x / 3) with
  | none => .error .overflowError
  | some n => .ok n

/-- `ProxyFilter.__init__`. -/
def ProxyFilter.new (f : FilterConfig) : Except Raised (ProxyFilter F M) := do
  let maxModels ← argument f 1 readInt
  let majorityFrac ← argument f 2 readFloat
  let threshold ← argument f 3 readFloat
  let share ← third maxModels
  return {
    filter := f
    blob := f.blob
    code := f.code
    maxModels := maxModels
    majorityFrac := majorityFrac
    threshold := threshold
    positiveItems := .new
    negativeItems := .new
    initNegativeItems := .new
    fullModels := []
    currentMax := 0
    numModelPerIter := max 2 share }

/-- `ProxyFilter.addItem`. -/
def ProxyFilter.addItem (f : ProxyFilter F M) (label : ℤ) (name : Option String) (feature : F) :
    ProxyFilter F M :=
  let item : Item String F := ⟨label, name, feature⟩
  if label = 1 then { f with positiveItems := f.positiveItems.add item }
  else if name = none then { f with initNegativeItems := f.initNegativeItems.add item }
  else { f with negativeItems := f.negativeItems.add item }

/-- `XDR_retrain`. -/
structure Retrain where
  /-- `names`. -/
  names : List String
  /-- `labels`. -/
  labels : List ℤ
  /-- `features`, as JSON. -/
  features : List (List UInt8)

/-- The loop of `addItemList`; `loads` is `json.loads`. -/
def ProxyFilter.addItems (loads : List UInt8 → Option F) (f : ProxyFilter F M) :
    List String → List ℤ → List (List UInt8) → ProxyFilter F M × Option Raised
  | [], _, _ => (f, none)
  | name :: names, label :: labels, text :: texts =>
    match loads text with
    | none => (f, some .valueError)
    | some feature =>
      let item : Item String F := ⟨label, some name, feature⟩
      if label ≠ 0 then
        ProxyFilter.addItems loads { f with positiveItems := f.positiveItems.add item } names labels
          texts
      else
        ProxyFilter.addItems loads { f with negativeItems := f.negativeItems.add item } names labels
          texts
  | _ :: _, _, _ => (f, some .indexError)

/-- `ProxyFilter.addItemList`. -/
def ProxyFilter.addItemList (loads : List UInt8 → Option F) (f : ProxyFilter F M)
    (items : Retrain) : ProxyFilter F M × Option Raised :=
  f.addItems loads items.names items.labels items.features

/-- The calls that add examples. -/
inductive Call (F : Type) where
  /-- `addItem`. -/
  | addItem (label : ℤ) (name : Option String) (feature : F)
  /-- `addItemList`. -/
  | addItemList (items : Retrain)

/-- One call; an exception of `addItemList` leaves what was added before it. -/
def ProxyFilter.call (loads : List UInt8 → Option F) (f : ProxyFilter F M) :
    Call F → ProxyFilter F M
  | .addItem label name feature => f.addItem label name feature
  | .addItemList items => (f.addItemList loads items).1

/-- A sequence of calls. -/
def ProxyFilter.run (loads : List UInt8 → Option F) (f : ProxyFilter F M) (calls : List (Call F)) :
    ProxyFilter F M :=
  calls.foldl (ProxyFilter.call loads) f

/-! ## Examples -/

/-- A labelled example, with the meaning of its label in the call that gives it. -/
structure Example (F : Type) where
  /-- The label is a positive one. -/
  positive : Bool
  /-- The item. -/
  item : Item String F

/-- The item lists. -/
inductive Which where
  /-- `positive_items`. -/
  | positive
  /-- `negative_items`. -/
  | negative
  /-- `init_negative_items`. -/
  | initNegative
  deriving DecidableEq

/-- The name of an example. -/
def Example.name (e : Example F) : Option String := e.item.name

/-- The vector of an example. -/
def Example.feature (e : Example F) : F := e.item.feature

/-- The list of an example. -/
def Example.home (e : Example F) : Which :=
  if e.positive then .positive else if e.name = none then .initNegative else .negative

/-- An item list. -/
def ProxyFilter.items (f : ProxyFilter F M) : Which → ItemList String F
  | .positive => f.positiveItems
  | .negative => f.negativeItems
  | .initNegative => f.initNegativeItems

/-- The examples that the loop of `addItemList` gives. -/
def listed (loads : List UInt8 → Option F) :
    List String → List ℤ → List (List UInt8) → List (Example F)
  | name :: names, label :: labels, text :: texts =>
    match loads text with
    | none => []
    | some feature =>
      ⟨decide (label ≠ 0), ⟨label, some name, feature⟩⟩ :: listed loads names labels texts
  | _, _, _ => []

/-- The examples that a call gives. -/
def Call.examples (loads : List UInt8 → Option F) : Call F → List (Example F)
  | .addItem label name feature => [⟨decide (label = 1), ⟨label, name, feature⟩⟩]
  | .addItemList items => listed loads items.names items.labels items.features

/-- The examples that a sequence of calls gives. -/
def given (loads : List UInt8 → Option F) (calls : List (Call F)) : List (Example F) :=
  calls.flatMap (Call.examples loads)

/-- An item list after some examples. -/
def stored (examples : List (Example F)) (which : Which) : ItemList String F :=
  addAll ((examples.filter fun e => decide (e.home = which)).map Example.item)

/-- Each example with its number, so that equal vectors are told apart. -/
def numbered (examples : List (Example F)) : List (Example (F × ℕ)) :=
  examples.zipIdx.map fun (e, i) => ⟨e.positive, ⟨e.item.label, e.item.name, (e.item.feature, i)⟩⟩

/-! ## Calls and examples -/

section Calls

variable {loads : List UInt8 → Option F}

/-- An example goes to its own list. -/
theorem items_addItem (f : ProxyFilter F M) (label : ℤ) (name : Option String) (feature : F)
    (which : Which) :
    (f.addItem label name feature).items which =
      (((Call.addItem label name feature).examples loads).filter
        (fun e => decide (e.home = which)) |>.map Example.item).foldl ItemList.add
          (f.items which) := by
  simp only [ProxyFilter.addItem, Call.examples, Example.home, Example.name]
  by_cases hlabel : label = 1
  · cases which <;> simp [hlabel, ProxyFilter.items]
  · by_cases hname : name = none
    · cases which <;> simp [hlabel, hname, ProxyFilter.items]
    · cases which <;> simp [hlabel, hname, ProxyFilter.items]

/-- A call with several items puts each into the list of its label, up to the first that cannot be
read. -/
theorem items_addItems (f : ProxyFilter F M) (names : List String) (labels : List ℤ)
    (texts : List (List UInt8)) (which : Which) :
    (f.addItems loads names labels texts).1.items which =
      (((listed loads names labels texts).filter
        fun e => decide (e.home = which)).map Example.item).foldl ItemList.add
          (f.items which) := by
  fun_induction ProxyFilter.addItems loads f names labels texts with
  | case1 => simp [listed]
  | case2 f name names label labels text texts hloads => simp [listed, hloads]
  | case3 f name names label labels text texts feature hloads item hlabel ih =>
    rw [ih]
    cases which <;> simp [listed, hloads, Example.home, Example.name, hlabel, ProxyFilter.items, item]
  | case4 f name names label labels text texts feature hloads item hlabel ih =>
    rw [ih]
    cases which <;> simp [listed, hloads, Example.home, Example.name, hlabel, ProxyFilter.items, item]
  | case5 f name names labels texts hne =>
    cases labels with
    | nil => rfl
    | cons label labels =>
      cases texts with
      | nil => rfl
      | cons text texts => exact absurd rfl fun h => hne _ _ _ _ h rfl

/-- The item lists hold what their examples were added to. -/
theorem items_run {config : FilterConfig} {start : ProxyFilter F M}
    (hnew : ProxyFilter.new config = .ok start) (calls : List (Call F)) (which : Which) :
    (start.run loads calls).items which = stored (given loads calls) which := by
  have hempty : start.items which = .new := by
    unfold ProxyFilter.new at hnew
    simp only [bind, Except.bind] at hnew
    repeat' split at hnew
    all_goals cases hnew
    cases which <;> rfl
  have hcalls : ∀ f : ProxyFilter F M, (f.run loads calls).items which =
      (((given loads calls).filter fun e => decide (e.home = which)).map
        Example.item).foldl ItemList.add (f.items which) := by
    induction calls with
    | nil => exact fun f => rfl
    | cons call rest ih =>
      intro f
      have hcall : (f.call loads call).items which =
          (((call.examples loads).filter fun e => decide (e.home = which)).map
            Example.item).foldl ItemList.add (f.items which) := by
        cases call with
        | addItem label name feature => exact items_addItem f label name feature which
        | addItemList items => exact items_addItems f _ _ _ which
      have htail := ih (f.call loads call)
      rw [hcall] at htail
      rw [given, List.flatMap_cons, List.filter_append, List.map_append, List.foldl_append]
      exact htail
  rw [hcalls, hempty]
  rfl

end Calls

/-! ## Examples used once -/

/-- The vectors of a list are those of its unnamed examples and the latest one of each name whose
latest label belongs there. -/
def UsedOnce (examples : List (Example F)) : Prop :=
  ∀ which, (stored examples which).features.Perm
    (((current Example.name examples).filter fun e => decide (e.home = which)).map Example.feature)

/-- A further example does not touch the vectors of others. -/
def Undisturbed (examples : List (Example F)) (e : Example F) : Prop :=
  ∀ x ∈ examples, Unaffected Example.name e x → ∀ which,
    (x.feature ∈ (stored examples which).features ↔
      x.feature ∈ (stored (examples ++ [e]) which).features)

/-- No name changes its label, and no positive example without a name comes before a name that is
given again. -/
structure Clean (examples : List (Example F)) : Prop where
  /-- Names keep their label. -/
  keeps : ∀ x ∈ examples, ∀ y ∈ examples, x.name ≠ none → x.name = y.name →
    x.positive = y.positive
  /-- Names given again come before the unnamed. -/
  orderly : Orderly ((examples.filter fun e => decide (e.home = .positive)).map Example.item)

variable {examples : List (Example F)} {e : Example F}

/-- A further example comes last in its own list. -/
theorem filter_home_append_of_eq {which : Which} (h : e.home = which) :
    ((examples ++ [e]).filter fun e => decide (e.home = which)) =
      (examples.filter fun e => decide (e.home = which)) ++ [e] := by
  rw [List.filter_append, List.filter_cons_of_pos (by simpa using h), List.filter_nil]

/-- The other lists do not notice it. -/
theorem filter_home_append_of_ne {which : Which} (h : e.home ≠ which) :
    ((examples ++ [e]).filter fun e => decide (e.home = which)) =
      examples.filter fun e => decide (e.home = which) := by
  rw [List.filter_append, List.filter_cons_of_neg (by simpa using h), List.filter_nil,
    List.append_nil]

/-- Nor does what is stored in them. -/
theorem stored_append_of_ne {which : Which} (h : e.home ≠ which) :
    stored (examples ++ [e]) which = stored examples which := by
  unfold stored
  rw [filter_home_append_of_ne h]

/-- Negative examples of the user have a name. -/
theorem name_of_home_negative (h : e.home = .negative) : e.name ≠ none := by
  intro hname
  simp only [Example.home, hname, if_true] at h
  split at h <;> cases h

/-- Those from the setup have none. -/
theorem name_of_home_initNegative (h : e.home = .initNegative) : e.name = none := by
  unfold Example.home at h
  split at h
  · cases h
  · split at h
    · assumption
    · cases h

/-- The negative lists are always orderly: one has names only, one has none. -/
theorem orderly_of_ne_positive (examples : List (Example F)) {which : Which}
    (h : which ≠ .positive) :
    Orderly ((examples.filter fun e => decide (e.home = which)).map Example.item) := by
  intro n hn
  have hmem : ∀ {name}, name ∈ ((examples.filter fun e => decide (e.home = which)).map
      Example.item).map Item.name → ∃ e : Example F, e.home = which ∧ e.name = name := by
    intro name hname
    rw [List.map_map] at hname
    obtain ⟨e, he, rfl⟩ := List.mem_map.mp hname
    exact ⟨e, of_decide_eq_true (List.mem_filter.mp he).2, rfl⟩
  cases which with
  | positive => exact absurd rfl h
  | negative =>
    intro hnone
    obtain ⟨e, hhome, hname⟩ := hmem ((List.takeWhile_sublist _).mem hnone)
    exact name_of_home_negative hhome hname
  | initNegative =>
    obtain ⟨e, hhome, hname⟩ := hmem (List.count_pos_iff.mp (Nat.zero_lt_two.trans_le hn))
    cases (name_of_home_initNegative hhome).symm.trans hname

/-- Clean examples are orderly in every list: among the negative ones names are never mixed with
items that have none. -/
theorem Clean.orderly_home (h : Clean examples) (which : Which) :
    Orderly ((examples.filter fun e => decide (e.home = which)).map Example.item) := by
  by_cases hwhich : which = .positive
  · rw [hwhich]
    exact h.orderly
  · exact orderly_of_ne_positive examples hwhich

/-- When names keep their label, the examples in force can be found list by list. -/
theorem current_home (hkeeps : ∀ x ∈ examples, ∀ y ∈ examples, x.name ≠ none → x.name = y.name →
      x.positive = y.positive) (which : Which) :
    ((current Example.name examples).filter fun e => decide (e.home = which)).map Example.feature =
      (current Item.name ((examples.filter fun e => decide (e.home = which)).map
        Example.item)).map Item.feature := by
  rw [filter_current, current_map, List.map_map]
  · rfl
  · intro x hx y hy hname hxy
    unfold Example.home
    rw [hkeeps x hx y hy hname hxy, hxy]

/-- Clean examples are used once. -/
theorem Clean.usedOnce (h : Clean examples) : UsedOnce examples := by
  intro which
  rw [current_home h.keeps]
  exact features_perm (h.orderly_home which)

/-- An example that changes its label is used twice: its vector stays in the list of the old
label. -/
theorem not_usedOnce_of_relabelled (h : Clean examples) (hbefore : UsedOnce examples)
    {x : Example F} (hx : x ∈ examples) (hname : x.name ≠ none) (hxe : x.name = e.name)
    (hlabel : x.positive ≠ e.positive) : ¬UsedOnce (examples ++ [e]) := by
  intro hafter
  obtain ⟨n, hn⟩ := Option.ne_none_iff_exists'.mp hname
  obtain ⟨y, hy, hyname⟩ := exists_current (List.mem_map.mpr ⟨x, hx, hn⟩)
  have hyx : y.positive = x.positive :=
    h.keeps y ((current_sublist examples).mem hy) x hx (by simp [hyname])
      (hyname.trans hn.symm)
  have hhome : e.home ≠ y.home := by
    unfold Example.home
    rw [hyname, ← hxe, hn, hyx]
    rcases hp : x.positive <;> rcases he : e.positive <;> simp_all
  have hsame := (hbefore y.home).symm.trans
    (@stored_append_of_ne F examples e y.home hhome ▸ hafter y.home)
  have hforce := (current_perm_cons hy (hyname.trans (hn.symm.trans hxe))
    (by rw [← hxe]; exact hname)).filter fun e => decide (e.home = y.home)
  rw [List.filter_cons_of_pos (by simp)] at hforce
  have hlength := ((hforce.map Example.feature).symm.trans hsame).length_eq
  rw [current_append_singleton, filter_home_append_of_ne hhome, List.length_map, List.length_map,
    List.length_cons] at hlength
  omega

/-- Giving a positive name again that is not in front overwrites another example. -/
theorem not_usedOnce_of_overwritten (h : Clean examples)
    (hfeatures : (examples.map Example.feature).Nodup)
    (hkeeps : ∀ x ∈ examples ++ [e], ∀ y ∈ examples ++ [e], x.name ≠ none → x.name = y.name →
      x.positive = y.positive) {n : String} (hhome : e.home = .positive) (hname : e.name = some n)
    (hmem : some n ∈ ((examples.filter fun e => decide (e.home = .positive)).map
      Example.item).map Item.name)
    (hleading : ¬Leading ((examples.filter fun e => decide (e.home = .positive)).map
      Example.item) n) : ¬UsedOnce (examples ++ [e]) := by
  intro hafter
  have hpositive := hafter .positive
  rw [current_home hkeeps] at hpositive
  unfold stored at hpositive
  rw [filter_home_append_of_eq hhome, List.map_append, List.map_singleton] at hpositive
  refine not_perm_of_not_leading ?_ h.orderly hname hmem hleading hpositive
  rw [List.map_map]
  exact hfeatures.sublist (List.filter_sublist.map Example.feature)

/-- Examples with different vectors are used once at every time exactly when they are clean. -/
theorem usedOnce_prefixes_iff (hfeatures : (examples.map Example.feature).Nodup) :
    (∀ earlier, earlier <+: examples → UsedOnce earlier) ↔ Clean examples := by
  induction examples using List.reverseRecOn with
  | nil =>
    have hclean : Clean ([] : List (Example F)) :=
      ⟨fun _ h => absurd h List.not_mem_nil, fun _ h => absurd h (by simp)⟩
    refine iff_of_true (fun earlier h => ?_) hclean
    rw [List.prefix_nil.mp h]
    exact hclean.usedOnce
  | append_singleton examples e ih =>
    rw [List.map_append] at hfeatures
    have hexamples := (List.nodup_append.mp hfeatures).1
    constructor
    · intro h
      have hclean := (ih hexamples).mp fun earlier hearlier =>
        h earlier (hearlier.trans (List.prefix_append examples [e]))
      have hbefore := h examples (List.prefix_append examples [e])
      have hafter := h _ (List.prefix_refl (examples ++ [e]))
      have hlabel : ∀ x ∈ examples, x.name ≠ none → x.name = e.name →
          x.positive = e.positive := by
        intro x hx hname hxe
        by_contra hne
        exact not_usedOnce_of_relabelled hclean hbefore hx hname hxe hne hafter
      have hkeeps : ∀ x ∈ examples ++ [e], ∀ y ∈ examples ++ [e], x.name ≠ none →
          x.name = y.name → x.positive = y.positive := by
        intro x hx y hy hname hxy
        rcases List.mem_append.mp hx with hx | hx <;> rcases List.mem_append.mp hy with hy | hy
        · exact hclean.keeps x hx y hy hname hxy
        · cases List.mem_singleton.mp hy
          exact hlabel x hx hname hxy
        · cases List.mem_singleton.mp hx
          exact (hlabel y hy (hxy ▸ hname) hxy.symm).symm
        · rw [List.mem_singleton.mp hx, List.mem_singleton.mp hy]
      refine ⟨hkeeps, ?_⟩
      by_cases hhome : e.home = .positive
      · rw [filter_home_append_of_eq hhome, List.map_append, List.map_singleton,
          orderly_append_iff]
        refine ⟨hclean.orderly, fun n hname hmem => ?_⟩
        by_contra hleading
        exact not_usedOnce_of_overwritten hclean hexamples hkeeps hhome hname hmem hleading hafter
      · rw [filter_home_append_of_ne hhome]
        exact hclean.orderly
    · intro h earlier hearlier
      rcases List.prefix_concat_iff.mp hearlier with rfl | hearlier
      · exact h.usedOnce
      · refine (ih hexamples).mpr ⟨fun x hx y hy => h.keeps x (List.mem_append_left _ hx) y
          (List.mem_append_left _ hy), ?_⟩ earlier hearlier
        have horder := h.orderly
        by_cases hhome : e.home = .positive
        · rw [filter_home_append_of_eq hhome, List.map_append, List.map_singleton] at horder
          exact horder.of_append
        · rwa [filter_home_append_of_ne hhome] at horder

/-- Where all vectors differ, the vector of an example is in a list exactly when the example is in
force and belongs there. -/
theorem mem_stored_iff (hfeatures : (examples.map Example.feature).Nodup)
    (h : UsedOnce examples) {x : Example F} (hx : x ∈ examples) (which : Which) :
    x.feature ∈ (stored examples which).features ↔
      x ∈ current Example.name examples ∧ x.home = which := by
  rw [(h which).mem_iff, List.mem_map]
  constructor
  · rintro ⟨y, hy, hyx⟩
    obtain ⟨hcurrent, hhome⟩ := List.mem_filter.mp hy
    have heq := List.inj_on_of_nodup_map hfeatures ((current_sublist examples).mem hcurrent) hx hyx
    exact heq ▸ ⟨hcurrent, of_decide_eq_true hhome⟩
  · rintro ⟨hcurrent, hhome⟩
    exact ⟨x, List.mem_filter.mpr ⟨hcurrent, decide_eq_true hhome⟩, rfl⟩

/-- Between two times at which all examples are used once, none is disturbed. -/
theorem undisturbed_of_usedOnce (hfeatures : ((examples ++ [e]).map Example.feature).Nodup)
    (hbefore : UsedOnce examples) (hafter : UsedOnce (examples ++ [e])) :
    Undisturbed examples e := by
  intro x hx hkept which
  have hexamples : (examples.map Example.feature).Nodup := by
    rw [List.map_append] at hfeatures
    exact (List.nodup_append.mp hfeatures).1
  rw [mem_stored_iff hexamples hbefore hx,
    mem_stored_iff hfeatures hafter (List.mem_append_left _ hx), current_append_singleton,
    List.mem_append, List.mem_filter, List.mem_singleton, decide_eq_true_eq]
  refine and_congr_left fun _ => ⟨fun h => .inl ⟨h, hkept⟩, ?_⟩
  rintro (⟨h, -⟩ | rfl)
  · exact h
  · rw [List.map_append, List.nodup_append] at hfeatures
    exact absurd rfl (hfeatures.2.2 _ (List.mem_map_of_mem hx) _
      (List.mem_map_of_mem List.mem_cons_self))

/-! ## Numbered examples -/

/-- Numbered examples differ in their numbers, so that equal vectors are told apart. -/
theorem nodup_numbered (examples : List (Example F)) :
    ((numbered examples).map Example.feature).Nodup := by
  have hnumbers : (((numbered examples).map Example.feature).map Prod.snd).Nodup := by
    rw [numbered, List.map_map, List.map_map]
    exact (List.zipIdx_map_snd 0 examples).symm ▸ List.nodup_range'
  exact hnumbers.of_map

/-- An example with another representation of its vector. -/
def Example.map {G : Type} (g : F → G) (e : Example F) : Example G := ⟨e.positive, e.item.map g⟩

/-- Without their numbers they are the examples themselves. -/
theorem map_numbered (examples : List (Example F)) :
    (numbered examples).map (Example.map Prod.fst) = examples := by
  rw [numbered, List.map_map]
  exact (List.map_map.symm.trans (List.map_id _)).trans (List.zipIdx_map_fst 0 examples)

/-- The list of an example does not depend on its vector. -/
theorem filter_home_map {G : Type} (g : F → G) (examples : List (Example F)) (which : Which) :
    (((examples.map (Example.map g)).filter fun e => decide (e.home = which)).map Example.item) =
      ((examples.filter fun e => decide (e.home = which)).map Example.item).map (Item.map g) := by
  rw [List.filter_map, List.map_map, List.map_map]
  rfl

/-- What is stored does not depend on what the vectors are. -/
theorem features_stored_map {G : Type} (g : F → G) (examples : List (Example F)) (which : Which) :
    (stored (examples.map (Example.map g)) which).features =
      (stored examples which).features.map g := by
  unfold stored
  rw [filter_home_map, (addAll_map g _).2]

/-- Nor does it depend on the vectors whether examples are clean. -/
theorem clean_map {G : Type} (g : F → G) (examples : List (Example F)) :
    Clean (examples.map (Example.map g)) ↔ Clean examples := by
  have horderly : Orderly (((examples.map (Example.map g)).filter
      fun e => decide (e.home = .positive)).map Example.item) ↔
      Orderly ((examples.filter fun e => decide (e.home = .positive)).map Example.item) := by
    rw [filter_home_map]
    unfold Orderly Leading
    rw [List.map_map]
    exact Iff.rfl
  constructor
  · intro h
    exact ⟨fun x hx y hy => h.keeps _ (List.mem_map_of_mem hx) _ (List.mem_map_of_mem hy),
      horderly.mp h.orderly⟩
  · intro h
    refine ⟨fun x hx y hy => ?_, horderly.mpr h.orderly⟩
    obtain ⟨x', hx', rfl⟩ := List.mem_map.mp hx
    obtain ⟨y', hy', rfl⟩ := List.mem_map.mp hy
    exact h.keeps x' hx' y' hy'

/-! ## Runs -/

/-- In a run of calls every example is used once, with its latest label, and no step disturbs
another example, exactly when the examples are clean: names keep their labels, and no name is given
again behind a positive example without one. -/
theorem run_usedOnce_iff {config : FilterConfig} {start : ProxyFilter F M}
    (hnew : ProxyFilter.new config = .ok start) (loads : List UInt8 → Option F)
    (calls : List (Call F)) :
    (∀ which, ((start.run loads calls).items which).features =
        (stored (numbered (given loads calls)) which).features.map Prod.fst) ∧
      ((∀ earlier, earlier <+: numbered (given loads calls) → UsedOnce earlier ∧
          ∀ e, earlier ++ [e] <+: numbered (given loads calls) → Undisturbed earlier e) ↔
        Clean (given loads calls)) := by
  have hfeatures := nodup_numbered (given loads calls)
  refine ⟨fun which => ?_, ?_⟩
  · rw [items_run hnew, ← features_stored_map, map_numbered]
  · rw [← map_numbered (given loads calls), clean_map, map_numbered,
      ← usedOnce_prefixes_iff hfeatures]
    refine ⟨fun h earlier hearlier => (h earlier hearlier).1, fun h earlier hearlier => ?_⟩
    refine ⟨h earlier hearlier, fun e he => undisturbed_of_usedOnce ?_ (h earlier hearlier) (h _ he)⟩
    exact hfeatures.sublist (he.sublist.map Example.feature)

/-- A filter of six models. -/
def sampleConfig : FilterConfig :=
  ⟨"PROXY", ["PROXY", "6", "0.7", "0.5"], [], .zero, .one, "code", "blob"⟩

/-- A reader that knows the JSON texts of three vectors. -/
def sampleLoads (text : List UInt8) : Option (List ℤ) :=
  if text = "[1]".toUTF8.toList then some [1]
  else if text = "[2]".toUTF8.toList then some [2]
  else if text = "[3]".toUTF8.toList then some [3]
  else none

/-- An image that the user labels. -/
def sampleLabel (label : ℤ) : Call (List ℤ) := .addItemList ⟨["a"], [label], ["[1]".toUTF8.toList]⟩

/-- Four images in two calls; the first image is given again, with another vector. -/
def sampleCalls : List (Call (List ℤ)) :=
  [.addItemList ⟨["a", "b"], [1, 0], ["[1]".toUTF8.toList, "[2]".toUTF8.toList]⟩,
    .addItem 1 (some "c") [5],
    .addItemList ⟨["d", "a"], [0, 1], ["[3]".toUTF8.toList, "[2]".toUTF8.toList]⟩]

/-- The arguments of the sample filter can be read. -/
theorem isOk_sampleConfig :
    (ProxyFilter.new sampleConfig : Except Raised (ProxyFilter (List ℤ) Unit)).isOk = true := by
  decide +kernel

/-- These calls keep the labels and name every image. -/
theorem clean_sampleCalls : Clean (given sampleLoads sampleCalls) where
  keeps := by decide +kernel
  orderly := orderly_of_named (by decide +kernel)

/-- After these calls, and before each of them, every example is used once; the image that was given
twice has its later vector. -/
theorem run_usedOnce_labelled : ∃ start : ProxyFilter (List ℤ) Unit,
    ProxyFilter.new sampleConfig = .ok start ∧
      ((start.run sampleLoads sampleCalls).items .positive).features = [[2], [5]] ∧
      ∀ earlier, earlier <+: numbered (given sampleLoads sampleCalls) → UsedOnce earlier ∧
        ∀ e, earlier ++ [e] <+: numbered (given sampleLoads sampleCalls) →
          Undisturbed earlier e := by
  cases hnew : (ProxyFilter.new sampleConfig : Except Raised (ProxyFilter (List ℤ) Unit)) with
  | ok start =>
    obtain ⟨hstored, hused⟩ := run_usedOnce_iff hnew sampleLoads sampleCalls
    refine ⟨start, rfl, (hstored .positive).trans ?_, hused.mpr clean_sampleCalls⟩
    decide +kernel
  | error raised =>
    have hok := isOk_sampleConfig
    rw [hnew] at hok
    cases hok

/-- The vector of an image whose label the user changes stays in the list of the old label, and is
also put into that of the new one. -/
theorem relabelled_twice :
    ((ProxyFilter.new sampleConfig : Except Raised (ProxyFilter (List ℤ) Unit)).map fun start =>
      ((start.run sampleLoads [sampleLabel 0, sampleLabel 1]).positiveItems.features,
        (start.run sampleLoads [sampleLabel 0, sampleLabel 1]).negativeItems.features)) =
      .ok ([[1]], [[1]]) ∧
    ¬UsedOnce (numbered (given sampleLoads [sampleLabel 0, sampleLabel 1])) := by
  refine ⟨by decide +kernel, fun h => ?_⟩
  have hnegative := h .negative
  revert hnegative
  decide +kernel

end OpenDiamond.ProxyFilters
