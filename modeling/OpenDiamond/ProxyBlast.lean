import OpenDiamond.Lib.OrderedDict

/-!
# Objects through the proxy

The proxy takes the objects of its servers off a queue and scores them with its models. Of the
objects with a low score it sends a small sample to the client and withholds the others; the count
of dropped objects that the statistics add is the count of the former.
-/

namespace OpenDiamond.ProxyBlast

open Lib.OrderedDict

variable {F : Type}

/-! ## The program -/

/-- `XDR_attribute`. -/
structure Attribute where
  /-- Name. -/
  name : String
  /-- Value. -/
  value : List UInt8
  deriving DecidableEq

/-- `XDR_object`. -/
structure Object where
  /-- Attributes. -/
  attrs : List Attribute
  deriving DecidableEq

/-- What an object meets on its way through the proxy. -/
structure Turn (F : Type) where
  /-- There are models. -/
  modelled : Bool
  /-- `get_prediction`, `none` for an exception. -/
  getPrediction : F → Option Float
  /-- `np.random.uniform()`. -/
  sample : Float

/-- What the packages do. -/
structure Packages (F : Type) where
  /-- `np.array([json.loads(value)])`, `none` for an exception. -/
  loads : List UInt8 → Option F
  /-- `str` of a prediction. -/
  str : Float → String

/-- A text attribute. -/
def text (name value : String) : Attribute := ⟨name, (value ++ "\x00").toUTF8.toList⟩

/-- `high_conf`. -/
def highConf : Attribute := text "_score.string" "1"

/-- `mid_conf`. -/
def midConf : Attribute := text "_score.string" "2"

/-- `low_conf`. -/
def lowConf : Attribute := text "_score.string" "0"

/-- How the way of an object ends. -/
inductive Outcome where
  /-- Returned to the client. -/
  | returned (obj : Object)
  /-- Withheld, and the loop goes on. -/
  | withheld
  /-- An exception. -/
  | raised
  deriving DecidableEq

variable (packages : Packages F)

/-- The feature vector of some attributes, `none` for an exception. -/
def features (attrs : List Attribute) : Option (Option F) :=
  attrs.foldlM (fun found a =>
    if a.name = "feature_vector.json" then (packages.loads a.value).map some else some found) none

/-- One round of the loop of `fetch_object`, with `dropped_count`. -/
def round (turn : Turn F) (obj : Object) (droppedCount : ℕ) : Outcome × ℕ :=
  if turn.modelled = false then (.returned obj, droppedCount)
  else
    match features packages obj.attrs with
    | none => (.raised, droppedCount)
    | some none => (.returned obj, droppedCount)
    | some (some vector) =>
      match turn.getPrediction vector with
      | none => (.raised, droppedCount)
      | some pred =>
        let attrs := obj.attrs ++ [text "prediction.string" (packages.str pred)]
        if pred > 0.85 then (.returned ⟨attrs ++ [highConf]⟩, droppedCount)
        else if pred < 0.4 then
          if turn.sample > 0.02 then (.withheld, droppedCount)
          else (.returned ⟨attrs ++ [lowConf]⟩, droppedCount + 1)
        else (.returned ⟨attrs ++ [midConf]⟩, droppedCount)

/-- What a call of `fetch_object` leaves. -/
structure Fetched (F : Type) where
  /-- The object or the exception, `none` while the call waits for further objects. -/
  result : Option (Option Object)
  /-- `pending_objs`. -/
  pendingObjs : List (Turn F × Object)
  /-- `dropped_count`. -/
  droppedCount : ℕ

/-- `fetch_object`. -/
def fetchObject : List (Turn F × Object) → ℕ → Fetched F
  | [], droppedCount => ⟨none, [], droppedCount⟩
  | (turn, obj) :: rest, droppedCount =>
    match round packages turn obj droppedCount with
    | (.returned obj, droppedCount) => ⟨some (some obj), rest, droppedCount⟩
    | (.withheld, droppedCount) => fetchObject rest droppedCount
    | (.raised, droppedCount) => ⟨some none, rest, droppedCount⟩

/-- What a run of calls leaves. -/
structure Run (F : Type) where
  /-- The objects returned to the client. -/
  returned : List Object
  /-- `pending_objs`. -/
  pendingObjs : List (Turn F × Object)
  /-- `dropped_count`. -/
  droppedCount : ℕ

/-- So many calls of `fetch_object`, or until one waits. -/
def fetchObjects : ℕ → List (Turn F × Object) → ℕ → Run F
  | 0, pendingObjs, droppedCount => ⟨[], pendingObjs, droppedCount⟩
  | calls + 1, pendingObjs, droppedCount =>
    let fetched := fetchObject packages pendingObjs droppedCount
    match fetched.result with
    | none => ⟨[], fetched.pendingObjs, fetched.droppedCount⟩
    | some obj =>
      let run := fetchObjects calls fetched.pendingObjs fetched.droppedCount
      { run with returned := obj.toList ++ run.returned }

/-- Statistics as pairs of a name and a value. -/
abbrev Stats := List (String × ℤ)

/-- The reply of a server to `request_stats`. -/
structure Reply where
  /-- `stats`. -/
  stats : Stats
  /-- `filter_stats`. -/
  filterStats : List (String × Stats)

/-- `previous_stats`, which nothing changes. -/
def previousStats : Dict String ℤ :=
  Dict.empty.setAll [("objs_passed", 0), ("objs_unloadable", 0), ("objs_dropped", 0),
    ("objs_total", 0), ("objs_true_positive", 0), ("objs_processed", 0),
    ("objs_false_negative", 0), ("avg_obj_time_us", 0)]

/-- `combine_into`. -/
def combineInto (dest : Dict String ℤ) (src : Stats) : Dict String ℤ :=
  src.foldl (fun dest stat => dest.set stat.1 ((dest.get? stat.1).getD 0 + stat.2)) dest

/-- The value of a statistic in the reply of the proxy. -/
def reported (droppedCount : ℕ) (k : String) (value : ℤ) : ℤ :=
  let previous := (previousStats.get? k).getD 0
  if k = "objs_processed" then value - previous
  else if k = "objs_dropped" then value - previous + droppedCount
  else if k = "objs_false_negative" then value - previous
  else value

/-- `get_stats`. -/
def getStats (droppedCount : ℕ) (input : Dict String ℤ) : Stats :=
  input.entries.map fun entry => (entry.1, reported droppedCount entry.1 entry.2)

/-- `request_stats`. -/
def requestStats (droppedCount : ℕ) (results : List Reply) : Reply :=
  let currentStats := results.foldl (fun stats reply => combineInto stats reply.stats) Dict.empty
  let filterStats := results.foldl (fun stats reply =>
    reply.filterStats.foldl (fun stats f =>
      stats.set f.1 (combineInto ((stats.get? f.1).getD Dict.empty) f.2)) stats) Dict.empty
  { stats := getStats droppedCount currentStats
    filterStats := filterStats.entries.map fun f => (f.1, getStats droppedCount f.2) }

/-! ## What happens to an object -/

/-- The score of an object: `none` for an exception, nothing for an object that is not scored. -/
def score (turn : Turn F) (obj : Object) : Option (Option Float) :=
  if turn.modelled = false then some none
  else
    match features packages obj.attrs with
    | none => none
    | some none => some none
    | some (some vector) => (turn.getPrediction vector).map some

/-- An object with a low score. -/
def low (o : Turn F × Object) : Bool :=
  match score packages o.1 o.2 with
  | some (some pred) => !decide (pred > 0.85) && decide (pred < 0.4)
  | _ => false

/-- An object that is withheld. -/
def withheld (o : Turn F × Object) : Bool := low packages o && decide (o.1.sample > 0.02)

/-- An object with a low score that is sent all the same. -/
def sampled (o : Turn F × Object) : Bool := low packages o && !decide (o.1.sample > 0.02)

/-- An object whose features or score raise an exception. -/
def lost (o : Turn F × Object) : Bool := (score packages o.1 o.2).isNone

/-- A round counts the objects that are sent for their sample. -/
theorem round_spec (o : Turn F × Object) (droppedCount : ℕ) :
    (round packages o.1 o.2 droppedCount).2 = droppedCount + (sampled packages o).toNat ∧
      match (round packages o.1 o.2 droppedCount).1 with
      | .returned _ => withheld packages o = false ∧ lost packages o = false
      | .withheld => withheld packages o = true ∧ lost packages o = false
      | .raised => withheld packages o = false ∧ lost packages o = true := by
  unfold sampled withheld lost low score round
  by_cases hmodelled : o.1.modelled = false
  · simp [hmodelled]
  cases hfeatures : features packages o.2.attrs with
  | none => simp [hmodelled]
  | some found =>
    cases found with
    | none => simp [hmodelled]
    | some vector =>
      cases hpred : o.1.getPrediction vector with
      | none => simp [hmodelled, hpred]
      | some pred =>
        by_cases hhigh : pred > 0.85
        · simp [hmodelled, hpred, hhigh]
        by_cases hlow : pred < 0.4
        · by_cases hsample : o.1.sample > 0.02
          · simp [hmodelled, hpred, hhigh, hlow, hsample]
          · simp [hmodelled, hpred, hhigh, hlow, hsample]
        · simp [hmodelled, hpred, hhigh, hlow]

/-! ## Calls -/

/-- Objects that are taken off the front of the queue are returned, withheld or lost, and the sampled
ones are counted. -/
structure Accounts (objs taken rest : List (Turn F × Object)) (returned before after : ℕ) :
    Prop where
  /-- Off the front. -/
  split : objs = taken ++ rest
  /-- Returned, withheld or lost. -/
  ends : returned + taken.countP (withheld packages) + taken.countP (lost packages) = taken.length
  /-- The new `dropped_count`. -/
  counted : after = before + taken.countP (sampled packages)

variable {packages}

theorem Accounts.none (objs : List (Turn F × Object)) (count : ℕ) :
    Accounts packages objs [] objs 0 count count := ⟨rfl, rfl, rfl⟩

theorem Accounts.trans {objs taken rest taken' rest' : List (Turn F × Object)}
    {returned returned' before between after : ℕ}
    (h : Accounts packages objs taken rest returned before between)
    (h' : Accounts packages rest taken' rest' returned' between after) :
    Accounts packages objs (taken ++ taken') rest' (returned + returned') before after := by
  refine ⟨?_, ?_, ?_⟩
  · rw [h.split, h'.split, List.append_assoc]
  · rw [List.countP_append, List.countP_append, List.length_append, ← h.ends, ← h'.ends]
    omega
  · rw [h'.counted, h.counted, List.countP_append, Nat.add_assoc]

/-- One round. -/
theorem accounts_round {turn : Turn F} {obj : Object} (rest : List (Turn F × Object))
    {before after : ℕ} {outcome : Outcome}
    (h : round packages turn obj before = (outcome, after)) :
    Accounts packages ((turn, obj) :: rest) [(turn, obj)] rest
      (match outcome with | .returned _ => 1 | _ => 0) before after := by
  obtain ⟨hcount, hround⟩ := round_spec packages (turn, obj) before
  simp only [h] at hcount hround
  refine ⟨rfl, ?_, ?_⟩
  · cases outcome <;> simp [hround.1, hround.2]
  · rw [hcount, List.countP_singleton]
    cases sampled packages (turn, obj) <;> rfl

/-- A call takes an object when there is one, and waits only when there is none left. -/
theorem fetchObject_spec (objs : List (Turn F × Object)) (before : ℕ) :
    ∃ taken, Accounts packages objs taken (fetchObject packages objs before).pendingObjs
        ((fetchObject packages objs before).result.getD none).toList.length before
        (fetchObject packages objs before).droppedCount ∧
      (objs ≠ [] → taken ≠ []) ∧
      ((fetchObject packages objs before).result = none →
        (fetchObject packages objs before).pendingObjs = []) := by
  induction objs generalizing before with
  | nil => exact ⟨[], Accounts.none [] before, fun h => absurd rfl h, fun _ => rfl⟩
  | cons o rest ih =>
    obtain ⟨turn, obj⟩ := o
    rcases hround : round packages turn obj before with ⟨outcome, count⟩
    have haccounts := accounts_round rest hround
    cases outcome with
    | returned obj' =>
      rw [fetchObject, hround]
      exact ⟨_, haccounts, fun _ => List.cons_ne_nil _ _, fun h => nomatch h⟩
    | raised =>
      rw [fetchObject, hround]
      exact ⟨_, haccounts, fun _ => List.cons_ne_nil _ _, fun h => nomatch h⟩
    | withheld =>
      have hloop : fetchObject packages ((turn, obj) :: rest) before =
          fetchObject packages rest count := by rw [fetchObject, hround]
      obtain ⟨taken, hrest, -, hwaits⟩ := ih count
      rw [hloop]
      have htrans := haccounts.trans hrest
      rw [Nat.zero_add] at htrans
      exact ⟨_, htrans, fun _ => List.cons_ne_nil _ _, hwaits⟩

/-- As many calls as objects take them all. -/
theorem fetchObjects_spec (calls : ℕ) (objs : List (Turn F × Object)) (before : ℕ) :
    ∃ taken, Accounts packages objs taken (fetchObjects packages calls objs before).pendingObjs
        (fetchObjects packages calls objs before).returned.length before
        (fetchObjects packages calls objs before).droppedCount ∧
      (objs.length ≤ calls → (fetchObjects packages calls objs before).pendingObjs = []) := by
  induction calls generalizing objs before with
  | zero =>
    exact ⟨[], Accounts.none objs before, fun h => List.eq_nil_of_length_eq_zero (Nat.le_zero.mp h)⟩
  | succ calls ih =>
    obtain ⟨taken, hcall, hsome, hwaits⟩ := @fetchObject_spec F packages objs before
    rw [fetchObjects]
    cases hresult : (fetchObject packages objs before).result with
    | none =>
      rw [hresult] at hcall
      exact ⟨taken, hcall, fun _ => hwaits hresult⟩
    | some obj =>
      rw [hresult] at hcall
      obtain ⟨taken', hrun, hall⟩ := ih (fetchObject packages objs before).pendingObjs
        (fetchObject packages objs before).droppedCount
      refine ⟨taken ++ taken', ?_, fun hlength => hall ?_⟩
      · have htrans := hcall.trans hrun
        rwa [Option.getD_some, ← List.length_append] at htrans
      · by_cases hempty : objs = []
        · subst hempty
          cases hresult
        · have hpos := List.length_pos_of_ne_nil (hsome hempty)
          have hsplit := congrArg List.length hcall.split
          rw [List.length_append] at hsplit
          omega

/-! ## The balance -/

/-- The objects are taken, one call after the other. -/
def fetchAll (packages : Packages F) (objs : List (Turn F × Object)) (droppedCount : ℕ) : Run F :=
  fetchObjects packages objs.length objs droppedCount

theorem accounts_fetchAll (packages : Packages F) (objs : List (Turn F × Object)) (before : ℕ) :
    (fetchAll packages objs before).pendingObjs = [] ∧
      Accounts packages objs objs [] (fetchAll packages objs before).returned.length before
        (fetchAll packages objs before).droppedCount := by
  obtain ⟨taken, haccounts, hall⟩ := @fetchObjects_spec F packages objs.length objs before
  have hempty := hall le_rfl
  rw [hempty] at haccounts
  have htaken := haccounts.split
  rw [List.append_nil] at htaken
  exact ⟨hempty, htaken ▸ haccounts⟩

/-- `objs_dropped` in some statistics. -/
def objsDropped (reply : Reply) : Option ℤ := find reply.stats "objs_dropped"

/-- The statistic is the sum over the servers with the count of the proxy. -/
theorem objsDropped_requestStats (droppedCount : ℕ) (results : List Reply) :
    objsDropped (requestStats droppedCount results) =
      ((results.foldl (fun stats reply => combineInto stats reply.stats) Dict.empty).get?
        "objs_dropped").map (· + (droppedCount : ℤ)) := by
  have hreported : reported droppedCount "objs_dropped" = (· + (droppedCount : ℤ)) := by
    funext value
    have hprevious : previousStats.get? "objs_dropped" = some 0 := rfl
    have hother : "objs_dropped" ≠ "objs_processed" := by decide
    simp only [reported, if_neg hother, if_true, hprevious, Option.getD_some, Int.sub_zero]
  unfold objsDropped requestStats getStats Dict.get?
  rw [find_map, hreported]

/-- As many objects are taken as are returned or counted as dropped, and the statistic grows by the
number of objects that are not returned. -/
structure Balanced (packages : Packages F) (objs : List (Turn F × Object)) (before : ℕ) : Prop where
  /-- Taken, returned and dropped. -/
  count : objs.length + before =
    (fetchAll packages objs before).returned.length + (fetchAll packages objs before).droppedCount
  /-- The statistic, when the servers keep it. -/
  statistic : ∀ results value, objsDropped (requestStats before results) = some value →
    objsDropped (requestStats (fetchAll packages objs before).droppedCount results) =
      some (value + ((objs.length : ℤ) - (fetchAll packages objs before).returned.length))

/-- The balance is right when as many objects are sampled as are withheld or lost. -/
theorem balanced_iff_countP (packages : Packages F) (objs : List (Turn F × Object)) (before : ℕ) :
    Balanced packages objs before ↔
      objs.countP (withheld packages) + objs.countP (lost packages) =
        objs.countP (sampled packages) := by
  have haccounts := (accounts_fetchAll packages objs before).2
  have hends := haccounts.ends
  have hcounted := haccounts.counted
  constructor
  · intro h
    have hcount := h.count
    omega
  · intro h
    have hcount : objs.length + before = (fetchAll packages objs before).returned.length +
        (fetchAll packages objs before).droppedCount := by omega
    refine ⟨hcount, fun results value hvalue => ?_⟩
    rw [objsDropped_requestStats] at hvalue ⊢
    obtain ⟨total, htotal, rfl⟩ := Option.map_eq_some_iff.mp hvalue
    rw [htotal, Option.map_some]
    congr 1
    omega

theorem low_eq (o : Turn F × Object) : low packages o = (withheld packages o || sampled packages o) := by
  unfold withheld sampled
  cases low packages o <;> cases decide (o.1.sample > 0.02) <;> rfl

/-- An object has one fate. -/
theorem not_low_and_lost_iff (o : Turn F × Object) :
    low packages o = false ∧ lost packages o = false ↔
      (withheld packages o).toNat + (lost packages o).toNat = (sampled packages o).toNat := by
  have hlost : lost packages o = true → low packages o = false := by
    unfold lost low
    intro h
    rw [Option.isNone_iff_eq_none.mp h]
  unfold withheld sampled
  cases hlow : low packages o with
  | false => cases lost packages o <;> simp
  | true =>
    have hfound : lost packages o = false := Bool.eq_false_iff.mpr fun h => by
      rw [hlost h] at hlow
      cases hlow
    rw [hfound]
    cases decide (o.1.sample > 0.02) <;> simp

/-- For objects taken off the queue one after the other, the balance is right at the end exactly
when as many objects are sampled as are withheld or lost. At every time in between it is right
exactly when no object has a low score or is lost. -/
theorem balanced_iff (packages : Packages F) (objs : List (Turn F × Object)) (before : ℕ) :
    (fetchAll packages objs before).pendingObjs = [] ∧
      (Balanced packages objs before ↔
        objs.countP (withheld packages) + objs.countP (lost packages) =
          objs.countP (sampled packages)) ∧
      ((∀ earlier, earlier <+: objs → Balanced packages earlier before) ↔
        ∀ o ∈ objs, low packages o = false ∧ lost packages o = false) := by
  refine ⟨(accounts_fetchAll packages objs before).1, balanced_iff_countP packages objs before, ?_⟩
  have hone : ∀ (fate : Turn F × Object → Bool) o, [o].countP fate = (fate o).toNat := by
    intro fate o
    rw [List.countP_singleton]
    cases fate o <;> rfl
  simp only [balanced_iff_countP]
  constructor
  · intro h o ho
    obtain ⟨earlier, later, rfl⟩ := List.append_of_mem ho
    have hbefore := h earlier (List.prefix_append _ _)
    have hafter := h (earlier ++ [o]) ⟨later, by rw [List.append_assoc]; rfl⟩
    simp only [List.countP_append, hone] at hafter
    exact (not_low_and_lost_iff o).mpr (by omega)
  · intro h earlier hearlier
    have hnone : ∀ fate : Turn F × Object → Bool, (∀ o ∈ objs, fate o = false) →
        earlier.countP fate = 0 := fun fate hfate =>
      List.countP_eq_zero.mpr fun o ho => by
        rw [hfate o (hearlier.sublist.mem ho)]
        exact Bool.false_ne_true
    have hlow := fun o ho => @low_eq F packages o ▸ (h o ho).1
    rw [hnone _ fun o ho => (Bool.or_eq_false_iff.mp (hlow o ho)).1,
      hnone _ fun o ho => (Bool.or_eq_false_iff.mp (hlow o ho)).2, hnone _ fun o ho => (h o ho).2]

/-- Packages that find a vector in every value. -/
def samplePackages : Packages Unit where
  loads _ := some ()
  str _ := "[0.1]"

/-- An object with features and a score of 0.1, at some sample. -/
def unlikely (sample : Float) : Turn Unit × Object :=
  (⟨true, fun _ => some 0.1, sample⟩, ⟨[⟨"feature_vector.json", "[1]".toUTF8.toList⟩]⟩)

/-- Of two objects with a low score, the one that is withheld is not counted as dropped, and the one
that is sent is. -/
theorem withheld_not_counted :
    (fetchAll samplePackages [unlikely 0.5] 0).returned.length = 0 ∧
      (fetchAll samplePackages [unlikely 0.5] 0).droppedCount = 0 ∧
      (fetchAll samplePackages [unlikely 0.01] 0).returned.length = 1 ∧
      (fetchAll samplePackages [unlikely 0.01] 0).droppedCount = 1 := by
  decide +kernel

end OpenDiamond.ProxyBlast
