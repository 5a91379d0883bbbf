import Mathlib.Data.Finset.Basic
import Mathlib.Data.Finset.Lattice.Lemmas
import OpenDiamond.FilterProtocol

/-!
# Recorded results and the attribute cache

What `evaluate` records of a deterministic filter, and what
`_attribute_cache_try_load` makes of the record on another state of the
object. The course of a filter on an object is the list of its reads, writes
and omits with the answers they got. The record keeps the signature of the
last read under each name and of the last write under each name; it does not
keep the replies to omit requests, nor a read that a later read of the same
name replaced.
-/

namespace OpenDiamond.AttributeCache

open Lib.OrderedDict Lib.Binary64 DiamondObject FilterProtocol

variable {m : Murmur} {σ : Type}

/-! ## Deterministic filters -/

/-- The commands whose answers depend on the object alone, with readable
items. -/
def Local : Command → Prop
  | .getAttribute key => key.isSome
  | .setAttribute key _ => key.isSome
  | .omitAttribute key => key.isSome
  | .log level message => level.isSome ∧ message.isSome
  | .stdout text => text.isSome
  | _ => False

/-- The filter's behaviour on an object is a function of the answers about
that object. It may die on an object. -/
def Deterministic : Proc σ → Prop
  | .emit cmd next => Local cmd ∧ ∀ r, cmd.Admits r → Deterministic (next r)
  | .finish score _ => score.isSome
  | .exit => True

/-- A request about the object together with its answer. -/
inductive Event where
  | read (key : String) (value : Option Bytes)
  | wrote (key : String) (value : Bytes)
  | omitted (key : String) (reply : Bool)
  deriving DecidableEq

/-- What a command and its reply show about the object. -/
def observe : Command → Reply → List Event
  | .getAttribute (some key), .item value => [.read key value]
  | .setAttribute (some key) value, .nothing => [.wrote key value]
  | .omitAttribute (some key), .boolean reply => [.omitted key reply]
  | _, _ => []

/-- The events of a filter on an object and its score, none if it dies. -/
def course : Proc σ → Object m → List Event × Option Double
  | .emit cmd next, obj =>
    match answer noServices obj () cmd with
    | some (r, obj', _) =>
      let tail := course (next r) obj'
      (observe cmd r ++ tail.1, tail.2)
    | none => ([], none)
  | .finish score _, _ => ([], score)
  | .exit, _ => ([], none)

/-- The effect of an event on an object and on the record of it. -/
def apply (st : Object m × FilterResult) : Event → Object m × FilterResult
  | .read key value => (st.1, { st.2 with
      inputAttrs := st.2.inputAttrs.set key (value.map (signatureOf m st.1.computeSignature)) })
  | .wrote key value => (st.1.setItem key value, { st.2 with
      outputAttrs := st.2.outputAttrs.set key (signatureOf m st.1.computeSignature value) })
  | .omitted key true => ({ st.1 with omitAttrs := insert key st.1.omitAttrs },
      { st.2 with omitAttrs := insert key st.2.omitAttrs })
  | .omitted _ false => st

/-- The effect of a list of events. -/
def replay (st : Object m × FilterResult) (events : List Event) : Object m × FilterResult :=
  events.foldl apply st

/-- Every request would get, on this object, the answer it got. -/
def Answered : Object m → List Event → Prop
  | _, [] => True
  | obj, .read key value :: rest => obj.attrs.get? key = value ∧ Answered obj rest
  | obj, .wrote key value :: rest => Answered (obj.setItem key value) rest
  | obj, .omitted key reply :: rest => obj.contains key = reply ∧ Answered obj rest

/-- Answers depend on the attributes only. -/
theorem answered_congr {a b : Object m} (h : a.SameAttrs b) (events : List Event) :
    Answered a events ↔ Answered b events := by
  induction events generalizing a b with
  | nil => exact Iff.rfl
  | cons event rest ih =>
    cases event with
    | read key value => simp only [Answered, h key, ih h]
    | wrote key value =>
      refine ih fun key' => ?_
      simp only [Object.setItem_attrs, Dict.get?_set, h key']
    | omitted key reply => simp only [Answered, Object.contains, h key, ih h]

/-- The loop answers a command of a deterministic filter, and its effect is
that of the event. -/
theorem handle_local (st : LoopState m Unit) {cmd : Command} (hc : Local cmd) :
    ∃ r obj st', answer noServices st.obj () cmd = some (r, obj, ()) ∧ cmd.Admits r ∧
      handle noServices st cmd = .reply r st' ∧ st'.obj = obj ∧
      st'.initialized = st.initialized ∧
      (st'.obj, st'.result) = replay (st.obj, st.result) (observe cmd r) := by
  cases cmd with
  | getAttribute key =>
    obtain ⟨key, rfl⟩ := Option.isSome_iff_exists.mp hc
    simp only [answer, handle, Option.map_some]
    have hsig := st.obj.getSignature_eq key
    cases hv : st.obj.attrs.get? key with
    | none => exact ⟨_, _, _, rfl, trivial, rfl, rfl, rfl, rfl⟩
    | some value =>
      refine ⟨_, _, _, rfl, trivial, rfl, rfl, rfl, ?_⟩
      rw [hv] at hsig
      simp only [hsig]
      rfl
  | setAttribute key value =>
    obtain ⟨key, rfl⟩ := Option.isSome_iff_exists.mp hc
    exact ⟨_, _, _, rfl, trivial, rfl, rfl, rfl, rfl⟩
  | omitAttribute key =>
    obtain ⟨key, rfl⟩ := Option.isSome_iff_exists.mp hc
    simp only [answer, handle, Option.map_some]
    cases ho : st.obj.omitAttr key with
    | none => exact ⟨_, _, _, rfl, trivial, rfl, rfl, rfl, rfl⟩
    | some obj =>
      refine ⟨_, _, _, rfl, trivial, rfl, rfl, rfl, ?_⟩
      rw [(Object.omitAttr_eq_some.mp ho).2]
      rfl
  | log level message =>
    obtain ⟨level, rfl⟩ := Option.isSome_iff_exists.mp hc.1
    obtain ⟨message, rfl⟩ := Option.isSome_iff_exists.mp hc.2
    exact ⟨_, _, _, rfl, trivial, rfl, rfl, rfl, rfl⟩
  | stdout text =>
    obtain ⟨text, rfl⟩ := Option.isSome_iff_exists.mp hc
    exact ⟨_, _, _, rfl, trivial, rfl, rfl, rfl, rfl⟩
  | _ => exact hc.elim

/-- Events are replayed in their order. -/
theorem replay_append (st : Object m × FilterResult) (first second : List Event) :
    replay st (first ++ second) = replay (replay st first) second :=
  List.foldl_append

/-- How the loop ends on a deterministic filter: with the score at the end of
its course, or with the object dropped where the filter dies. -/
theorem commandLoop_course {proc : Proc σ} (hp : Deterministic proc) (st : LoopState m Unit)
    (hi : st.initialized = true) :
    match (course proc st.obj).2 with
    | some score => ∃ s, (commandLoop noServices proc st).ending = .finished s ∧
        (commandLoop noServices proc st).state.initialized = true ∧
        (commandLoop noServices proc st).state.obj =
          (replay (st.obj, st.result) (course proc st.obj).1).1 ∧
        (commandLoop noServices proc st).state.result =
          { (replay (st.obj, st.result) (course proc st.obj).1).2 with score }
    | none => (commandLoop noServices proc st).ending = .raised .dropObject := by
  induction proc generalizing st with
  | emit cmd next ih =>
    obtain ⟨hc, hn⟩ := hp
    obtain ⟨r, obj, st', ha, hadm, hh, rfl, hi', heff⟩ := handle_local st hc
    have htail := ih r (hn r hadm) st' (hi'.trans hi)
    rw [heff] at htail
    simp only [course, ha, commandLoop, hh, replay_append]
    exact htail
  | finish score s =>
    obtain ⟨score, rfl⟩ := Option.isSome_iff_exists.mp hp
    exact ⟨s, rfl, hi, rfl, rfl⟩
  | exit => simp [course, commandLoop, hi]

/-- `_FilterRunner.evaluate` of a filter that treats every object by `body`,
on a live connection. -/
def evaluateBody (body : Proc Unit) (slow : Bool) (obj : Object m) : EvaluateReport m Unit Unit :=
  evaluate noServices ⟨body, fun _ => body⟩ (some ⟨body, true⟩) slow obj ()

/-- The call returns the record of the course, or drops the object. -/
theorem evaluateBody_course {body : Proc Unit} (hb : Deterministic body) (slow : Bool)
    (obj : Object m) :
    match (course body obj).2 with
    | some score => (evaluateBody body slow obj).outcome =
          .ok { (replay (obj, .new) (course body obj).1).2 with score, cacheOutput := slow } ∧
        (evaluateBody body slow obj).obj = (replay (obj, .new) (course body obj).1).1
    | none => (evaluateBody body slow obj).outcome = .error .dropObject := by
  have h := commandLoop_course hb (⟨obj, .new, (), true⟩ : LoopState m Unit) rfl
  simp only [evaluateBody, evaluate, concluded, Option.getD_some]
  cases hs : (course body obj).2 with
  | none =>
    simp only [hs] at h
    simp only [h]
  | some score =>
    simp only [hs] at h
    obtain ⟨s, he, _, ho, hr⟩ := h
    simp only [he, ho, hr, and_self]

/-! ## Courses and answers -/

/-- An omission is answered with whether the attribute is there, and noted only then. -/
theorem answer_omitAttribute (obj : Object m) (key : String) :
    answer noServices obj () (.omitAttribute (some key)) =
      some (.boolean (obj.contains key),
        if obj.contains key then { obj with omitAttrs := insert key obj.omitAttrs } else obj,
        ()) := by
  simp only [answer, Option.map_some, Object.omitAttr]
  cases obj.contains key <;> rfl

/-- An omission changes no attribute. -/
theorem sameAttrs_omit (obj : Object m) (key : String) (b : Bool) :
    Object.SameAttrs
      (if b then { obj with omitAttrs := insert key obj.omitAttrs } else obj) obj := by
  intro key'
  cases b <;> rfl

/-- A course is answered by the object it was taken on. -/
theorem answered_course {proc : Proc σ} (hp : Deterministic proc) (obj : Object m) :
    Answered obj (course proc obj).1 := by
  induction proc generalizing obj with
  | emit cmd next ih =>
    obtain ⟨hc, hn⟩ := hp
    cases cmd with
    | getAttribute key =>
      obtain ⟨key, rfl⟩ := Option.isSome_iff_exists.mp hc
      exact ⟨rfl, ih (.item _) (hn _ trivial) obj⟩
    | setAttribute key value =>
      obtain ⟨key, rfl⟩ := Option.isSome_iff_exists.mp hc
      exact ih .nothing (hn _ trivial) (obj.setItem key value)
    | omitAttribute key =>
      obtain ⟨key, rfl⟩ := Option.isSome_iff_exists.mp hc
      simp only [course, answer_omitAttribute]
      refine ⟨rfl, ?_⟩
      exact (answered_congr (sameAttrs_omit obj key _) _).mp (ih (.boolean _) (hn _ trivial) _)
    | log level message => exact ih .nothing (hn _ trivial) obj
    | stdout text => exact ih .nothing (hn _ trivial) obj
    | _ => exact hc.elim
  | finish score s => exact trivial
  | exit => exact trivial

/-- A filter takes the same course on every object that gives it the same
answers. -/
theorem course_of_answered {proc : Proc σ} (hp : Deterministic proc) {obj₀ obj : Object m}
    (h : Answered obj (course proc obj₀).1) : course proc obj = course proc obj₀ := by
  induction proc generalizing obj₀ obj with
  | emit cmd next ih =>
    obtain ⟨hc, hn⟩ := hp
    cases cmd with
    | getAttribute key =>
      obtain ⟨key, rfl⟩ := Option.isSome_iff_exists.mp hc
      obtain ⟨hv, hrest⟩ := h
      have htail := ih (.item (obj₀.attrs.get? key)) (hn _ trivial) hrest
      simp only [course, answer, Option.map_some, hv, htail]
    | setAttribute key value =>
      obtain ⟨key, rfl⟩ := Option.isSome_iff_exists.mp hc
      have htail : course (next .nothing) (obj.setItem key value) =
          course (next .nothing) (obj₀.setItem key value) := ih .nothing (hn _ trivial) h
      simp only [course, answer, Option.map_some, htail]
    | omitAttribute key =>
      obtain ⟨key, rfl⟩ := Option.isSome_iff_exists.mp hc
      simp only [course, answer_omitAttribute] at h ⊢
      obtain ⟨hb, hrest⟩ := h
      have hrest' := (answered_congr (sameAttrs_omit obj key (obj₀.contains key)) _).mpr hrest
      rw [hb, ih (.boolean _) (hn _ trivial) hrest']
    | log level message =>
      have htail : course (next .nothing) obj = course (next .nothing) obj₀ :=
        ih .nothing (hn _ trivial) h
      simp only [course, answer, htail]
    | stdout text =>
      have htail : course (next .nothing) obj = course (next .nothing) obj₀ :=
        ih .nothing (hn _ trivial) h
      simp only [course, answer, htail]
    | _ => exact hc.elim
  | finish score s => rfl
  | exit => rfl

/-! ## What the record keeps -/

/-- The value a list of events leaves under a name, if it writes the name. -/
def lastWrite : List Event → String → Option Bytes
  | [], _ => none
  | .wrote key value :: rest, key' =>
    (lastWrite rest key').or (if key = key' then some value else none)
  | _ :: rest, key' => lastWrite rest key'

/-- The names omitted successfully. -/
def omits : List Event → Finset String
  | [] => ∅
  | .omitted key true :: rest => insert key (omits rest)
  | _ :: rest => omits rest

/-- The attributes, the omit set and the two dictionaries after a replay. -/
theorem replay_spec (st : Object m × FilterResult) (events : List Event) :
    (replay st events).1.computeSignature = st.1.computeSignature ∧
      (∀ key, (replay st events).1.attrs.get? key =
        (lastWrite events key).or (st.1.attrs.get? key)) ∧
      (replay st events).1.omitAttrs = st.1.omitAttrs ∪ omits events ∧
      (∀ key, (replay st events).2.outputAttrs.get? key =
        ((lastWrite events key).map (signatureOf m st.1.computeSignature)).or
          (st.2.outputAttrs.get? key)) ∧
      (replay st events).2.omitAttrs = st.2.omitAttrs ∪ omits events := by
  induction events generalizing st with
  | nil => simp [replay, lastWrite, omits]
  | cons event rest ih =>
    obtain ⟨h1, h2, h3, h4, h5⟩ := ih (apply st event)
    have hcons : replay st (event :: rest) = replay (apply st event) rest := rfl
    rw [hcons]
    cases event with
    | read key value => exact ⟨h1, h2, h3, h4, h5⟩
    | wrote key value =>
      refine ⟨h1, fun key' => ?_, h3, fun key' => ?_, h5⟩
      · rw [h2]
        simp only [apply, Object.setItem_attrs, Dict.get?_set, lastWrite]
        by_cases hk : key = key' <;> cases lastWrite rest key' <;> simp [hk]
      · rw [h4]
        simp only [apply, Object.setItem_computeSignature, Dict.get?_set, lastWrite]
        by_cases hk : key = key' <;> cases lastWrite rest key' <;> simp [hk]
    | omitted key reply =>
      cases reply with
      | false => exact ⟨h1, h2, h3, h4, h5⟩
      | true =>
        refine ⟨h1, h2, ?_, h4, ?_⟩
        · rw [h3]
          simp only [apply, omits, Finset.insert_union, Finset.union_insert]
        · rw [h5]
          simp only [apply, omits, Finset.insert_union, Finset.union_insert]

/-- A name that was omitted is in the object when the events are over. -/
theorem isSome_of_mem_omits {events : List Event} {obj : Object m} (h : Answered obj events)
    {key : String} (hk : key ∈ omits events) :
    ((lastWrite events key).or (obj.attrs.get? key)).isSome := by
  induction events generalizing obj with
  | nil => simp [omits] at hk
  | cons event rest ih =>
    cases event with
    | read key' value => exact ih h.2 hk
    | wrote key' value =>
      have htail := ih h hk
      simp only [Object.setItem_attrs, Dict.get?_set] at htail
      simp only [lastWrite]
      by_cases he : key' = key
      · simp [he]
      · simpa [he] using htail
    | omitted key' reply =>
      cases reply with
      | false => exact ih h.2 hk
      | true =>
        rcases Finset.mem_insert.mp hk with rfl | hk
        · have hpresent : (obj.attrs.get? key).isSome = true := h.1
          simp only [lastWrite, Option.isSome_or, hpresent, Bool.or_true]
        · exact ih h.2 hk

/-! ## Loading a result -/

/-- The entries of the Redis database, by kind. A stored result is the record
its JSON text encodes. -/
structure Redis where
  /-- `result:` keys. -/
  results : Dict String FilterResult
  /-- `attribute:` keys. -/
  attributes : Dict String Bytes

/-- The empty database. -/
def Redis.empty : Redis := ⟨Dict.empty, Dict.empty⟩

/-- Every attribute entry is filed under the signature of its value. -/
def Redis.ContentAddressed (m : Murmur) (redis : Redis) : Prop :=
  ∀ key value, redis.attributes.get? key = some value → key = "attribute:" ++ m.hash value

/-- `_get_attribute_key`; only a digest has one. -/
def getAttributeKey : Signature → Option String
  | .digest hex => some ("attribute:" ++ hex)
  | .unsigned => none

/-- The cached value with a signature. -/
def cachedValue (redis : Option Redis) (sig : Signature) : Option Bytes :=
  redis.bind fun redis => (getAttributeKey sig).bind redis.attributes.get?

/-- Every recorded input is what the object holds now: absent where the read
failed, of the same signature where it did not. -/
def inputsMatch (obj : Object m) (result : FilterResult) : Bool :=
  result.inputAttrs.entries.all fun
    | (key, none) => !obj.contains key
    | (key, some sig) => obj.contains key && obj.getSignature key == some sig

/-- The cached values of all outputs; none if one of them is missing. -/
def cachedOutputs (redis : Option Redis) (result : FilterResult) :
    Option (List (String × Bytes)) :=
  result.outputAttrs.entries.mapM fun entry => (cachedValue redis entry.2).map (Prod.mk entry.1)

/-- `_attribute_cache_try_load`: the loaded object, or none for False. An
omit that cannot be made is only logged. -/
def attributeCacheTryLoad (redis : Option Redis) (obj : Object m) (result : FilterResult) :
    Option (Object m) :=
  if inputsMatch obj result then
    (cachedOutputs redis result).map fun items =>
      let obj := obj.setItems items
      { obj with
        omitAttrs := obj.omitAttrs ∪ result.omitAttrs.filter fun key => obj.contains key }
  else none

/-- What comes back from the cache for a stored result. -/
def stored (result : FilterResult) : FilterResult :=
  { result with cacheOutput := false }

/-- Where a value can be made of every entry, each key has the value made of its own. -/
theorem find_mapM_entries {α β γ : Type*} [DecidableEq α] (f : β → Option γ)
    {entries : List (α × β)} {items : List (α × γ)}
    (h : entries.mapM (fun entry => (f entry.2).map (Prod.mk entry.1)) = some items) :
    items.map Prod.fst = entries.map Prod.fst ∧
      ∀ key, find items key = (find entries key).bind f := by
  induction entries generalizing items with
  | nil =>
    simp only [List.mapM_nil, Option.pure_def, Option.some.injEq] at h
    subst h
    exact ⟨rfl, fun _ => rfl⟩
  | cons entry rest ih =>
    rcases entry with ⟨k, v⟩
    simp only [List.mapM_cons, Option.bind_eq_bind, Option.bind_eq_some_iff,
      Option.map_eq_some_iff, Option.pure_def, Option.some.injEq] at h
    obtain ⟨_, ⟨w, hw, rfl⟩, items', hitems, rfl⟩ := h
    obtain ⟨hkeys, hfind⟩ := ih hitems
    refine ⟨by simp [hkeys], fun key => ?_⟩
    by_cases hk : k = key
    · simp [find, hk, hw]
    · simp [find, hk, hfind key]

/-- A loaded object holds the cached outputs over its own attributes. -/
theorem tryLoad_spec {redis : Option Redis} {obj loaded : Object m} {result : FilterResult}
    (h : attributeCacheTryLoad redis obj result = some loaded) :
    (∀ key, (result.outputAttrs.get? key).isSome →
      ((result.outputAttrs.get? key).bind (cachedValue redis)).isSome) ∧
    (∀ key, loaded.attrs.get? key =
      ((result.outputAttrs.get? key).bind (cachedValue redis)).or (obj.attrs.get? key)) ∧
    loaded.omitAttrs = obj.omitAttrs ∪ result.omitAttrs.filter fun key => loaded.contains key := by
  unfold attributeCacheTryLoad at h
  split at h
  · obtain ⟨items, hitems, rfl⟩ := Option.map_eq_some_iff.mp h
    obtain ⟨hkeys, hfind⟩ := find_mapM_entries (cachedValue redis) hitems
    obtain ⟨_, _, homit, hattrs⟩ := obj.setItems_spec items
    have hnodup : (items.map Prod.fst).Nodup := hkeys ▸ result.outputAttrs.nodup
    refine ⟨fun key hk => ?_, fun key => ?_, ?_⟩
    · rw [Dict.get?, ← hfind key]
      rw [← Dict.mem_keys_iff, Dict.keys, ← hkeys] at hk
      by_contra hnone
      rw [Bool.not_eq_true, Option.isSome_eq_false_iff, Option.isNone_iff_eq_none,
        find_eq_none_iff] at hnone
      exact hnone hk
    · show (obj.setItems items).attrs.get? key = _
      rw [hattrs, Dict.get?_setAll hnodup, hfind key]
      rfl
    · show (obj.setItems items).omitAttrs ∪ _ = _
      rw [homit]
      rfl
  · cases h

/-! ## Loading against running -/

/-- The object loaded from a result and the score of the result are those the
filter would produce from the same object. -/
def LoadedAsRun (body : Proc Unit) (obj loaded : Object m) (result : FilterResult) : Prop :=
  ∃ fresh, (evaluateBody body false obj).outcome = .ok fresh ∧ fresh.score = result.score ∧
    (evaluateBody body false obj).obj.SameAttrs loaded ∧
    (evaluateBody body false obj).obj.omitAttrs = loaded.omitAttrs

/-- The result recorded by a completed evaluation has the score that the filter gave at the end, and
the record of the events on the way. -/
theorem outcome_ok_iff {body : Proc Unit} (hb : Deterministic body) (slow : Bool)
    (obj : Object m) (result : FilterResult) :
    (evaluateBody body slow obj).outcome = .ok result ↔
      ∃ score, (course body obj).2 = some score ∧
        result = { (replay (obj, .new) (course body obj).1).2 with
          score, cacheOutput := slow } := by
  have h := evaluateBody_course hb slow obj
  cases hs : (course body obj).2 with
  | none => simp_all
  | some score =>
    simp only [hs] at h
    rw [h.1]
    simp [eq_comm]

/-- On an object that gives the recorded answers, loading the result is
running the filter. -/
theorem loadedAsRun_of_answered (hm : Function.Injective m.hash) {redis : Redis}
    (hredis : redis.ContentAddressed m) {body : Proc Unit} (hb : Deterministic body)
    {obj₀ obj loaded : Object m} (hsig₀ : obj₀.computeSignature = true)
    {slow : Bool} {result : FilterResult}
    (hrec : (evaluateBody body slow obj₀).outcome = .ok result)
    (hload : attributeCacheTryLoad (some redis) obj (stored result) = some loaded)
    (hans : Answered obj (course body obj₀).1) : LoadedAsRun body obj loaded result := by
  obtain ⟨score, hscore, rfl⟩ := (outcome_ok_iff hb slow obj₀ result).mp hrec
  obtain ⟨hall, hattrs, homit⟩ := tryLoad_spec hload
  have hcourse := course_of_answered hb hans
  have hrun := evaluateBody_course hb false obj
  rw [hcourse, hscore] at hrun
  obtain ⟨_, _, _, hout₀, homits₀⟩ := replay_spec (obj₀, .new) (course body obj₀).1
  obtain ⟨_, hget, hset, _, _⟩ := replay_spec (obj, .new) (course body obj₀).1
  have hsame : (replay (obj, FilterResult.new) (course body obj₀).1).1.SameAttrs loaded := by
    intro key
    rw [hget, hattrs]
    simp only [stored] at hall ⊢
    have hall := hall key
    rw [hout₀ key] at hall ⊢
    cases hw : lastWrite (course body obj₀).1 key with
    | none => simp [FilterResult.new]
    | some value =>
      simp only [hw, Option.map_some, Option.or, Option.isSome_some, Option.bind_some,
        forall_const, signatureOf, hsig₀, if_true] at hall ⊢
      obtain ⟨value', hv⟩ := Option.isSome_iff_exists.mp hall
      rw [hv]
      -- the entry is filed under the signature of the value it holds
      have hkey := hredis _ _ hv
      have hhash : m.hash value = m.hash value' := by simpa using hkey
      rw [hm hhash]
  refine ⟨_, hrun.1, rfl, ?_, ?_⟩
  · rw [hrun.2]
    exact hsame
  · rw [hrun.2, hset, homit]
    simp only [stored, homits₀]
    congr 1
    ext key
    simp only [FilterResult.new, Finset.empty_union, Finset.mem_filter]
    refine ⟨fun hk => ⟨hk, ?_⟩, fun hk => hk.1⟩
    rw [Object.contains, ← hsame key, hget]
    exact isSome_of_mem_omits hans hk

/-- A filter that makes the requests of a list of events, scores `score` if
all answers are those of the list and `other` at the first that is not. -/
def script (score other : Double) : List Event → Proc Unit
  | [] => .finish (some score) ()
  | .read key value :: rest => .emit (.getAttribute (some key)) fun
    | .item value' => if value' = value then script score other rest else .finish (some other) ()
    | _ => .finish (some other) ()
  | .wrote key value :: rest => .emit (.setAttribute (some key) value) fun _ =>
    script score other rest
  | .omitted key reply :: rest => .emit (.omitAttribute (some key)) fun
    | .boolean reply' => if reply' = reply then script score other rest else .finish (some other) ()
    | _ => .finish (some other) ()

/-- A filter that repeats a record says the same whenever it is told the same. -/
theorem deterministic_script (score other : Double) (events : List Event) :
    Deterministic (script score other events) := by
  induction events with
  | nil => exact rfl
  | cons event rest ih =>
    cases event with
    | read key value =>
      refine ⟨rfl, fun r hr => ?_⟩
      cases r <;> simp only [Command.Admits] at hr
      dsimp only
      split
      · exact ih
      · exact rfl
    | wrote key value => exact ⟨rfl, fun _ _ => ih⟩
    | omitted key reply =>
      refine ⟨rfl, fun r hr => ?_⟩
      cases r <;> simp only [Command.Admits] at hr
      dsimp only
      split
      · exact ih
      · exact rfl

/-- The script runs to its end exactly on the objects that give the answers. -/
theorem course_script (score other : Double) (events : List Event) (obj : Object m) :
    (Answered obj events → course (script score other events) obj = (events, some score)) ∧
      (¬Answered obj events → (course (script score other events) obj).2 = some other) := by
  induction events generalizing obj with
  | nil => exact ⟨fun _ => rfl, fun h => (h trivial).elim⟩
  | cons event rest ih =>
    cases event with
    | read key value =>
      obtain ⟨hyes, hno⟩ := ih obj
      simp only [script, course, answer, Option.map_some, Answered]
      by_cases hv : obj.attrs.get? key = value
      · simp only [hv, if_true, true_and]
        exact ⟨fun h => by rw [hyes h]; rfl, hno⟩
      · simp only [hv, if_false, false_and, false_implies, true_and]
        exact fun _ => rfl
    | wrote key value =>
      obtain ⟨hyes, hno⟩ := ih (obj.setItem key value)
      simp only [script, course, answer, Option.map_some, Answered]
      exact ⟨fun h => by rw [hyes h]; rfl, hno⟩
    | omitted key reply =>
      simp only [script, course, answer_omitAttribute, Answered]
      by_cases hb : obj.contains key = reply
      · obtain ⟨hyes, hno⟩ := ih
          (if obj.contains key then { obj with omitAttrs := insert key obj.omitAttrs } else obj)
        rw [answered_congr (sameAttrs_omit obj key _)] at hyes hno
        simp only [hb, if_true, true_and]
        simp only [hb] at hyes hno
        exact ⟨fun h => by rw [hyes h]; rfl, hno⟩
      · simp only [hb, if_false, false_and, false_implies, true_and]
        exact fun _ => rfl

/-- Loading a recorded result equals running the filter, for every filter the
record may come from, exactly when the object gives every answer of the
recorded course: also the replies to its omit requests, and the reads that
the record lost because the filter read the name again after writing it. -/
theorem loadedAsRun_iff_answered (hm : Function.Injective m.hash) {redis : Redis}
    (hredis : redis.ContentAddressed m) {body : Proc Unit} (hb : Deterministic body)
    {obj₀ obj loaded : Object m} (hsig₀ : obj₀.computeSignature = true)
    {slow : Bool} {result : FilterResult}
    (hrec : (evaluateBody body slow obj₀).outcome = .ok result)
    (hload : attributeCacheTryLoad (some redis) obj (stored result) = some loaded) :
    (∀ body', Deterministic body' → course body' obj₀ = course body obj₀ →
        LoadedAsRun body' obj loaded result) ↔
      Answered obj (course body obj₀).1 := by
  obtain ⟨score, hscore, hresult⟩ := (outcome_ok_iff hb slow obj₀ result).mp hrec
  constructor
  · intro hall
    by_contra hans
    obtain ⟨other, hother⟩ : ∃ other : Double, other ≠ score := by
      by_cases h : score = .one
      · exact ⟨.zero, by rw [h]; decide⟩
      · exact ⟨.one, Ne.symm h⟩
    have hself := (course_script score other (course body obj₀).1 obj₀).1
      (answered_course hb obj₀)
    have hrun := (course_script score other (course body obj₀).1 obj).2 hans
    obtain ⟨fresh, hfresh, hsame, _⟩ := hall _ (deterministic_script score other _)
      (by rw [hself, ← hscore])
    obtain ⟨score', hs', rfl⟩ := (outcome_ok_iff (deterministic_script _ _ _) _ _ _).mp hfresh
    rw [hrun, Option.some.injEq] at hs'
    subst hs'
    rw [hresult] at hsame
    exact hother hsame
  · intro hans body' hb' hcourse
    have hrec' : (evaluateBody body' slow obj₀).outcome = .ok result := by
      rw [outcome_ok_iff hb', hcourse]
      exact ⟨score, hscore, hresult⟩
    exact loadedAsRun_of_answered hm hredis hb' hsig₀ hrec' hload (hcourse ▸ hans)

/-- A filter that copies the object's name into another attribute. -/
def copyName : Proc Unit := .emit (.getAttribute (some "_ObjectID")) fun
  | .item (some name) => .emit (.setAttribute (some "name") name) fun _ => .finish (some .one) ()
  | _ => .finish (some .zero) ()

/-- An object before it is loaded. -/
def plainObject : Object hexMurmur := Object.new hexMurmur "host" "a" none none true

/-- A cache that holds the value `copyName` writes. -/
def nameCache : Redis :=
  ⟨Dict.empty, Dict.empty.set ("attribute:" ++ hexMurmur.hash [0x61, 0]) [0x61, 0]⟩

/-- The filter that copies the name gives, loaded from the cache, what it gives when it is run. -/
theorem loadedAsRun_copyName :
    ∃ result loaded, (evaluateBody copyName false plainObject).outcome = .ok result ∧
      attributeCacheTryLoad (some nameCache) plainObject (stored result) = some loaded ∧
      LoadedAsRun copyName plainObject loaded result := by
  have hdet : Deterministic copyName := by
    refine ⟨rfl, fun r hr => ?_⟩
    cases r <;> simp only [Command.Admits] at hr
    rename_i value
    cases value with
    | none => exact rfl
    | some name => exact ⟨rfl, fun _ _ => rfl⟩
  have hredis : nameCache.ContentAddressed hexMurmur := by
    intro key value h
    rw [nameCache, Dict.get?_set] at h
    split at h
    · rename_i hk
      cases h
      exact hk.symm
    · simp at h
  refine ⟨_, _, rfl, rfl, ?_⟩
  exact (loadedAsRun_iff_answered hexMurmur_injective hredis hdet rfl rfl rfl).mpr
    (answered_course hdet plainObject) copyName hdet rfl

/-- A filter that scores an object by the reply to an omit request. -/
def omitProbe : Proc Unit := .emit (.omitAttribute (some "thumbnail.jpeg")) fun
  | .boolean true => .finish (some .one) ()
  | _ => .finish (some .zero) ()

/-- The reply to an omit request is not in the record: a result recorded
before the attribute existed is loaded, with its score zero, on an object that
has the attribute and that the filter would score one. -/
theorem omit_reply_not_recorded :
    Function.Injective hexMurmur.hash ∧ Redis.empty.ContentAddressed hexMurmur ∧
      Deterministic omitProbe ∧
      ∃ result loaded, (evaluateBody omitProbe false plainObject).outcome = .ok result ∧
        attributeCacheTryLoad (some Redis.empty) (plainObject.setItem "thumbnail.jpeg" [1])
          (stored result) = some loaded ∧
        ¬LoadedAsRun omitProbe (plainObject.setItem "thumbnail.jpeg" [1]) loaded result := by
  refine ⟨hexMurmur_injective, fun _ _ h => by simp [Redis.empty] at h, ?_, ?_⟩
  · refine ⟨rfl, fun r hr => ?_⟩
    cases r <;> simp only [Command.Admits] at hr
    rename_i reply
    cases reply <;> exact rfl
  · refine ⟨_, _, rfl, rfl, ?_⟩
    rintro ⟨fresh, hfresh, hscore, _⟩
    cases hfresh
    revert hscore
    decide

end OpenDiamond.AttributeCache
