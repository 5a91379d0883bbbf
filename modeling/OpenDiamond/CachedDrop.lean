import OpenDiamond.ResultCache

/-!
# Cached drops against the verdict of the stack

When the drop that the walk decides on is the verdict of the stack without a
cache. The walk follows names and signatures only: it does not see in which
order the filters of the current stack run, nor that another filter of the
stack writes an attribute again before it is read.
-/

namespace OpenDiamond.CachedDrop

open Lib.OrderedDict Lib.Binary64 Lib.Runs DiamondObject FilterProtocol AttributeCache
open ResultKeys FilterStackRunner FilterOrder ResultCache

variable {m : Murmur}

/-! ## When a drop from the cache is the verdict of the stack -/

/-- The record of the filter determines its course: an object with the recorded
inputs gives every answer. A filter that takes the replies to omit requests
into account, or reads an attribute again after it wrote it, may not be of this
kind. -/
def Determined (m : Murmur) (body : Proc Unit) : Prop :=
  ∀ obj₀ obj : Object m, obj₀.computeSignature = true → obj.computeSignature = true →
    inputsMatch obj (replay (obj₀, .new) (course body obj₀).1).2 = true →
      Answered obj (course body obj₀).1

/-- Where the filter writes the attribute, it writes a value of this
signature. -/
def Leaves (search : Search m) (key : String) (valsig : Signature) (filter : Filter) : Prop :=
  ∀ (obj : Object m) value,
    lastWrite (course (search.behaviour filter.config) obj).1 key = some value →
      signatureOf m true value = valsig

/-- An attribute that the cached result of one runner supplies to that of
another is there when the other runs: the first runs before, and between them
nothing replaces the attribute. -/
def Orderly (search : Search m) (filters : List Filter) (cacheResults : Dict ℕ FilterResult) :
    Prop :=
  ∀ p i key valsig, p ≠ i →
    (cacheResults.get? p).bind (·.outputAttrs.get? key) = some valsig →
    (∃ result, cacheResults.get? i = some result ∧ (key, some valsig) ∈ result.inputAttrs.entries) →
      p < i ∧ ∀ j filter, p ≤ j → j < i →
        (bindRunners filters)[j]? = some (.filterRunner filter) →
          scoreAttr filter.config.name ≠ key ∧ (p < j → Leaves search key valsig filter)

/-- An earlier call about the same object had filters that behave as the ones
with their digest do now, and loaded the attributes the object has now. -/
structure Agrees (search : Search m) (filters : List Filter) (obj : Object m)
    (call : Call m) : Prop where
  /-- Filters with one digest are one function. -/
  behaviour : call.obj.id = obj.id → ∀ f ∈ call.filters, ∀ g ∈ filters,
    digest m f = digest m g → search.behaviour f.config = search.behaviour g.config
  /-- The object loads as it did. -/
  loaded : call.obj.id = obj.id → (call.load call.obj).failure = none →
    (search.load obj).failure = none ∧
      (call.obj.setItems (call.load call.obj).items).SameAttrs
        (obj.setItems (search.load obj).items)

/-- A cached result belongs to a runner, and was found under the key of that runner and the
object. -/
theorem lookupResults_get? {redis : Redis} {obj : Object m} {runners : List Runner} {i : ℕ}
    {result : FilterResult} (h : (lookupResults (some redis) obj runners).get? i = some result) :
    ∃ runner, runners[i]? = some runner ∧
      redis.results.get? (getCacheKey m (runner.getCacheDigest m) obj.id) = some result := by
  rw [Dict.get?_eq_some_iff] at h
  obtain ⟨⟨runner, k⟩, hmem, hmap⟩ := List.mem_filterMap.mp h
  obtain ⟨found, hfound, hpair⟩ := Option.map_eq_some_iff.mp hmap
  cases hpair
  exact ⟨runner, List.mem_zipIdx_iff_getElem?.mp hmem, hfound⟩

/-- A digest has no blanks, so that the blank in a key is where the digest ends. -/
theorem space_notMem_getCacheDigest (runner : Runner) :
    ' ' ∉ (runner.getCacheDigest m).toList := by
  cases runner with
  | fetcher =>
    show ' ' ∉ "dataretriever".toList
    decide
  | filterRunner filter => exact filter.config.space_notMem_cacheDigest m

/-- No filter has the digest of the fetcher: it is no hexadecimal text. -/
theorem cacheDigest_ne_dataretriever (config : FilterConfig) :
    config.cacheDigest m ≠ "dataretriever" := by
  intro h
  have hhex := m.hex (encodeText (" ".intercalate config.summary)) 't'
  rw [show m.hash (encodeText (" ".intercalate config.summary)) = "dataretriever" from h] at hhex
  exact absurd (hhex (by decide)) (by decide)

section Drop

variable {search : Search m} {filters : List Filter} {obj : Object m} {redis : Redis}

/-- The cached result of a runner is what the runner recorded, as it behaves
now; that of the fetcher has the attributes the object loads now. -/
theorem cached_records (hm : Function.Injective m.hash)
    (hrec : Recorded search (Agrees search filters obj) redis)
    (hsig : obj.computeSignature = true) {i : ℕ} {result : FilterResult} {runner : Runner}
    (hi : (lookupResults (some redis) obj (bindRunners filters)).get? i = some result)
    (hr : (bindRunners filters)[i]? = some runner) :
    match runner with
    | .fetcher => (search.load obj).failure = none ∧ result.score = .zero ∧
        ∀ key valsig, result.outputAttrs.get? key = some valsig →
          (obj.setItems (search.load obj).items).getSignature key = some valsig
    | .filterRunner filter => ∃ fresh, Records search obj fresh (.filterRunner filter) ∧
        result = stored fresh := by
  obtain ⟨runner', hr', hget⟩ := lookupResults_get? hi
  cases hr.symm.trans hr'
  obtain ⟨call, hagrees, source, hsource, fresh, hkey, hfresh, rfl⟩ := hrec _ _ hget
  obtain ⟨hdigest, hid⟩ := (getCacheKey_eq_iff hm (space_notMem_getCacheDigest runner)
    (space_notMem_getCacheDigest source) _ _).mp hkey
  cases runner with
  | fetcher =>
    cases source with
    | filterRunner f => exact absurd hdigest.symm (cacheDigest_ne_dataretriever f.config)
    | fetcher =>
      simp only [Records, Runner.evaluate] at hfresh
      split at hfresh
      · cases hfresh
      · rename_i hload
        cases hfresh
        obtain ⟨hok, hsame⟩ := hagrees.loaded hid.symm hload
        refine ⟨hok, rfl, fun key valsig hvalue => ?_⟩
        simp only [stored, Dict.get?_mapValues] at hvalue
        rw [Object.getSignature_eq, ← hsame key, (obj.setItems_spec _).2.1, hsig]
        rw [(call.obj.setItems_spec _).2.1, call.signed] at hvalue
        exact hvalue
  | filterRunner filter =>
    cases source with
    | fetcher => exact absurd hdigest (cacheDigest_ne_dataretriever filter.config)
    | filterRunner f =>
      obtain ⟨obj₀, slow, hobj₀, hoc⟩ := hfresh
      have hf : f ∈ call.filters := by simpa [bindRunners] using hsource
      have hg : filter ∈ filters := by
        simpa [bindRunners] using List.mem_of_getElem? hr
      have hbeh := hagrees.behaviour hid.symm f hf filter hg hdigest.symm
      refine ⟨fresh, ⟨obj₀, slow, hobj₀, ?_⟩, rfl⟩
      simp only [Runner.evaluate, Call.search, hbeh] at hoc ⊢
      exact hoc

/-- Passing a filter that leaves the attribute keeps its signature. -/
theorem pass_keeps {key : String} {valsig : Signature} {filter : Filter}
    (hscore : scoreAttr filter.config.name ≠ key) (hleaves : Leaves search key valsig filter)
    {before after : Object m}
    (hbefore : before.computeSignature = true ∧ before.getSignature key = some valsig)
    (h : pass search before (.filterRunner filter) = some after) :
    after.computeSignature = true ∧ after.getSignature key = some valsig := by
  rw [pass_filterRunner, Option.bind_eq_some_iff] at h
  obtain ⟨score, _, hif⟩ := h
  split at hif
  · cases hif
    obtain ⟨hcompute, hattrs, _⟩ := replay_spec (before, FilterResult.new)
      (course (search.behaviour filter.config) before).1
    refine ⟨hcompute.trans hbefore.1, ?_⟩
    have hsigned := hbefore.2
    rw [Object.getSignature_eq, hbefore.1] at hsigned
    rw [Object.getSignature_eq, Object.setItem_attrs, Dict.get?_set_of_ne _ _ hscore,
      Object.setItem_computeSignature, hcompute, hattrs, hbefore.1]
    cases hw : lastWrite (course (search.behaviour filter.config) before).1 key with
    | none => exact hsigned
    | some value =>
      rw [Option.some_or, Option.map_some, hleaves before value hw]
  · cases hif

/-- A runner that passes leaves it as it was whether signatures are computed. -/
theorem pass_computeSignature {runner : Runner} {before after : Object m}
    (hbefore : before.computeSignature = true) (h : pass search before runner = some after) :
    after.computeSignature = true := by
  cases runner with
  | fetcher =>
    simp only [FilterStackRunner.pass, Runner.evaluate] at h
    split at h
    · rename_i result loaded heval
      split at heval
      · cases heval
      · cases heval
        cases h
        exact (before.setItems_spec _).2.1.trans hbefore
    · cases h
  | filterRunner filter =>
    rw [pass_filterRunner, Option.bind_eq_some_iff] at h
    obtain ⟨score, _, hif⟩ := h
    split at hif
    · cases hif
      exact (replay_spec (before, .new) _).1.trans hbefore
    · cases hif

/-- The runners before a position are those before an earlier one, that one and
the ones between. -/
theorem take_eq_append {runners : List Runner} {p i : ℕ} (hp : p < i) {runner : Runner}
    (h : runners[p]? = some runner) :
    runners.take i = runners.take p ++ runner :: (runners.take i).drop (p + 1) := by
  have hlt : p < (runners.take i).length := by
    have hlen := (List.getElem?_eq_some_iff.mp h).1
    rw [List.length_take]
    omega
  have hget : (runners.take i)[p] = runner := by
    have htake : (runners.take i)[p]? = some runner := by
      rw [List.getElem?_take_of_lt hp, h]
    exact (List.getElem?_eq_some_iff.mp htake).2
  have hsplit := List.take_append_drop p (runners.take i)
  rw [List.drop_eq_getElem_cons hlt, hget, List.take_take, Nat.min_eq_left hp.le] at hsplit
  exact hsplit.symm

/-- An attribute supplied by an earlier runner is still there. -/
theorem signature_carried {key : String} {valsig : Signature} {p i : ℕ} {runner : Runner}
    (hp : p < i) (hr : (bindRunners filters)[p]? = some runner)
    (hkeep : ∀ j filter, p ≤ j → j < i → (bindRunners filters)[j]? = some (.filterRunner filter) →
      scoreAttr filter.config.name ≠ key ∧ (p < j → Leaves search key valsig filter))
    {before : Object m} (hobj : obj.computeSignature = true)
    (hexec : exec (pass search) obj ((bindRunners filters).take i) = some before)
    (hsupplied : ∀ earlier, exec (pass search) obj ((bindRunners filters).take p) = some earlier →
      ∃ result after, runner.evaluate search false earlier = (.ok result, after) ∧
        after.getSignature key = some valsig) :
    before.getSignature key = some valsig := by
  rw [take_eq_append hp hr] at hexec
  obtain ⟨earlier, hfirst, hrest⟩ := exec_append_eq_some.mp hexec
  obtain ⟨next, hnext, hbetween⟩ := exec_cons_eq_some.mp hrest
  obtain ⟨result, after, heval, hafter⟩ := hsupplied earlier hfirst
  have hat : earlier.computeSignature = true :=
    exec_invariant (I := fun o => o.computeSignature = true)
      (fun _ _ _ hs hstep => pass_computeSignature hs hstep) hobj hfirst
  have hsigned : next.computeSignature = true := pass_computeSignature hat hnext
  have hnextsig : next.getSignature key = some valsig := by
    simp only [FilterStackRunner.pass, heval] at hnext
    split at hnext
    · cases hnext
      cases runner with
      | fetcher => exact hafter
      | filterRunner filter =>
        have hne := (hkeep p filter le_rfl hp hr).1
        rw [Object.getSignature_eq] at hafter ⊢
        rw [storeScore, Object.setItem_attrs, Dict.get?_set_of_ne _ _ hne]
        exact hafter
    · cases hnext
  refine (exec_invariant_of_mem
    (I := fun o => o.computeSignature = true ∧ o.getSignature key = some valsig) ?_
    ⟨hsigned, hnextsig⟩ hbetween).2
  intro r hmem s t hs hstep
  obtain ⟨k, hk⟩ := List.mem_iff_getElem?.mp hmem
  rw [List.getElem?_drop] at hk
  have hlt : p + 1 + k < i := by
    have hlen := (List.getElem?_eq_some_iff.mp hk).1
    rw [List.length_take] at hlen
    omega
  rw [List.getElem?_take_of_lt hlt] at hk
  cases r with
  | fetcher =>
    -- the fetcher is the first runner
    rw [bindRunners, show p + 1 + k = p + k + 1 by omega, List.getElem?_cons_succ,
      List.getElem?_map] at hk
    obtain ⟨_, _, habs⟩ := Option.map_eq_some_iff.mp hk
    cases habs
  | filterRunner filter =>
    obtain ⟨hne, hleaves⟩ := hkeep (p + 1 + k) filter (by omega) hlt hk
    exact pass_keeps hne (hleaves (by omega)) hs hstep

/-- An object with the recorded inputs takes a filter through the recorded
course. -/
theorem evaluate_of_inputsMatch {filter : Filter} {fresh : FilterResult}
    (hdet : Determined m (search.behaviour filter.config))
    (hfresh : Records search obj fresh (.filterRunner filter)) {before : Object m}
    (hbefore : before.computeSignature = true) (hmatch : inputsMatch before fresh = true) :
    ∃ result after, (Runner.filterRunner filter).evaluate search false before =
        (.ok result, after) ∧ result.score = fresh.score ∧
      ∀ key valsig, fresh.outputAttrs.get? key = some valsig →
        after.getSignature key = some valsig := by
  obtain ⟨obj₀, slow, hobj₀, hout⟩ := hfresh
  obtain ⟨score, hscore, rfl⟩ := (outcome_ok_iff (search.deterministic filter.config) slow obj₀
    fresh).mp hout
  have hans := hdet obj₀ before hobj₀ hbefore hmatch
  have hcourse := course_of_answered (search.deterministic filter.config) hans
  have heval := evaluate_filterRunner search false before filter
  simp only [hcourse, hscore] at heval
  refine ⟨_, _, heval, rfl, fun key valsig hvalue => ?_⟩
  obtain ⟨hcompute, hattrs, _⟩ := replay_spec (before, FilterResult.new)
    (course (search.behaviour filter.config) obj₀).1
  obtain ⟨_, _, _, houtputs, _⟩ := replay_spec (obj₀, FilterResult.new)
    (course (search.behaviour filter.config) obj₀).1
  rw [houtputs, hobj₀] at hvalue
  rw [Object.getSignature_eq, hcompute, hattrs, hbefore]
  cases hw : lastWrite (course (search.behaviour filter.config) obj₀).1 key with
  | none => simp [hw, FilterResult.new] at hvalue
  | some value =>
    rw [hw, Option.map_some, Option.some_or] at hvalue
    rw [Option.some_or, Option.map_some, hvalue]

/-- A derivable runner that the object reaches repeats its cached result. -/
theorem derivable_repeats (hm : Function.Injective m.hash)
    (hrec : Recorded search (Agrees search filters obj) redis)
    (hsig : obj.computeSignature = true)
    (hdet : ∀ filter ∈ filters, Determined m (search.behaviour filter.config))
    (horder : Orderly search filters (lookupResults (some redis) obj (bindRunners filters)))
    {i : ℕ} (hder : Derivable (lookupResults (some redis) obj (bindRunners filters)) i) :
    ∀ cached runner before,
      (lookupResults (some redis) obj (bindRunners filters)).get? i = some cached →
      (bindRunners filters)[i]? = some runner →
      exec (pass search) obj ((bindRunners filters).take i) = some before →
        ∃ result after, runner.evaluate search false before = (.ok result, after) ∧
          result.score = cached.score ∧
          ∀ key valsig, cached.outputAttrs.get? key = some valsig →
            after.getSignature key = some valsig := by
  induction hder with
  | @supplied i cached₀ hi supplier hsupplied _ ih =>
    intro cached runner before hcached hrunner hexec
    cases hi.symm.trans hcached
    have hrecords := cached_records hm hrec hsig hi hrunner
    cases runner with
    | fetcher =>
      obtain ⟨hok, hscore, houtputs⟩ := hrecords
      have hzero : i = 0 := by
        cases i with
        | zero => rfl
        | succ k =>
          rw [bindRunners, List.getElem?_cons_succ, List.getElem?_map] at hrunner
          obtain ⟨_, _, habs⟩ := Option.map_eq_some_iff.mp hrunner
          cases habs
      subst hzero
      cases hexec
      simp only [Runner.evaluate, hok]
      exact ⟨_, _, rfl, hscore.symm, houtputs⟩
    | filterRunner filter =>
      obtain ⟨fresh, hfresh, rfl⟩ := hrecords
      by_cases hself : ∃ entry ∈ (stored fresh).inputAttrs.entries, supplier entry = i
      · -- derived from itself: the shorter derivation already gives the result
        obtain ⟨entry, hentry, heq⟩ := hself
        have hshorter := ih entry hentry
        rw [heq] at hshorter
        exact hshorter _ _ before hi hrunner hexec
      · have hmem : filter ∈ filters := by
          simpa [bindRunners] using List.mem_of_getElem? hrunner
        have hbefore : before.computeSignature = true :=
          exec_invariant (I := fun o => o.computeSignature = true)
            (fun _ _ _ hs hstep => pass_computeSignature hs hstep) hsig hexec
        refine evaluate_of_inputsMatch (hdet filter hmem) hfresh hbefore ?_
        refine List.all_eq_true.mpr fun entry hentry => ?_
        obtain ⟨valsig, hval, hout⟩ := hsupplied entry hentry
        obtain ⟨hp, hkeep⟩ := horder (supplier entry) i entry.1 valsig
          (fun heq => hself ⟨entry, hentry, heq⟩) hout ⟨_, hi, by rw [← hval]; exact hentry⟩
        obtain ⟨source, hsource, hsourceout⟩ := Option.bind_eq_some_iff.mp hout
        obtain ⟨sourceRunner, hsourceRunner, _⟩ := lookupResults_get? hsource
        have hcarried := signature_carried hp hsourceRunner hkeep hsig hexec
          (fun earlier hearlier => by
            obtain ⟨result, after, heval, _, houtputs⟩ :=
              ih entry hentry source sourceRunner earlier hsource hsourceRunner hearlier
            exact ⟨result, after, heval, houtputs entry.1 valsig hsourceout⟩)
        have hcontains : before.contains entry.1 = true := by
          rw [Object.getSignature_eq] at hcarried
          obtain ⟨value, hvalue, _⟩ := Option.map_eq_some_iff.mp hcarried
          rw [Object.contains, hvalue]
          rfl
        rcases entry with ⟨key, _ | sig⟩
        · cases hval
        · cases hval
          simp only [hcontains, hcarried, Bool.true_and, beq_self_eq_true]

end Drop

/-- A drop decided from the result cache is the verdict of the stack without a
cache, when the earlier calls about the object had the same filters behind the
same digests and loaded the same attributes, the records of the filters
determine their courses, and the attributes one cached result supplies to
another are still there when the other filter runs. -/
theorem cachedDrop_sound (hm : Function.Injective m.hash) {search : Search m}
    {filters : List Filter} {obj : Object m} (hsig : obj.computeSignature = true)
    {calls : List (Call m)} {redis : Redis}
    (hcalls : Guarded (evaluateCall search)
      (fun _ call => Agrees search filters obj call) Redis.empty calls)
    (hrun : exec (evaluateCall search) Redis.empty calls = some redis)
    (hdet : ∀ filter ∈ filters, Determined m (search.behaviour filter.config))
    (horder : Orderly search filters (lookupResults (some redis) obj (bindRunners filters)))
    (hload : (search.load obj).unhandled = none) {chance chance' : Chance}
    (hdrop : (evaluateObject search (bindRunners filters) (some redis) chance obj).cachedDrop =
      true) :
    (evaluateObject search (bindRunners filters) none chance' obj).verdict = .ok false := by
  have hrec := recorded_of_history hcalls hrun
  have hcan : ∃ deps, resultCacheCanDrop (bindRunners filters)
      (lookupResults (some redis) obj (bindRunners filters)) = some deps := by
    simp only [evaluateObject] at hdrop
    split at hdrop
    · rename_i deps hdeps
      exact ⟨deps, hdeps⟩
    · cases hdrop
  obtain ⟨deps, hdeps⟩ := hcan
  obtain ⟨i, cached, runner, hi, hrunner, hfail, hder⟩ := resultCacheCanDrop_sound hdeps
  have hrepeats := derivable_repeats hm hrec hsig hdet horder hder cached runner
  have hnone : exec (pass search) obj (bindRunners filters) = none := by
    have hlt := (List.getElem?_eq_some_iff.mp hrunner).1
    have hsplit := take_eq_append hlt hrunner
    rw [List.take_length] at hsplit
    rw [hsplit, exec_append]
    cases hexec : exec (pass search) obj ((bindRunners filters).take i) with
    | none => rfl
    | some before =>
      obtain ⟨result, after, heval, hscore, _⟩ := hrepeats before hi hrunner hexec
      have hthreshold : runner.threshold result = false := by
        cases runner with
        | fetcher => cases hfail
        | filterRunner filter =>
          simp only [Runner.threshold, hscore] at hfail ⊢
          exact hfail
      have hpass : pass search before runner = none := by
        simp only [FilterStackRunner.pass, heval, hthreshold]
        rfl
      simp only [Option.bind_some, exec, hpass]
  have hverdict := evaluateObject_uncached search filters chance' obj
  simp only [hload, hnone] at hverdict
  exact hverdict

/-! ## One history, two stacks -/

/-- Writes an attribute that a later filter may read. -/
def writeX (value : UInt8) : Proc Unit :=
  .emit (.setAttribute (some "x") [value]) fun _ => .finish (some .one) ()

/-- Scores zero where the attribute has the value one. -/
def readX : Proc Unit := .emit (.getAttribute (some "x")) fun
  | .item value => .finish (some (if value = some [1] then .zero else .one)) ()
  | _ => .finish (some .one) ()

/-- Two filters that write the attribute and one that reads it. -/
def namedBehaviour (config : FilterConfig) : Proc Unit :=
  if config.name = "one" then writeX 1
  else if config.name = "two" then writeX 2
  else readX

/-- The sample filters say the same whenever they are told the same. -/
theorem deterministic_namedBehaviour (config : FilterConfig) :
    Deterministic (namedBehaviour config) := by
  unfold namedBehaviour
  split
  · exact ⟨rfl, fun _ _ => rfl⟩
  · split
    · exact ⟨rfl, fun _ _ => rfl⟩
    · refine ⟨rfl, fun r hr => ?_⟩
      cases r <;> simp only [Command.Admits] at hr
      exact rfl

/-- Objects load without attributes of their own. -/
def namedSearch : Search hexMurmur where
  load _ := ⟨[], none⟩
  behaviour := namedBehaviour
  deterministic := deterministic_namedBehaviour
  scoreText _ := "1.0"

/-- A filter without arguments. -/
def namedFilter (name : String) (minScore : Double) (dependencies : List String) : Filter :=
  ⟨⟨zeroSignature, name, [], zeroSignature⟩, minScore, .one, dependencies⟩

/-- No filter is slow, and Redis takes every entry. -/
def steady : Chance := ⟨fun _ => false, false⟩

/-- A stack whose second filter drops the object because of what the first one
wrote. -/
def firstCall : Call hexMurmur :=
  ⟨[namedFilter "one" .zero [], namedFilter "reader" .one ["one"]], namedSearch.load, steady,
    plainObject, rfl⟩

/-- The key of a filter by its name. -/
def namedKey (name : String) : String :=
  getCacheKey hexMurmur ((namedFilter name .zero []).config.cacheDigest hexMurmur) "a"

/-- What the first call recorded of the fetcher. -/
def fetched : FilterResult :=
  { FilterResult.new with outputAttrs := plainObject.signatures }

/-- What the first call recorded of the filter that wrote the attribute. -/
def wroteOne : FilterResult :=
  { FilterResult.new with outputAttrs := Dict.empty.set "x" (.digest "01"), score := .one }

/-- What the first call recorded of the filter that read the attribute. -/
def readOne : FilterResult :=
  { FilterResult.new with inputAttrs := Dict.empty.set "x" (some (.digest "01")) }

/-- The database after the first call. -/
def firstRedis : Redis :=
  ⟨((Dict.empty.set (getCacheKey hexMurmur "dataretriever" "a") fetched).set
    (namedKey "one") wroteOne).set (namedKey "reader") readOne, Dict.empty⟩

/-- The first call fills the empty cache. -/
theorem exec_firstCall :
    exec (evaluateCall namedSearch) Redis.empty [firstCall] = some firstRedis := by
  have hcall : evaluateCall namedSearch Redis.empty firstCall = some firstRedis := rfl
  rw [exec_cons hcall, exec_nil]

/-- Names without spaces are told apart by the digest. -/
theorem namedDigest_inj {a b : String} {minA minB : Double} {depsA depsB : List String}
    (ha : ' ' ∉ a.toList) (hb : ' ' ∉ b.toList)
    (h : digest hexMurmur (namedFilter a minA depsA) =
      digest hexMurmur (namedFilter b minB depsB)) : a = b := by
  have hwords := ((FilterConfig.cacheDigest_eq_iff hexMurmur_injective _ _).mp h).2.1
  exact (FilterConfig.words_injective_of_noSpaces (by simpa [namedFilter] using ha)
    (by simpa [namedFilter] using hb) hwords).1

/-- The keys of two filters are equal only if their names are. -/
theorem namedKey_inj {a b : String} (ha : ' ' ∉ a.toList) (hb : ' ' ∉ b.toList)
    (h : namedKey a = namedKey b) : a = b := by
  have hdigest := ((getCacheKey_eq_iff hexMurmur_injective
    (FilterConfig.space_notMem_cacheDigest _ _)
    (FilterConfig.space_notMem_cacheDigest _ _) _ _).mp h).1
  exact namedDigest_inj ha hb hdigest

/-- The key of the fetcher is not that of a filter. -/
theorem fetchKey_ne_namedKey (name : String) :
    getCacheKey hexMurmur "dataretriever" "a" ≠ namedKey name := by
  intro h
  have hdigest := ((getCacheKey_eq_iff hexMurmur_injective (by decide)
    (FilterConfig.space_notMem_cacheDigest _ _) _ _).mp h).1
  exact cacheDigest_ne_dataretriever _ hdigest.symm

/-- The stored result of a filter after the first call, by its name. -/
def firstResult (name : String) : Option FilterResult :=
  if name = "one" then some wroteOne else if name = "reader" then some readOne else none

/-- What the first call left for a filter. -/
theorem firstRedis_get? {name : String} (hname : ' ' ∉ name.toList) :
    firstRedis.results.get? (namedKey name) = firstResult name := by
  have hone : namedKey "one" = namedKey name ↔ name = "one" :=
    ⟨fun h => (namedKey_inj (by decide) hname h).symm, fun h => by rw [h]⟩
  have hreader : namedKey "reader" = namedKey name ↔ name = "reader" :=
    ⟨fun h => (namedKey_inj (by decide) hname h).symm, fun h => by rw [h]⟩
  simp only [firstRedis, firstResult, Dict.get?_set, fetchKey_ne_namedKey, if_false,
    Dict.get?_empty, hone, hreader]
  by_cases h1 : name = "one"
  · subst h1
    simp
  · simp [h1]

/-- After the first call the cache has the result of the fetcher. -/
theorem firstRedis_get?_fetcher :
    firstRedis.results.get? (getCacheKey hexMurmur "dataretriever" "a") = some fetched := by
  simp only [firstRedis, Dict.get?_set, (fetchKey_ne_namedKey _).symm, if_false, if_true]

/-- The cached results of a stack of named filters. -/
theorem cachedEntries_named {redis : Redis} {result : FilterResult}
    {results : String → Option FilterResult}
    (hfetch : redis.results.get? (getCacheKey hexMurmur "dataretriever" "a") = some result)
    (hnamed : ∀ name : String, ' ' ∉ name.toList →
      redis.results.get? (namedKey name) = results name)
    {filters : List Filter}
    (h : ∀ filter ∈ filters, ' ' ∉ filter.config.name.toList ∧
      filter.config = (namedFilter filter.config.name .zero []).config) :
    cachedEntries redis plainObject (bindRunners filters) =
      (0, result) :: (filters.zipIdx 1).filterMap fun entry =>
        (results entry.1.config.name).map (Prod.mk entry.2) := by
  have hid : plainObject.id = "a" := rfl
  rw [cachedEntries, bindRunners, List.zipIdx_cons, hid]
  rw [List.filterMap_cons_some (b := (0, result))
    (by rw [Runner.getCacheDigest, hfetch, Option.map_some]), List.zipIdx_map, List.filterMap_map]
  refine congrArg (List.cons (0, result)) (List.filterMap_congr fun entry hentry => ?_)
  obtain ⟨hname, hconfig⟩ := h entry.1 (List.fst_mem_of_mem_zipIdx hentry)
  have hkey : namedKey entry.1.config.name =
      getCacheKey hexMurmur (entry.1.config.cacheDigest hexMurmur) "a" := by
    rw [namedKey, ← hconfig]
  have hget := hnamed _ hname
  rw [hkey] at hget
  simp only [Function.comp_apply, Prod.map_fst, Prod.map_snd, id_eq, Runner.getCacheDigest, hget]

/-- The first stack finds all its results. -/
theorem lookupResults_firstStack :
    lookupResults (some firstRedis) plainObject (bindRunners firstCall.filters) =
      ⟨[(0, fetched), (1, wroteOne), (2, readOne)], by decide⟩ := by
  apply Dict.ext
  rw [lookupResults_entries,
    cachedEntries_named firstRedis_get?_fetcher (fun _ => firstRedis_get?) (by decide)]
  rfl

/-- A filter that only writes is determined by what it was told, which is nothing. -/
theorem determined_writeX (value : UInt8) : Determined hexMurmur (writeX value) :=
  fun _ _ _ _ _ => trivial

/-- A filter that only reads is determined by what it read. -/
theorem determined_readX : Determined hexMurmur readX := by
  intro obj₀ obj h₀ h hmatch
  refine ⟨?_, trivial⟩
  have hcourse : (course readX obj₀).1 = [.read "x" (obj₀.attrs.get? "x")] := by
    simp [readX, course, answer, observe]
  have hentries : (replay (obj₀, .new) (course readX obj₀).1).2.inputAttrs.entries =
      [("x", (obj₀.attrs.get? "x").map (signatureOf hexMurmur true))] := by
    rw [hcourse, ← h₀]
    rfl
  simp only [inputsMatch, hentries, List.all_cons, List.all_nil, Bool.and_true] at hmatch
  cases hv : obj₀.attrs.get? "x" with
  | none => simpa [hv, Object.contains] using hmatch
  | some value =>
    simp only [hv, Option.map_some, Bool.and_eq_true, beq_iff_eq] at hmatch
    have hsigned := hmatch.2
    rw [Object.getSignature_eq, h] at hsigned
    obtain ⟨value', hvalue', heq⟩ := Option.map_eq_some_iff.mp hsigned
    have hhash : hexMurmur.hash value' = hexMurmur.hash value := by
      simpa [signatureOf] using heq
    rw [hvalue', hexMurmur_injective hhash]

/-- Run again on the object, the first stack drops it from the cache. -/
theorem cachedDrop_sound_repeated :
    exec (evaluateCall namedSearch) Redis.empty [firstCall] = some firstRedis ∧
      (evaluateObject namedSearch (bindRunners firstCall.filters) (some firstRedis) steady
        plainObject).cachedDrop = true ∧
      (evaluateObject namedSearch (bindRunners firstCall.filters) none steady
        plainObject).verdict = .ok false := by
  have hdrop : (evaluateObject namedSearch (bindRunners firstCall.filters) (some firstRedis)
      steady plainObject).cachedDrop = true := by
    rw [evaluateObject_cachedDrop, lookupResults_firstStack]
    decide
  refine ⟨exec_firstCall, hdrop, cachedDrop_sound hexMurmur_injective rfl ?_ exec_firstCall ?_ ?_
    rfl hdrop⟩
  · refine ⟨⟨fun _ f hf g hg heq => ?_, fun _ _ => ⟨rfl, fun _ => rfl⟩⟩, fun _ _ => trivial⟩
    simp only [firstCall, List.mem_cons, List.not_mem_nil, or_false] at hf hg
    rcases hf with rfl | rfl <;> rcases hg with rfl | rfl
    · rfl
    · exact absurd (namedDigest_inj (by decide) (by decide) heq) (by decide)
    · exact absurd (namedDigest_inj (by decide) (by decide) heq) (by decide)
    · rfl
  · intro filter hfilter
    simp only [firstCall, List.mem_cons, List.not_mem_nil, or_false] at hfilter
    rcases hfilter with rfl | rfl
    · exact determined_writeX 1
    · exact determined_readX
  · rw [lookupResults_firstStack]
    rintro p i key valsig hne hout ⟨result, hi, hmem⟩
    rcases i with _ | _ | _ | k
    · cases hi
      simp [fetched, FilterResult.new, Dict.empty] at hmem
    · cases hi
      simp [wroteOne, FilterResult.new, Dict.empty] at hmem
    · cases hi
      have hentry : (key, some valsig) ∈ [("x", some (Signature.digest "01"))] := hmem
      obtain ⟨rfl, _⟩ := Prod.mk.inj (List.mem_singleton.mp hentry)
      rcases p with _ | _ | _ | k
      · have hsome : fetched.outputAttrs.get? "x" = some valsig := hout
        have hnone : fetched.outputAttrs.get? "x" = none := by decide
        cases hnone.symm.trans hsome
      · refine ⟨by decide, fun j filter hlow hhigh hj => ?_⟩
        have hone : j = 1 := by omega
        subst hone
        cases hj
        exact ⟨by decide, fun h => absurd h (by decide)⟩
      · exact absurd rfl hne
      · simp [Dict.get?, find] at hout
    · simp [Dict.get?, find] at hi

/-- The first stack with a filter in between that writes the attribute again;
all dependencies are declared. -/
def secondStack : List Filter :=
  [namedFilter "one" .zero [], namedFilter "two" .zero ["one"],
    namedFilter "reader" .one ["one", "two"]]

/-- The second stack finds three results of the first call, one of them of a filter that stands
behind another now. -/
theorem lookupResults_secondStack :
    lookupResults (some firstRedis) plainObject (bindRunners secondStack) =
      ⟨[(0, fetched), (1, wroteOne), (3, readOne)], by decide⟩ := by
  apply Dict.ext
  rw [lookupResults_entries,
    cachedEntries_named firstRedis_get?_fetcher (fun _ => firstRedis_get?) (by decide)]
  rfl

/-- The walk takes the value that the first filter wrote for the one the last
filter reads: the object is dropped, and accepted without a cache. -/
theorem cachedDrop_overwritten :
    Function.Injective hexMurmur.hash ∧
      FilterStack.new firstCall.filters = .ok ⟨firstCall.filters, false⟩ ∧
      FilterStack.new secondStack = .ok ⟨secondStack, false⟩ ∧
      ∃ redis, exec (evaluateCall namedSearch) Redis.empty [firstCall] = some redis ∧
        (evaluateObject namedSearch (bindRunners secondStack) (some redis) steady
          plainObject).cachedDrop = true ∧
        (evaluateObject namedSearch (bindRunners secondStack) (some redis) steady
          plainObject).verdict = .ok false ∧
        (evaluateObject namedSearch (bindRunners secondStack) none steady
          plainObject).verdict = .ok true := by
  have hdrop : (evaluateObject namedSearch (bindRunners secondStack) (some firstRedis) steady
      plainObject).cachedDrop = true := by
    rw [evaluateObject_cachedDrop, lookupResults_secondStack]
    decide
  exact ⟨hexMurmur_injective, by decide, by decide, firstRedis, exec_firstCall, hdrop,
    verdict_of_cachedDrop hdrop, by decide⟩

end OpenDiamond.CachedDrop
