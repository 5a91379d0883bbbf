import OpenDiamond.Lib.Floats
import OpenDiamond.Lib.Joined
import OpenDiamond.Lib.Lines
import OpenDiamond.Lib.Memo

/-!
# The index files of the augment store

An index is made of a server's share of the positive entries and of as many negative entries as the
base rate asks for, and kept in a file. The file is named after the parameters, the base rate with
two decimals only, so a request can get the index of another base rate.
-/

namespace OpenDiamond.AugmentStore

open Lib.Floats Lib.Lines Lib.Memo Lib.OrderedDict Lib.Unicode Lib.Words

/-! ## The program -/

/-- Exceptions of `create_index`. -/
inductive Raised where
  /-- A first line without a directory. -/
  | indexError
  /-- An integer that no double holds, or an infinity as an integer. -/
  | overflowError
  /-- NaN as an integer. -/
  | valueError
  /-- No servers, or a base rate of zero. -/
  | zeroDivisionError
  deriving DecidableEq

/-- The parameters of an index. -/
structure Params where
  /-- `base_rate`. -/
  baseRate : Float
  /-- `seed`. -/
  seed : ℤ
  /-- `rank`. -/
  rank : ℤ
  /-- `total_servers`. -/
  totalServers : ℤ

/-- The base directory, but for the index files, and the shuffling. The user `dataretriever` exists
and files can be given to it. -/
structure Base where
  /-- What is read from the file `POSITIVE`. -/
  positive : Text
  /-- What is read from the file `NEGATIVE`. -/
  negative : Text
  /-- `Random(seed).shuffle`. -/
  shuffle : ℤ → List Text → List Text

/-- The index files of the directory. -/
abbrev Files := Dict (List Char) Text

/-- The name of an index file. -/
def filepath (params : Params) : List Char :=
  ['_'].intercalate ["STREAM".toList, (fixed 2 params.baseRate).toList,
    (toString params.rank).toList, (toString params.totalServers).toList,
    (toString params.seed).toList]

/-- An integer as a double. -/
def toFloat (n : ℤ) : Except Raised Float :=
  match ofInt n with
  | some x => .ok x
  | none => .error .overflowError

/-- `int` on a double. -/
def toInt (x : Float) : Except Raised ℤ :=
  match truncate x with
  | some n => .ok n
  | none => .error (if x.isNaN then .valueError else .overflowError)

/-- A division of doubles. -/
def divide (x y : Float) : Except Raised Float :=
  if y == 0 then .error .zeroDivisionError else .ok (x / y)

/-- `start_idx` or `end_idx`. -/
def shareIndex (rank totalServers : ℤ) (lenPositive : ℕ) : Except Raised ℤ := do
  let total ← toFloat totalServers
  let share ← divide 1 total
  let rank ← toFloat rank
  let len ← toFloat lenPositive
  toInt (rank * share * len)

/-- `negative_sample`. -/
def negativeSample (baseRate : Float) (lenPositive : ℕ) : Except Raised ℤ := do
  let ratio ← divide 100 baseRate
  let len ← toFloat lenPositive
  toInt (len * (ratio - 1))

/-- A bound of a Python slice, for a list of some length. -/
def clip (len : ℕ) (i : ℤ) : ℕ := if 0 ≤ i then min i.toNat len else len - (-i).toNat

/-- The server's share of the positive entries. -/
def positiveShare (base : Base) (params : Params) : Except Raised (List Text) := do
  let data := base.shuffle params.seed (readLines base.positive)
  let startIdx ← shareIndex params.rank params.totalServers data.length
  let endIdx ← shareIndex (params.rank + 1) params.totalServers data.length
  return (data.drop (clip data.length startIdx)).take
    (clip data.length endIdx - clip data.length startIdx)

/-- How many negative entries an index has. -/
def negativeCount (base : Base) (params : Params) : Except Raised ℕ := do
  let positive ← positiveShare base params
  let sample ← negativeSample params.baseRate positive.length
  return clip (base.shuffle params.seed (readLines base.negative)).length sample

/-- The entries of a new index. -/
def newIndex (base : Base) (params : Params) : Except Raised (List Text) := do
  let positive ← positiveShare base params
  let count ← negativeCount base params
  let negative := (base.shuffle params.seed (readLines base.negative)).take count
  return base.shuffle params.seed (negative ++ positive)

/-- `keyword`: the directory of the first positive entry. -/
def keyword (base : Base) : Except Raised Text :=
  let firstline := (base.positive.takeWhile fun c => c ≠ newline).rdropWhile isSpace
  match (firstline.splitOn (codePoint '/')).reverse with
  | _ :: parent :: _ => .ok parent
  | _ => .error .indexError

/-- `create_index`, with the index files. -/
def createIndex (base : Base) (files : Files) (params : Params) :
    Except Raised (List Text × Text) × Files :=
  match keyword base with
  | .error raised => (.error raised, files)
  | .ok word =>
    match files.get? (filepath params) with
    | some content => (.ok (readLines content, word), files)
    | none =>
      match newIndex base params with
      | .error raised => (.error raised, files)
      | .ok data => (.ok (data, word), files.set (filepath params) (writeLines data))

/-- The index files after a history of calls in a fresh directory. -/
def filesAfter (base : Base) (history : List Params) : Files :=
  history.foldl (fun files params => (createIndex base files params).2) Dict.empty

/-! ## File names -/

/-- The file name determines all parameters but the base rate. -/
theorem filepath_inj {params params' : Params} (h : filepath params = filepath params') :
    fixed 2 params.baseRate = fixed 2 params'.baseRate ∧ params.rank = params'.rank ∧
      params.totalServers = params'.totalServers ∧ params.seed = params'.seed := by
  have hfree : ∀ params : Params, ∀ part ∈ ["STREAM".toList, (fixed 2 params.baseRate).toList,
      (toString params.rank).toList, (toString params.totalServers).toList,
      (toString params.seed).toList], '_' ∉ part := by
    intro params part hpart
    simp only [List.mem_cons, List.not_mem_nil, or_false] at hpart
    rcases hpart with rfl | rfl | rfl | rfl | rfl
    · decide
    · exact underscore_notMem_fixed 2 _
    · exact underscore_notMem_toString _
    · exact underscore_notMem_toString _
    · exact underscore_notMem_toString _
  have hparts := Lib.Joined.intercalate_inj (List.cons_ne_nil _ _) (List.cons_ne_nil _ _)
    (hfree params) (hfree params') h
  simp only [List.cons.injEq, true_and, and_true] at hparts
  obtain ⟨hrate, hrank, htotal, hseed⟩ := hparts
  exact ⟨String.toList_inj.mp hrate, toString_injective (String.toList_inj.mp hrank),
    toString_injective (String.toList_inj.mp htotal),
    toString_injective (String.toList_inj.mp hseed)⟩

/-- Parameters with the same file name have the same seed and draw the same positive share; only the
base rates may differ, and in what two digits do not show. -/
theorem share_eq_of_filepath {params params' : Params} (base : Base)
    (h : filepath params = filepath params') :
    params.seed = params'.seed ∧ positiveShare base params = positiveShare base params' := by
  obtain ⟨-, hrank, htotal, hseed⟩ := filepath_inj h
  exact ⟨hseed, by rw [positiveShare, positiveShare, hrank, htotal, hseed]⟩

/-! ## An index and its length -/

/-- A new index is a shuffle of the positive share and of as many negative lines as it asks for. -/
theorem newIndex_eq_ok_iff {base : Base} {params : Params} {data : List Text} :
    newIndex base params = .ok data ↔ ∃ positive count, positiveShare base params = .ok positive ∧
      negativeCount base params = .ok count ∧
      data = base.shuffle params.seed
        ((base.shuffle params.seed (readLines base.negative)).take count ++ positive) := by
  unfold newIndex
  cases positiveShare base params with
  | error raised =>
    exact iff_of_false (fun h => nomatch h) fun ⟨_, _, h, _⟩ => nomatch h
  | ok positive =>
    cases negativeCount base params with
    | error raised =>
      exact iff_of_false (fun h => nomatch h) fun ⟨_, _, _, h, _⟩ => nomatch h
    | ok count =>
      constructor
      · intro h
        exact ⟨positive, count, rfl, rfl, (Except.ok.inj h).symm⟩
      · rintro ⟨positive', count', hpositive, hcount, rfl⟩
        cases hpositive
        cases hcount
        rfl

/-- An index counts its negatives only after its share was computed. -/
theorem negativeCount_le {base : Base} {params : Params} {count : ℕ}
    (h : negativeCount base params = .ok count) :
    (∃ positive, positiveShare base params = .ok positive) ∧
      count ≤ (base.shuffle params.seed (readLines base.negative)).length := by
  unfold negativeCount at h
  cases hshare : positiveShare base params with
  | error raised =>
    rw [hshare] at h
    cases h
  | ok positive =>
    refine ⟨⟨positive, rfl⟩, ?_⟩
    rw [hshare] at h
    cases hsample : negativeSample params.baseRate positive.length with
    | error raised =>
      simp only [hsample, bind, Except.bind] at h
      cases h
    | ok sample =>
      simp only [hsample, bind, Except.bind] at h
      cases h
      unfold clip
      split
      · exact Nat.min_le_right _ _
      · exact Nat.sub_le _ _

/-- Two indexes of one file name are the same exactly when they have as many negatives. -/
theorem newIndex_eq_iff {base : Base} (hshuffle : ∀ seed list, (base.shuffle seed list).Perm list)
    {params params' : Params} (hname : filepath params = filepath params') {data : List Text}
    (hdata : newIndex base params = .ok data) :
    newIndex base params = newIndex base params' ↔
      negativeCount base params = negativeCount base params' := by
  obtain ⟨hseed, hshare⟩ := share_eq_of_filepath base hname
  obtain ⟨positive, count, hpositive, hcount, rfl⟩ := newIndex_eq_ok_iff.mp hdata
  have hle := (negativeCount_le hcount).2
  rw [hdata, hcount]
  constructor
  · intro h
    obtain ⟨positive', count', hpositive', hcount', heq⟩ := newIndex_eq_ok_iff.mp h.symm
    have hle' := (negativeCount_le hcount').2
    cases (hpositive.symm.trans (hshare.trans hpositive'))
    have hlength := congrArg List.length heq
    rw [(hshuffle _ _).length_eq, (hshuffle _ _).length_eq, List.length_append, List.length_append,
      List.length_take, List.length_take, ← hseed] at hlength
    rw [← hseed] at hle'
    have hcounts : count = count' := by omega
    rw [hcount', hcounts]
  · intro h
    refine (newIndex_eq_ok_iff.mpr ⟨positive, count, hshare.symm.trans hpositive, h.symm, ?_⟩).symm
    rw [hseed]

/-- Lines that are shuffled, cut and joined to others are still lines, so that a file of them is
read back. -/
theorem isLine_of_mem_newIndex {base : Base}
    (hshuffle : ∀ seed list, (base.shuffle seed list).Perm list) {params : Params}
    {data : List Text} (hdata : newIndex base params = .ok data) :
    ∀ line ∈ data, IsLine line := by
  obtain ⟨positive, count, hpositive, -, rfl⟩ := newIndex_eq_ok_iff.mp hdata
  have hread : ∀ {content line}, line ∈ base.shuffle params.seed (readLines content) →
      IsLine line := fun h => isLine_of_mem_readLines ((hshuffle _ _).mem_iff.mp h)
  intro line hline
  rcases List.mem_append.mp ((hshuffle _ _).mem_iff.mp hline) with hline | hline
  · exact hread (List.mem_of_mem_take hline)
  · unfold positiveShare at hpositive
    simp only [bind, Except.bind] at hpositive
    split at hpositive
    · cases hpositive
    split at hpositive
    · cases hpositive
    · cases hpositive
      exact hread (List.mem_of_mem_drop (List.mem_of_mem_take hline))

/-! ## The index files as a memory -/

/-- The index files hold the indexes of a memory. -/
structure Holds (files : Files) (store : Dict (List Char) (List Text)) : Prop where
  /-- Each file is an index, written down. -/
  content : ∀ name, files.get? name = (store.get? name).map writeLines
  /-- An index has lines that can be read back. -/
  lines : ∀ name data, store.get? name = some data → ∀ line ∈ data, IsLine line

/-- At the start there are no files, and none are accounted for. -/
theorem holds_empty : Holds Dict.empty Dict.empty :=
  ⟨fun _ => rfl, fun _ _ h => nomatch h⟩

/-- A call is a request to the memory. -/
theorem createIndex_request {base : Base}
    (hshuffle : ∀ seed list, (base.shuffle seed list).Perm list) {word : Text}
    (hword : keyword base = .ok word) {files : Files} {store : Dict (List Char) (List Text)}
    (h : Holds files store) (params : Params) :
    (createIndex base files params).1 =
        (request filepath (newIndex base) store params).1.map (fun data => (data, word)) ∧
      Holds (createIndex base files params).2
        (request filepath (newIndex base) store params).2 := by
  have hcontent := h.content (filepath params)
  unfold createIndex request
  rw [hword]
  cases hstore : store.get? (filepath params) with
  | some data =>
    rw [hstore] at hcontent
    simp only [hcontent, Option.map_some, readLines_writeLines (h.lines _ _ hstore)]
    exact ⟨rfl, h⟩
  | none =>
    rw [hstore] at hcontent
    simp only [hcontent, Option.map_none]
    cases hdata : newIndex base params with
    | error raised => exact ⟨rfl, h⟩
    | ok data =>
      refine ⟨rfl, fun name => ?_, fun name data' hget => ?_⟩
      · rw [Dict.get?_set, Dict.get?_set, h.content]
        split <;> rfl
      · rw [Dict.get?_set] at hget
        split at hget
        · cases hget
          exact isLine_of_mem_newIndex hshuffle hdata
        · exact h.lines name data' hget

/-- After any history a file has the index that its first request made, since later ones find it
there. -/
theorem holds_filesAfter {base : Base}
    (hshuffle : ∀ seed list, (base.shuffle seed list).Perm list) {word : Text}
    (hword : keyword base = .ok word) (history : List Params) :
    Holds (filesAfter base history) (after filepath (newIndex base) history) := by
  have hrun : ∀ files store, Holds files store →
      Holds (history.foldl (fun files params => (createIndex base files params).2) files)
        (history.foldl (fun store params =>
          (request filepath (newIndex base) store params).2) store) := by
    induction history with
    | nil => exact fun _ _ h => h
    | cons params rest ih =>
      exact fun files store h => ih _ _ (createIndex_request hshuffle hword h params).2
  exact hrun _ _ holds_empty

/-! ## Earlier calls -/

/-- The first earlier call under the same file name that writes an index. -/
def writer (base : Base) (history : List Params) (params : Params) : Option Params :=
  history.find? fun earlier =>
    decide (filepath earlier = filepath params) && (negativeCount base earlier).isOk

/-- Only the number of negative lines can make a request fail. -/
theorem isOk_newIndex (base : Base) (params : Params) :
    (newIndex base params).isOk = (negativeCount base params).isOk := by
  cases hcount : negativeCount base params with
  | ok count =>
    obtain ⟨⟨positive, hpositive⟩, -⟩ := negativeCount_le hcount
    rw [newIndex_eq_ok_iff.mpr ⟨positive, count, hpositive, hcount, rfl⟩]
    rfl
  | error raised =>
    cases hdata : newIndex base params with
    | error raised' => rfl
    | ok data =>
      obtain ⟨_, _, _, hcount', _⟩ := newIndex_eq_ok_iff.mp hdata
      cases hcount.symm.trans hcount'

/-- The request that wrote a file is the first one in the history that names it. -/
theorem writer_eq (base : Base) (history : List Params) (params : Params) :
    Lib.Memo.writer filepath (newIndex base) history (filepath params) =
      writer base history params := by
  unfold Lib.Memo.writer writer
  simp only [isOk_newIndex]

/-- The index after a history is that of a fresh directory exactly when the file's writer asked for
as many negatives. -/
theorem createIndex_fresh_iff {base : Base}
    (hshuffle : ∀ seed list, (base.shuffle seed list).Perm list) (history : List Params)
    (params : Params) :
    (createIndex base (filesAfter base history) params).1 =
        (createIndex base Dict.empty params).1 ↔
      ((keyword base).isOk = true → ∀ earlier, writer base history params = some earlier →
        negativeCount base earlier = negativeCount base params) := by
  cases hword : keyword base with
  | error raised =>
    unfold createIndex
    rw [hword]
    exact iff_of_true rfl fun h => nomatch h
  | ok word =>
    have hfresh : (request filepath (newIndex base) Dict.empty params).1 = newIndex base params := by
      unfold request
      rw [Dict.get?_empty]
      cases newIndex base params <;> rfl
    have hmap : Function.Injective
        (Except.map (fun data : List Text => (data, word)) : Except Raised (List Text) → _) := by
      intro first second h
      cases first <;> cases second <;> cases h <;> rfl
    rw [(createIndex_request hshuffle hword (holds_filesAfter hshuffle hword history) params).1,
      (createIndex_request hshuffle hword holds_empty params).1, hfresh, hmap.eq_iff,
      request_after_eq_iff]
    constructor
    · intro h _ earlier hearlier
      rw [← writer_eq] at hearlier
      obtain ⟨-, hname, data, hdata⟩ := writer_spec hearlier
      exact (newIndex_eq_iff hshuffle hname hdata).mp (h earlier hearlier)
    · intro h earlier hearlier
      obtain ⟨-, hname, data, hdata⟩ := writer_spec hearlier
      rw [writer_eq] at hearlier
      exact (newIndex_eq_iff hshuffle hname hdata).mpr (h rfl earlier hearlier)

/-- Two servers with histories of their own create for a request the index that a new server would
create, exactly when the request that wrote the file which they find, if there is one, asked for as
many negative entries as this one does. The name of the file has only two digits of the base
rate. -/
theorem createIndex_of_request_iff {base : Base}
    (hshuffle : ∀ seed list, (base.shuffle seed list).Perm list)
    (history history' : List Params) (params : Params) :
    ((createIndex base (filesAfter base history) params).1 =
        (createIndex base Dict.empty params).1 ∧
      (createIndex base (filesAfter base history') params).1 =
        (createIndex base Dict.empty params).1) ↔
      ((keyword base).isOk = true → ∀ earlier,
        writer base history params = some earlier ∨ writer base history' params = some earlier →
          negativeCount base earlier = negativeCount base params) := by
  rw [createIndex_fresh_iff hshuffle, createIndex_fresh_iff hshuffle]
  constructor
  · rintro ⟨h, h'⟩ hword earlier (hwriter | hwriter)
    · exact h hword earlier hwriter
    · exact h' hword earlier hwriter
  · intro h
    exact ⟨fun hword earlier hwriter => h hword earlier (.inl hwriter),
      fun hword earlier hwriter => h hword earlier (.inr hwriter)⟩

/-- One positive and one negative entry, and a seed that leaves two entries in place. -/
def smallBase : Base where
  positive := ofString "p/a"
  negative := ofString "n/b"
  shuffle _ list := list

/-- A request to one server with seed zero. -/
def single (baseRate : Float) : Params where
  baseRate := baseRate
  seed := 0
  rank := 0
  totalServers := 1

/-- The same request made twice gives the same index, read from the file the second time. -/
theorem createIndex_of_request_repeated :
    (createIndex smallBase (filesAfter smallBase [single 50]) (single 50)).1 =
      (createIndex smallBase Dict.empty (single 50)).1 := by
  have hwriter : ∀ earlier, writer smallBase [single 50] (single 50) = some earlier ∨
      writer smallBase [] (single 50) = some earlier → earlier = single 50 := by
    rintro earlier (h | h)
    · exact List.mem_singleton.mp (List.mem_of_find?_eq_some h)
    · cases h
  exact ((createIndex_of_request_iff (fun _ list => .refl list) [single 50] [] (single 50)).mpr
    fun _ earlier h => congrArg _ (hwriter earlier h)).1

/-- A base rate of 50 % leaves its index for one of 50.004 %: the two rates are rounded to one file
name, but ask for different numbers of negative entries. -/
theorem index_of_other_rate :
    roundTo 4 50.004 = 50.004 ∧
      (createIndex smallBase (filesAfter smallBase [single 50]) (single 50.004)).1 =
        .ok ([ofString "n/b", ofString "p/a"], ofString "p") ∧
      (createIndex smallBase Dict.empty (single 50.004)).1 =
        .ok ([ofString "p/a"], ofString "p") := by
  decide +kernel

end OpenDiamond.AugmentStore
