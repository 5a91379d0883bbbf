import Mathlib.Data.Finset.Basic
import OpenDiamond.Lib.OrderedDict
import OpenDiamond.Lib.Traversal
import OpenDiamond.Lib.Unicode

/-!
# The attributes of an object on their way to the client

The values of attributes are byte strings or texts. Filters set attributes and omit them; an
accepted object is sent with the names of all attributes that were not omitted, and with the
values that the client asked for. The client takes an object without attributes for the end
of the search.
-/

namespace OpenDiamond.ObjectAttributes

open Lib.OrderedDict Lib.Traversal Lib.Unicode

/-- A sequence of bytes. -/
abbrev Bytes := List UInt8

/-- The value of an attribute. -/
inductive Value where
  | bytes (data : Bytes)
  | text (points : Text)
  deriving DecidableEq

/-- The bytes of a value, `none` for a text that has no encoding. -/
def Value.encode : Value → Option Bytes
  | .bytes data => some data
  | .text points => encodeUtf8 points

/-- `ATTR_OBJ_ID`. -/
def attrObjId : Text := ofString "_ObjectID"

/-- `ATTR_DEVICE_NAME`. -/
def attrDeviceName : Text := ofString "Device-Name"

/-- An `Object`. It has an ID from the beginning, and only attributes that it has are
omitted. -/
structure Object where
  /-- `_id`. -/
  id : Text
  /-- `src`, if it is set. -/
  src : Option Text
  /-- `meta`, if it is set. -/
  metaUri : Option Text
  /-- `_compute_signature`. -/
  computeSignature : Bool
  /-- `_attrs`. -/
  attrs : Dict Text Value
  /-- `_omit_attrs`. -/
  omitAttrs : Finset Text
  /-- The ID is an attribute. -/
  named : (attrs.get? attrObjId).isSome
  /-- What is omitted is an attribute. -/
  omitted : ∀ key ∈ omitAttrs, (attrs.get? key).isSome

namespace Object

/-- The names of the attributes. -/
def names (obj : Object) : Finset Text := obj.attrs.keys.toFinset

theorem mem_names (obj : Object) (key : Text) : key ∈ obj.names ↔ (obj.attrs.get? key).isSome := by
  rw [names, List.mem_toFinset, Dict.mem_keys_iff]

theorem isSome_set {attrs : Dict Text Value} {key key' : Text} {value : Value}
    (h : (attrs.get? key').isSome) : ((attrs.set key value).get? key').isSome := by
  rw [Dict.get?_set]
  split
  · rfl
  · exact h

/-- `__setitem__`, `none` when the value has to be signed and cannot be encoded. -/
def setItem (obj : Object) (key : Text) (value : Value) : Option Object :=
  if obj.computeSignature && value.encode.isNone then none
  else some { obj with
    attrs := obj.attrs.set key value
    named := isSome_set obj.named
    omitted := fun key' h => isSome_set (obj.omitted key' h) }

/-- `omit`, `none` for `KeyError`. -/
def omitAttr (obj : Object) (key : Text) : Option Object :=
  if h : (obj.attrs.get? key).isSome then
    some { obj with
      omitAttrs := insert key obj.omitAttrs
      omitted := by
        intro key' hkey
        rcases Finset.mem_insert.mp hkey with rfl | hkey
        · exact h
        · exact obj.omitted key' hkey }
  else none

end Object

/-! ## What is sent -/

/-- The order in which a program goes through a set. -/
structure Iteration where
  /-- The members in a row. -/
  list : Finset Text → List Text
  /-- Each comes once. -/
  nodup : ∀ set, (list set).Nodup
  /-- All of them come. -/
  mem_list : ∀ set key, key ∈ list set ↔ key ∈ set

theorem Iteration.list_singleton (iteration : Iteration) (key : Text) :
    iteration.list {key} = [key] := by
  have hperm : (iteration.list {key}).Perm [key] := by
    rw [List.perm_ext_iff_of_nodup (iteration.nodup _) (List.nodup_singleton key)]
    intro other
    rw [iteration.mem_list, Finset.mem_singleton, List.mem_singleton]
  exact List.perm_singleton.mp hperm

section Sending

variable (iteration : Iteration)

/-- The names that are sent. -/
def sendKeys (obj : Object) (forDrop : Bool) : Finset Text :=
  if forDrop then {attrObjId} else obj.names \ obj.omitAttrs

/-- The names that are sent with their values. -/
def sendValues (outputSet : Option (Finset Text)) (keys : Finset Text) : Finset Text :=
  match outputSet with
  | none => keys
  -- the object ID is always sent
  | some output => keys ∩ (output ∪ {attrObjId})

/-- `xdr_attributes`: the names and values of the `XDR_attribute`s, `none` when a text cannot
be encoded. -/
def xdrAttributes (obj : Object) (outputSet : Option (Finset Text)) (forDrop : Bool) :
    Option (List (Text × Bytes)) :=
  let keys := sendKeys obj forDrop
  let values := sendValues outputSet keys
  (iteration.list keys).mapM fun name =>
    (if name ∈ values then (obj.attrs.get? name).bind Value.encode else some []).map
      fun value => (name, value)

/-- `get_result` of the client, before the values are unpacked: `none` ends the search. -/
def getResult (attrs : List (Text × Bytes)) : Option (Dict Text Bytes) :=
  let dct := Dict.empty.setAll attrs
  if dct.entries = [] then none else some dct

/-! ## The rules -/

/-- A name that carries its value. -/
def Pushed (outputSet : Option (Finset Text)) (name : Text) : Prop :=
  ∀ output, outputSet = some output → name ∈ output ∨ name = attrObjId

/-- The list for an object obeys the rules of push attributes. -/
structure Obeys (obj : Object) (outputSet : Option (Finset Text)) (forDrop : Bool)
    (attrs : List (Text × Bytes)) : Prop where
  /-- No name comes twice. -/
  once : (attrs.map Prod.fst).Nodup
  /-- The names of an accepted object are those that were not omitted. -/
  names : forDrop = false → ∀ name,
    name ∈ attrs.map Prod.fst ↔ name ∈ obj.names ∧ name ∉ obj.omitAttrs
  /-- The ID of an accepted object is among them. -/
  objectId : forDrop = false → attrObjId ∈ attrs.map Prod.fst
  /-- The values of an accepted object are those that the client asked for. -/
  values : forDrop = false → ∀ name data, (name, data) ∈ attrs →
    (Pushed outputSet name → (obj.attrs.get? name).bind Value.encode = some data) ∧
      (¬Pushed outputSet name → data = [])
  /-- Of a dropped object the ID is sent. -/
  dropped : forDrop = true → ∃ data, attrs = [(attrObjId, data)] ∧
    (obj.attrs.get? attrObjId).bind Value.encode = some data
  /-- The object does not end the search. -/
  lasting : (getResult attrs).isSome

/-- The values that are sent can be encoded. -/
def Encodable (obj : Object) (outputSet : Option (Finset Text)) (forDrop : Bool) : Prop :=
  ∀ name ∈ sendKeys obj forDrop, Pushed outputSet name →
    ∀ value, obj.attrs.get? name = some value → value.encode.isSome

theorem mem_sendValues {outputSet : Option (Finset Text)} {keys : Finset Text} {name : Text}
    (h : name ∈ keys) : name ∈ sendValues outputSet keys ↔ Pushed outputSet name := by
  cases outputSet with
  | none =>
    refine iff_of_true h ?_
    intro output houtput
    cases houtput
  | some output =>
    rw [sendValues, Finset.mem_inter, Finset.mem_union, Finset.mem_singleton, Pushed,
      and_iff_right h]
    constructor
    · rintro hname other hother
      cases hother
      exact hname
    · intro hname
      exact hname output rfl

/-- Everything that is sent is an attribute. -/
theorem isSome_of_mem_sendKeys {obj : Object} {forDrop : Bool} {name : Text}
    (h : name ∈ sendKeys obj forDrop) : (obj.attrs.get? name).isSome := by
  cases forDrop with
  | true =>
    rw [sendKeys, if_pos rfl, Finset.mem_singleton] at h
    rw [h]
    exact obj.named
  | false =>
    rw [sendKeys, if_neg Bool.false_ne_true, Finset.mem_sdiff] at h
    exact (obj.mem_names name).mp h.1

/-- The list, when there is one: the names in the order of the set, each with its value or
without. -/
theorem xdrAttributes_spec {obj : Object} {outputSet : Option (Finset Text)} {forDrop : Bool}
    {attrs : List (Text × Bytes)}
    (h : xdrAttributes iteration obj outputSet forDrop = some attrs) :
    attrs.map Prod.fst = iteration.list (sendKeys obj forDrop) ∧
      ∀ name data, (name, data) ∈ attrs →
        (Pushed outputSet name → (obj.attrs.get? name).bind Value.encode = some data) ∧
          (¬Pushed outputSet name → data = []) := by
  have hall := forall₂_of_mapM_some h
  constructor
  · have hfst : List.Forall₂ Eq (iteration.list (sendKeys obj forDrop)) (attrs.map Prod.fst) := by
      refine List.forall₂_map_right_iff.mpr (hall.imp ?_)
      intro name pair hpair
      obtain ⟨data, -, rfl⟩ := Option.map_eq_some_iff.mp hpair
      rfl
    rw [List.forall₂_eq_eq_eq] at hfst
    exact hfst.symm
  · intro name data hmem
    obtain ⟨key, hkey, hpair⟩ := exists_of_mem_forall₂ hall hmem
    have hsent := (iteration.mem_list _ _).mp hkey
    obtain ⟨value, hvalue, heq⟩ := Option.map_eq_some_iff.mp hpair
    cases heq
    constructor
    · intro hpushed
      rwa [if_pos ((mem_sendValues hsent).mpr hpushed)] at hvalue
    · intro hpushed
      rw [if_neg fun hmem => hpushed ((mem_sendValues hsent).mp hmem)] at hvalue
      exact (Option.some.inj hvalue).symm

/-- There is a list when the values that are sent can be encoded. -/
theorem isSome_xdrAttributes_iff {obj : Object} {outputSet : Option (Finset Text)}
    {forDrop : Bool} :
    (xdrAttributes iteration obj outputSet forDrop).isSome ↔ Encodable obj outputSet forDrop := by
  rw [xdrAttributes, isSome_mapM_iff, Encodable]
  refine forall_congr' fun name => ?_
  rw [iteration.mem_list]
  refine imp_congr_right fun hsent => ?_
  rw [Option.isSome_map]
  obtain ⟨value, hvalue⟩ := Option.isSome_iff_exists.mp (isSome_of_mem_sendKeys hsent)
  by_cases hpushed : Pushed outputSet name
  · rw [if_pos ((mem_sendValues hsent).mpr hpushed), hvalue]
    simp [hpushed]
  · rw [if_neg fun hmem => hpushed ((mem_sendValues hsent).mp hmem)]
    simp [hpushed]

theorem isSome_getResult {attrs : List (Text × Bytes)} {name : Text}
    (h : name ∈ attrs.map Prod.fst) : (getResult attrs).isSome := by
  have hthere := Dict.isSome_get?_setAll (d := (Dict.empty : Dict Text Bytes)) (Or.inl h)
  unfold getResult
  dsimp only
  split
  · rename_i hempty
    rw [Dict.get?, hempty] at hthere
    cases hthere
  · rfl

/-- The list of attributes for an object exists and obeys the rules exactly when the ID of an
accepted object was not omitted by a filter, and the values that are sent can be encoded. -/
theorem xdrAttributes_obeys_iff (obj : Object) (outputSet : Option (Finset Text))
    (forDrop : Bool) :
    (∃ attrs, xdrAttributes iteration obj outputSet forDrop = some attrs ∧
        Obeys obj outputSet forDrop attrs) ↔
      (forDrop = true ∨ attrObjId ∉ obj.omitAttrs) ∧ Encodable obj outputSet forDrop := by
  constructor
  · rintro ⟨attrs, hattrs, hobeys⟩
    refine ⟨?_, (isSome_xdrAttributes_iff iteration).mp (Option.isSome_of_eq_some hattrs)⟩
    cases forDrop with
    | true => exact Or.inl rfl
    | false => exact Or.inr ((hobeys.names rfl _).mp (hobeys.objectId rfl)).2
  · rintro ⟨hid, hencodable⟩
    obtain ⟨attrs, hattrs⟩ := Option.isSome_iff_exists.mp
      ((isSome_xdrAttributes_iff iteration).mpr hencodable)
    obtain ⟨hnames, hvalues⟩ := xdrAttributes_spec iteration hattrs
    have hmem : ∀ name, name ∈ attrs.map Prod.fst ↔ name ∈ sendKeys obj forDrop := by
      intro name
      rw [hnames, iteration.mem_list]
    have hsent : attrObjId ∈ sendKeys obj forDrop := by
      cases forDrop with
      | true => exact Finset.mem_singleton_self attrObjId
      | false =>
        have hkept := hid.resolve_left Bool.false_ne_true
        exact Finset.mem_sdiff.mpr ⟨(obj.mem_names _).mpr obj.named, hkept⟩
    have hthere := (hmem attrObjId).mpr hsent
    refine ⟨attrs, hattrs, ?_, ?_, fun _ => hthere, fun _ => hvalues, ?_, isSome_getResult hthere⟩
    · rw [hnames]
      exact iteration.nodup _
    · rintro rfl name
      rw [hmem]
      exact Finset.mem_sdiff
    · rintro rfl
      have hone : attrs.map Prod.fst = [attrObjId] :=
        hnames.trans (iteration.list_singleton attrObjId)
      obtain ⟨⟨name, data⟩, rfl, hname⟩ := List.map_eq_singleton_iff.mp hone
      dsimp only at hname
      subst hname
      have hpushed : Pushed outputSet attrObjId := fun _ _ => Or.inr rfl
      exact ⟨data, rfl, (hvalues _ _ List.mem_cons_self).1 hpushed⟩

end Sending

/-! ## What filters can omit -/

/-- A request of a filter that changes the object. -/
inductive Request where
  | setAttribute (key : Text) (value : Bytes)
  | omitAttribute (key : Text)
  deriving DecidableEq

/-- The object after a request; an omission that raises `KeyError` is answered with false. -/
def serve (obj : Object) : Request → Object
  | .setAttribute key value => (obj.setItem key (.bytes value)).getD obj
  | .omitAttribute key => (obj.omitAttr key).getD obj

/-- An object as it is created. -/
def plainObject : Object where
  id := ofString "http://localhost/1"
  src := none
  metaUri := none
  computeSignature := false
  attrs := (Dict.empty.set attrDeviceName (.text (ofString "localhost" ++ [0]))).set attrObjId
    (.text (ofString "http://localhost/1" ++ [0]))
  omitAttrs := ∅
  named := rfl
  omitted := by simp

/-- Some order for every set. -/
noncomputable def someIteration : Iteration :=
  ⟨Finset.toList, Finset.nodup_toList, fun _ _ => Finset.mem_toList⟩

/-- The object after a filter has asked for both of its attributes to be omitted. -/
def unnamedObject : Object :=
  [Request.omitAttribute attrDeviceName, .omitAttribute attrObjId].foldl serve plainObject

/-- A filter omits the two attributes that every object has; the object is then sent without
attributes, which the client takes for the end of the search. -/
theorem omitted_id_ends_search :
    (∃ attrs, xdrAttributes someIteration unnamedObject none false = some attrs ∧
      getResult attrs = none) ∧
    ¬∃ attrs, xdrAttributes someIteration unnamedObject none false = some attrs ∧
      Obeys unnamedObject none false attrs := by
  have hkeys : sendKeys unnamedObject false = ∅ := by decide
  have hnone : xdrAttributes someIteration unnamedObject none false = some [] := by
    have hlist : someIteration.list ∅ = [] := Finset.toList_empty
    rw [xdrAttributes, hkeys, hlist]
    rfl
  refine ⟨⟨[], hnone, rfl⟩, ?_⟩
  rintro ⟨attrs, hattrs, hobeys⟩
  cases hnone.symm.trans hattrs
  have hid := hobeys.objectId rfl
  cases hid

end OpenDiamond.ObjectAttributes
