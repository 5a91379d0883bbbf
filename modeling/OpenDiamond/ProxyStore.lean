import Mathlib.Algebra.BigOperators.Ring.Finset
import OpenDiamond.Lib.Dealing
import OpenDiamond.Lib.Markup
import OpenDiamond.Lib.Urls
import OpenDiamond.Lib.Words
import OpenDiamond.ObjectAttributes
import OpenDiamond.ScopeLists

/-!
# Scope lists through proxies

A proxy reads a scope list and serves a share of it: every so many objects, with their links
made absolute. The proxies' lists are read like every other scope list. Together they bring
the objects of the list that was read, without the attributes that are not links.
-/

namespace OpenDiamond.ProxyStore

open Lib.Dealing Lib.OrderedDict Lib.Unicode Lib.Urls
open Lib.Markup (Reader Tag Reads ReadsBytes plain)
open ObjectAttributes (Object Value attrDeviceName attrObjId)
open ScopeLists (Attrs Bytes Element Handler Parser Progress feedAll objects readList)

/-! ## The program -/

/-- The name of the attribute for the ID. -/
def idKey : Text := ofString "id"

/-- The name of the attribute for the data. -/
def srcKey : Text := ofString "src"

/-- The name of the attribute for the metadata. -/
def metaKey : Text := ofString "meta"

/-- A document with an `objectlist` and the elements in it, which hold no others. -/
structure ScopeList where
  /-- Attributes of the `objectlist`. -/
  attrs : Attrs
  /-- The elements in it. -/
  children : List Element

/-- The elements in the order in which they begin. -/
def ScopeList.starts (document : ScopeList) : List Element :=
  ⟨ofString "objectlist", document.attrs⟩ :: document.children

/-- The elements in the order in which they end. -/
def ScopeList.ends (document : ScopeList) : List Element :=
  document.children ++ [⟨ofString "objectlist", document.attrs⟩]

/-- A further attribute, if there is a value for it. -/
def optional (name : Text) (value : Option Text) : Text :=
  match value with
  | none => []
  | some value =>
    if value = [] then [] else ofString " " ++ name ++ ofString "=\"" ++ value ++ ofString "\" "

section Program

variable (accepts : Text → Bool)

/-- `urljoin` of an optional attribute, `none` for its `ValueError`. -/
def joinOptional (base : Text) (value : Option Text) : Option (Option Text) :=
  match value with
  | none => some none
  | some value => (urljoin accepts base value).map some

/-- What `_generate` yields for an object, `none` for its exceptions. -/
def entry (base : Text) (attrs : Attrs) : Option Text := do
  -- a missing ID raises `KeyError`
  let id ← (attrs.get? idKey).bind (urljoin accepts base)
  let src ← joinOptional accepts base (attrs.get? srcKey)
  let metaUri ← joinOptional accepts base (attrs.get? metaKey)
  return ofString "<count adjust=\"1\"/>\n<object id=\"" ++ id ++ ofString "\" " ++
    optional srcKey src ++ optional metaKey metaUri ++ ofString "/>\n"

/-- The loop of `_generate` over the elements that end. -/
def entries (base : Text) (index : ℤ) (count : ℕ) : ℕ → List Element → Option Text
  | _, [] => some []
  | seen, element :: rest =>
    if element.name ≠ ofString "object" then entries base index count seen rest
    -- `ZeroDivisionError`
    else if count = 0 then none
    else if ((seen % count : ℕ) : ℤ) = index then do
      let text ← entry accepts base element.attrs
      let more ← entries base index count (seen + 1) rest
      return text ++ more
    else entries base index count (seen + 1) rest

/-- `_generate`: all that is yielded, `none` for its exceptions. `STYLE` is false. -/
def generate (base : Text) (index count : ℕ) (document : ScopeList) : Option Text :=
  (entries accepts base (index - 1) count 0 document.ends).map fun text =>
    ofString "<?xml version=\"1.0\" encoding=\"UTF-8\" ?>\n" ++ ofString "<objectlist>\n" ++ text ++
      ofString "</objectlist>\n"

/-- The body of the response of a proxy. -/
def serve (base : Text) (index count : ℕ) (document : ScopeList) : Option Bytes :=
  (generate accepts base index count document).bind encodeUtf8

/-- `Object.__init__`, `none` when the values have to be signed and cannot be encoded. -/
def newObject (serverId url : Text) (src metaUri : Option Text) (computeSignature : Bool) :
    Option Object :=
  let device := Value.text (serverId ++ [0])
  let name := Value.text (url ++ [0])
  if computeSignature && (device.encode.isNone || name.encode.isNone) then none
  else some {
    id := url
    src := src
    metaUri := metaUri
    computeSignature := computeSignature
    attrs := (Dict.empty.set attrDeviceName device).set attrObjId name
    omitAttrs := ∅
    named := by rw [Dict.get?_set_self]; rfl
    omitted := fun _ h => absurd h (Finset.notMem_empty _) }

/-- `urljoin` of a link of an object, which is not set when it is empty. -/
def joinLink (scopeUrl : Text) (link : Option Text) : Option (Option Text) :=
  match link with
  | none => some none
  | some link => if link = [] then some none else (urljoin accepts scopeUrl link).map some

/-- The ID of an object, or its source in place of it. -/
def joinId (scopeUrl : Text) (id src : Option Text) : Option Text :=
  match id, src with
  -- `TypeError`
  | none, none => none
  | none, some src => some src
  | some id, src => if id = [] then some (src.getD []) else urljoin accepts scopeUrl id

/-- The attributes that are no links. -/
def remaining (attrs : Attrs) : Attrs := ((attrs.erase idKey).erase srcKey).erase metaKey

/-- `__next__` for what the generator yields, `none` for its exceptions. -/
def nextObject (serverId : Text) (computeSignature : Bool) (scopeUrl : Text) (pending : Attrs) :
    Option Object := do
  let src ← joinLink accepts scopeUrl (pending.get? srcKey)
  let metaUri ← joinLink accepts scopeUrl (pending.get? metaKey)
  let id ← joinId accepts scopeUrl (pending.get? idKey) src
  let obj ← newObject serverId id src metaUri computeSignature
  (remaining pending).entries.foldlM
    (fun obj entry => obj.setItem entry.1 (.text (entry.2 ++ [0]))) obj

end Program

/-- The element of a tag. -/
def element (tag : Tag) : Element := ⟨tag.name, tag.attrs⟩

/-- The parser of the loader, on the documents that the reader can read. -/
def parser : Parser Reader where
  feed reader chunk :=
    let result := Lib.Markup.run reader chunk
    ⟨result.1.map element, result.2.isSome, result.2.getD reader⟩
  close reader := ⟨[], reader.finished, reader⟩
  reset _ := .new

/-- The objects of a list that is read by a new loader, `none` for each where `__next__`
raises an exception, and the count that it then has. -/
def load (accepts : Text → Bool) (serverId : Text) (computeSignature : Bool) (url : Text)
    (chunks : List Bytes) : List (Option Object) × ℤ :=
  let progress := readList Lib.Words.readInt parser url ⟨0, []⟩ Reader.new (some chunks)
  (progress.yielded.map fun pending =>
    nextObject accepts serverId computeSignature pending.2 pending.1, progress.handler.count)

/-! ## Reading a document in chunks -/

section Counting

variable (toInt : Text → Option ℤ)

/-- What an element adds to the count. -/
def adjust (element : Element) : ℤ :=
  ((Handler.startElement toInt ⟨0, []⟩ element).map Handler.count).getD 0

/-- The objects of some elements come in the order of the elements. -/
theorem objects_append (elements more : List Element) :
    objects (elements ++ more) = objects elements ++ objects more := by
  simp [objects]

/-- The handler adds to what it holds. -/
theorem startElement_eq (handler : Handler) (element : Element) :
    handler.startElement toInt element =
      (Handler.startElement toInt ⟨0, []⟩ element).map fun own =>
        ⟨handler.count + own.count, handler.pending ++ own.pending⟩ := by
  unfold Handler.startElement
  by_cases hlist : element.name = ofString "objectlist"
  · rw [if_pos hlist, if_pos hlist]
    cases element.attrs.get? (ofString "count") with
    | none => simp
    | some count =>
      dsimp only
      cases toInt count <;> simp
  · rw [if_neg hlist, if_neg hlist]
    by_cases hcount : element.name = ofString "count"
    · rw [if_pos hcount, if_pos hcount]
      cases (element.attrs.get? (ofString "adjust")).bind toInt <;> simp
    · rw [if_neg hcount, if_neg hcount]
      split <;> simp

/-- Elements that raise no exception. -/
theorem startElements_eq {elements : List Element}
    (h : elements.all (ScopeLists.acceptable toInt) = true) (handler : Handler) :
    handler.startElements toInt elements =
      (⟨handler.count + (elements.map (adjust toInt)).sum,
        handler.pending ++ objects elements⟩, true) := by
  induction elements generalizing handler with
  | nil => simp [Handler.startElements, objects]
  | cons element rest ih =>
    rw [List.all_cons, Bool.and_eq_true, ScopeLists.acceptable] at h
    obtain ⟨hfirst, hrest⟩ := h
    obtain ⟨own, hown⟩ := Option.isSome_iff_exists.mp hfirst
    have hpending : own.pending = objects [element] := by
      have hspec := ScopeLists.startElement_pending toInt ⟨0, []⟩ element
      rw [hown, ScopeLists.acceptable, hown] at hspec
      simpa using hspec
    have hadjust : adjust toInt element = own.count := by rw [adjust, hown]; rfl
    rw [Handler.startElements, startElement_eq, hown, Option.map_some]
    dsimp only
    rw [ih hrest, hpending, List.map_cons, List.sum_cons, hadjust,
      ScopeLists.objects_cons element rest]
    simp [Int.add_assoc]

/-- In whatever chunks a document arrives, its objects are yielded and its counts added up. -/
theorem feedAll_of_reads (url : Text) {chunks : List Bytes} (hchunks : [] ∉ chunks)
    {reader last : Reader} {tags : List Tag} (hreads : ReadsBytes reader chunks.flatten tags last)
    (haccepted : (tags.map element).all (ScopeLists.acceptable toInt) = true) (count : ℤ) :
    feedAll toInt parser url ⟨count, []⟩ reader chunks =
      ⟨(objects (tags.map element)).map fun attrs => (attrs, url),
        ⟨count + ((tags.map element).map (adjust toInt)).sum, []⟩, last, .read⟩ := by
  induction chunks generalizing reader tags count with
  | nil =>
    cases hreads
    simp [feedAll, objects]
  | cons buf rest ih =>
    obtain ⟨next, first, more, hfirst, hmore, rfl⟩ := hreads.of_append
    have hbuf : buf ≠ [] := fun h => hchunks (h ▸ List.mem_cons_self)
    rw [List.map_append, List.all_append, Bool.and_eq_true] at haccepted
    have hreport : parser.feed reader buf = ⟨first.map element, true, next⟩ := by
      show (⟨(Lib.Markup.run reader buf).1.map element, _, _⟩ : ScopeLists.Report Reader) = _
      rw [hfirst]
      rfl
    rw [feedAll, if_neg hbuf, hreport]
    dsimp only
    rw [startElements_eq toInt haccepted.1]
    dsimp only
    rw [if_pos rfl, ih (fun h => hchunks (List.mem_cons_of_mem buf h)) hmore haccepted.2]
    simp only [Progress.after, List.nil_append, List.map_append, objects_append, List.sum_append,
      Int.add_assoc]

/-- A whole list is read when its tags are, in whatever chunks the response comes: all objects wait
for the loader, and the count has grown by what the tags add. -/
theorem readList_of_reads (url : Text) {chunks : List Bytes} (hchunks : [] ∉ chunks)
    {last : Reader} {tags : List Tag} (hreads : ReadsBytes .new chunks.flatten tags last)
    (haccepted : (tags.map element).all (ScopeLists.acceptable toInt) = true) :
    readList toInt parser url ⟨0, []⟩ .new (some chunks) =
      ⟨(objects (tags.map element)).map fun attrs => (attrs, url),
        ⟨((tags.map element).map (adjust toInt)).sum, []⟩, .new, .read⟩ := by
  have hfeed := feedAll_of_reads toInt url hchunks hreads haccepted 0
  rw [Int.zero_add] at hfeed
  rw [readList, ScopeLists.fetch, hfeed]
  rfl

end Counting

/-! ## Reading what a proxy writes -/

/-- A further attribute, if there is a value for it. -/
def setOptional (attrs : Attrs) (name : Text) (value : Option Text) : Attrs :=
  match value with
  | none => attrs
  | some value => if value = [] then attrs else attrs.set name value

/-- An attribute that is given and not empty is set; otherwise nothing is. -/
theorem get?_setOptional (attrs : Attrs) (name other : Text) (value : Option Text) :
    (setOptional attrs name value).get? other =
      if name = other ∧ value ≠ none ∧ value ≠ some [] then value else attrs.get? other := by
  cases value with
  | none => simp [setOptional]
  | some value =>
    rw [setOptional]
    by_cases hvalue : value = []
    · simp [hvalue]
    · by_cases hname : name = other <;> simp [hvalue, hname, Dict.get?_set]

/-- An attribute that the tag does not have yet becomes what is given, or stays absent. -/
theorem get?_setOptional_of_new {attrs : Attrs} {name : Text} {value : Option Text}
    (hnew : attrs.get? name = none) (hvalue : ∀ text, value = some text → text ≠ [])
    (other : Text) :
    (setOptional attrs name value).get? other =
      if name = other then value else attrs.get? other := by
  rw [get?_setOptional]
  by_cases hname : name = other
  · subst hname
    cases value with
    | none => simp [hnew]
    | some text => simp [hvalue text rfl]
  · simp [hname]

/-- The attributes that a proxy gives to an object. -/
def linkAttrs (id : Text) (src metaUri : Option Text) : Attrs :=
  setOptional (setOptional (Dict.empty.set idKey id) srcKey src) metaKey metaUri

/-- The tag in front of each object. -/
def countTag : Tag := ⟨ofString "count", Dict.empty.set (ofString "adjust") (ofString "1")⟩

section Writing

variable {stack : List Text}

/-- An optional attribute is read into the tag, and what is not given is not written. -/
theorem reads_optional {tag : Tag} {name : Text} {value : Option Text}
    (hname : Lib.Markup.isName name = true) (hnew : tag.attrs.get? name = none)
    (hvalue : ∀ text, value = some text → text.all plain = true) :
    Reads ⟨stack, true, .blank tag⟩ (optional name value) []
      ⟨stack, true, .blank { tag with attrs := setOptional tag.attrs name value }⟩ := by
  cases value with
  | none => exact Reads.nil _
  | some value =>
    rw [optional, setOptional]
    by_cases hempty : value = []
    · rw [if_pos hempty, if_pos hempty]
      exact Reads.nil _
    · rw [if_neg hempty, if_neg hempty]
      have hspace : Reads ⟨stack, true, .blank tag⟩ [32] [] ⟨stack, true, .blank tag⟩ :=
        Lib.Markup.Mode.Within.reads_space (Or.inr (Or.inl rfl))
      have hattribute : Reads ⟨stack, true, .blank tag⟩
          (name ++ [61] ++ ([34] ++ value ++ [34])) []
          ⟨stack, true, .behind { tag with attrs := tag.attrs.set name value }⟩ :=
        Lib.Markup.reads_attribute hname hnew (hvalue value rfl)
      have hend := hattribute.append
        (Lib.Markup.Mode.Within.reads_space (Or.inr (Or.inr rfl)))
      have hall := hspace.append hend
      have htext : ofString " " ++ name ++ ofString "=\"" ++ value ++ ofString "\" " =
          [32] ++ (name ++ [61] ++ ([34] ++ value ++ [34]) ++ [32]) := by
        have hequals : ofString "=\"" = [61, 34] := rfl
        have hquote : ofString "\" " = [34, 32] := rfl
        have hblank : ofString " " = [32] := rfl
        simp [hequals, hquote, hblank]
      rw [htext]
      exact hall

/-- The element that counts one object is read as a tag of its own. -/
theorem reads_countTag (hstack : stack ≠ []) :
    Reads ⟨stack, true, .between⟩ (ofString "<count adjust=\"1\"/>\n") [countTag]
      ⟨stack, true, .between⟩ := by
  have hopening : Reads ⟨stack, true, .between⟩ ([60] ++ ofString "count") []
      ⟨stack, true, .name (ofString "count")⟩ := Lib.Markup.reads_opening (by decide)
  have hspace : Reads ⟨stack, true, .name (ofString "count")⟩ [32] []
      ⟨stack, true, .blank ⟨ofString "count", Dict.empty⟩⟩ :=
    Lib.Markup.Mode.Within.reads_space (Or.inl ⟨rfl, rfl⟩)
  have hadjust : Reads ⟨stack, true, .blank ⟨ofString "count", Dict.empty⟩⟩
      (ofString "adjust" ++ [61] ++ ([34] ++ ofString "1" ++ [34])) []
      ⟨stack, true, .behind countTag⟩ :=
    Lib.Markup.reads_attribute (by decide) rfl (by decide)
  have hend : Reads ⟨stack, true, .behind countTag⟩ [47, 62] [countTag]
      ⟨stack, true, .between⟩ :=
    Lib.Markup.Mode.Within.reads_end (Or.inr (Or.inr rfl)) fun h => absurd h hstack
  exact (((hopening.append hspace).append hadjust).append hend).append
    Lib.Markup.reads_newline

/-- The element of one object is read with the links that it was written with. -/
theorem reads_objectTag (hstack : stack ≠ []) {id : Text} {src metaUri : Option Text}
    (hid : id.all plain = true) (hsrc : ∀ text, src = some text → text.all plain = true)
    (hmeta : ∀ text, metaUri = some text → text.all plain = true) :
    Reads ⟨stack, true, .between⟩
      ([60] ++ ofString "object" ++ [32] ++ (idKey ++ [61] ++ ([34] ++ id ++ [34])) ++ [32] ++
        optional srcKey src ++ optional metaKey metaUri ++ [47, 62] ++ [10])
      [⟨ofString "object", linkAttrs id src metaUri⟩] ⟨stack, true, .between⟩ := by
  have hopening : Reads ⟨stack, true, .between⟩ ([60] ++ ofString "object") []
      ⟨stack, true, .name (ofString "object")⟩ := Lib.Markup.reads_opening (by decide)
  have hspace : Reads ⟨stack, true, .name (ofString "object")⟩ [32] []
      ⟨stack, true, .blank ⟨ofString "object", Dict.empty⟩⟩ :=
    Lib.Markup.Mode.Within.reads_space (Or.inl ⟨rfl, rfl⟩)
  have hidAttribute : Reads ⟨stack, true, .blank ⟨ofString "object", Dict.empty⟩⟩
      (idKey ++ [61] ++ ([34] ++ id ++ [34])) []
      ⟨stack, true, .behind ⟨ofString "object", Dict.empty.set idKey id⟩⟩ :=
    Lib.Markup.reads_attribute (by decide) rfl hid
  have hblank : Reads ⟨stack, true, .behind ⟨ofString "object", Dict.empty.set idKey id⟩⟩ [32] []
      ⟨stack, true, .blank ⟨ofString "object", Dict.empty.set idKey id⟩⟩ :=
    Lib.Markup.Mode.Within.reads_space (Or.inr (Or.inr rfl))
  have hnewSrc : (Dict.empty.set idKey id).get? srcKey = none :=
    Dict.get?_set_of_ne _ _ (by decide)
  have hnewMeta : (setOptional (Dict.empty.set idKey id) srcKey src).get? metaKey = none := by
    rw [get?_setOptional, if_neg fun h => absurd h.1 (by decide)]
    exact Dict.get?_set_of_ne _ _ (by decide)
  have hsrcAttribute : Reads
      ⟨stack, true, .blank ⟨ofString "object", Dict.empty.set idKey id⟩⟩ (optional srcKey src) []
      ⟨stack, true, .blank ⟨ofString "object",
        setOptional (Dict.empty.set idKey id) srcKey src⟩⟩ :=
    reads_optional (by decide) hnewSrc hsrc
  have hmetaAttribute : Reads
      ⟨stack, true, .blank ⟨ofString "object",
        setOptional (Dict.empty.set idKey id) srcKey src⟩⟩ (optional metaKey metaUri) []
      ⟨stack, true, .blank ⟨ofString "object", linkAttrs id src metaUri⟩⟩ :=
    reads_optional (by decide) hnewMeta hmeta
  have hend : Reads ⟨stack, true, .blank ⟨ofString "object", linkAttrs id src metaUri⟩⟩ [47, 62]
      [⟨ofString "object", linkAttrs id src metaUri⟩] ⟨stack, true, .between⟩ :=
    Lib.Markup.Mode.Within.reads_end (Or.inr (Or.inl rfl)) fun h => absurd h hstack
  exact ((((((hopening.append hspace).append hidAttribute).append hblank).append
    hsrcAttribute).append hmetaAttribute).append hend).append Lib.Markup.reads_newline

/-- The two tags that a proxy writes for an object. -/
theorem reads_entry (hstack : stack ≠ []) {id : Text} {src metaUri : Option Text}
    (hid : id.all plain = true) (hsrc : ∀ text, src = some text → text.all plain = true)
    (hmeta : ∀ text, metaUri = some text → text.all plain = true) :
    Reads ⟨stack, true, .between⟩
      (ofString "<count adjust=\"1\"/>\n<object id=\"" ++ id ++ ofString "\" " ++
        optional srcKey src ++ optional metaKey metaUri ++ ofString "/>\n")
      [countTag, ⟨ofString "object", linkAttrs id src metaUri⟩] ⟨stack, true, .between⟩ := by
  have hboth := (reads_countTag hstack).append (reads_objectTag hstack hid hsrc hmeta)
  have hfirst : ofString "<count adjust=\"1\"/>\n<object id=\"" =
      ofString "<count adjust=\"1\"/>\n" ++
        ([60] ++ ofString "object" ++ [32] ++ (idKey ++ [61] ++ [34])) := by decide
  have hquote : ofString "\" " = [34] ++ [32] := rfl
  have hend : ofString "/>\n" = [47, 62] ++ [10] := rfl
  rw [hfirst, hquote, hend]
  simp only [List.append_assoc] at hboth ⊢
  exact hboth

end Writing

/-! ## Links -/

section Links

variable {accepts : Text → Bool} {base : Text}

/-- A link that can be resolved and written down as it is. -/
structure Linkable (accepts : Text → Bool) (base link : Text) : Prop where
  /-- It is a link. -/
  nonempty : link ≠ []
  /-- It has no symbol that has to be escaped. -/
  unescaped : link.all plain = true
  /-- `urljoin` raises no exception. -/
  joins : (urljoin accepts base link).isSome

/-- An object with an ID whose links can be resolved and written down as they are. -/
structure Forwardable (accepts : Text → Bool) (base : Text) (attrs : Attrs) : Prop where
  /-- The ID. -/
  id : ∃ id, attrs.get? idKey = some id ∧ Linkable accepts base id
  /-- The source, if there is one. -/
  src : ∀ src, attrs.get? srcKey = some src → Linkable accepts base src
  /-- The metadata, if there are some. -/
  metaUri : ∀ metaUri, attrs.get? metaKey = some metaUri → Linkable accepts base metaUri

instance (accepts : Text → Bool) (base link : Text) : Decidable (Linkable accepts base link) :=
  decidable_of_iff (link ≠ [] ∧ link.all plain = true ∧ (urljoin accepts base link).isSome)
    ⟨fun h => ⟨h.1, h.2.1, h.2.2⟩, fun h => ⟨h.nonempty, h.unescaped, h.joins⟩⟩

instance (accepts : Text → Bool) (base : Text) (attrs : Attrs) :
    Decidable (Forwardable accepts base attrs) :=
  decidable_of_iff ((∃ id ∈ attrs.get? idKey, Linkable accepts base id) ∧
      (∀ src ∈ attrs.get? srcKey, Linkable accepts base src) ∧
      ∀ metaUri ∈ attrs.get? metaKey, Linkable accepts base metaUri)
    ⟨fun h => ⟨h.1, h.2.1, h.2.2⟩, fun h => ⟨h.id, h.src, h.metaUri⟩⟩

/-- The attributes that a proxy forwards. -/
def forwarded (attrs : Attrs) : Attrs := attrs.restrict {idKey, srcKey, metaKey}

/-- A proxy forwards the three links of an object and drops every other attribute. -/
theorem get?_forwarded (attrs : Attrs) (key : Text) :
    (forwarded attrs).get? key =
      if key ∈ ({idKey, srcKey, metaKey} : Finset Text) then attrs.get? key else none :=
  Dict.get?_restrict _ _ _

/-- What is forwarded is one of these links. -/
theorem eq_of_isSome_forwarded {attrs : Attrs} {key : Text}
    (h : ((forwarded attrs).get? key).isSome) : key = idKey ∨ key = srcKey ∨ key = metaKey := by
  rw [get?_forwarded] at h
  split at h
  · rename_i hmem
    rw [Finset.mem_insert, Finset.mem_insert, Finset.mem_singleton] at hmem
    exact hmem
  · cases h

/-- A resolved link is written down as it is, and is the same under every base. -/
theorem Linkable.resolve (hbase : Web accepts base) (hplain : base.all plain = true) {link : Text}
    (h : Linkable accepts base link) :
    ∃ joined, urljoin accepts base link = some joined ∧ joined ≠ [] ∧ joined.all plain = true ∧
      ∀ proxy, Web accepts proxy → urljoin accepts proxy joined = some joined := by
  obtain ⟨joined, hjoined⟩ := Option.isSome_iff_exists.mp h.joins
  refine ⟨joined, hjoined, urljoin_ne_nil hbase h.nonempty hjoined, ?_, fun proxy hproxy =>
    urljoin_urljoin hbase hproxy h.nonempty hjoined⟩
  refine List.all_eq_true.mpr fun c hc => ?_
  rcases mem_urljoin hbase h.nonempty hjoined hc with hglue | hmem | hmem
  · have hall : glue.all Lib.Markup.plain = true := by decide
    exact List.all_eq_true.mp hall c hglue
  · exact List.all_eq_true.mp hplain c hmem
  · exact List.all_eq_true.mp h.unescaped c hmem

/-- An optional link, which the proxy and the loader resolve alike: the proxy writes it as a URL of
the web, and the loader joins that to itself. -/
theorem joinOptional_spec (hbase : Web accepts base) (hplain : base.all plain = true)
    {value : Option Text} (h : ∀ link, value = some link → Linkable accepts base link) :
    ∃ joined, joinOptional accepts base value = some joined ∧
      joinLink accepts base value = some joined ∧
      (∀ text, joined = some text → text ≠ [] ∧ text.all plain = true) ∧
      ∀ proxy, Web accepts proxy → joinLink accepts proxy joined = some joined := by
  cases value with
  | none =>
    refine ⟨none, rfl, rfl, fun text htext => ?_, fun _ _ => rfl⟩
    cases htext
  | some link =>
    obtain ⟨joined, hjoined, hne, hall, hstable⟩ := (h link rfl).resolve hbase hplain
    refine ⟨some joined, ?_, ?_, fun text htext => ?_, fun proxy hproxy => ?_⟩
    · rw [joinOptional, hjoined]
      rfl
    · rw [joinLink, if_neg (h link rfl).nonempty, hjoined]
      rfl
    · cases htext
      exact ⟨hne, hall⟩
    · rw [joinLink, if_neg hne, hstable proxy hproxy]
      rfl

/-- An object that has nothing but links has no attributes left to be set. -/
theorem remaining_eq_empty {attrs : Attrs}
    (h : ∀ key, (attrs.get? key).isSome → key = idKey ∨ key = srcKey ∨ key = metaKey) :
    (remaining attrs).entries = [] := by
  refine List.eq_nil_iff_forall_not_mem.mpr fun entry hentry => ?_
  have hget := ((remaining attrs).get?_eq_some_iff entry.1 entry.2).mpr hentry
  rw [remaining, Dict.get?_erase, Dict.get?_erase, Dict.get?_erase] at hget
  simp only [Option.ite_none_left_eq_some] at hget
  obtain ⟨hmeta, hsrc, hid, hvalue⟩ := hget
  rcases h entry.1 (by rw [hvalue]; rfl) with heq | heq | heq
  · exact hid heq.symm
  · exact hsrc heq.symm
  · exact hmeta heq.symm

/-- The links that a proxy wrote. -/
theorem get?_linkAttrs {id : Text} {src metaUri : Option Text}
    (hsrc : ∀ text, src = some text → text ≠ [])
    (hmeta : ∀ text, metaUri = some text → text ≠ []) (key : Text) :
    (linkAttrs id src metaUri).get? key =
      if metaKey = key then metaUri else if srcKey = key then src
      else if idKey = key then some id else none := by
  have hid : (Dict.empty.set idKey id).get? key = if idKey = key then some id else none :=
    Dict.get?_set _ _ _ _
  have hsrcNew : (Dict.empty.set idKey id).get? srcKey = none :=
    Dict.get?_set_of_ne _ _ (by decide)
  have hmetaNew : (setOptional (Dict.empty.set idKey id) srcKey src).get? metaKey = none := by
    rw [get?_setOptional_of_new hsrcNew hsrc, if_neg (by decide)]
    exact Dict.get?_set_of_ne _ _ (by decide)
  rw [linkAttrs, get?_setOptional_of_new hmetaNew hmeta, get?_setOptional_of_new hsrcNew hsrc, hid]

/-- An object whose attributes are links. -/
theorem nextObject_eq {url id : Text} {src metaUri : Option Text} {attrs : Attrs}
    (hid : joinId accepts url (attrs.get? idKey) src = some id)
    (hsrc : joinLink accepts url (attrs.get? srcKey) = some src)
    (hmeta : joinLink accepts url (attrs.get? metaKey) = some metaUri)
    (hkeys : ∀ key, (attrs.get? key).isSome → key = idKey ∨ key = srcKey ∨ key = metaKey)
    (serverId : Text) (signed : Bool) :
    nextObject accepts serverId signed url attrs = newObject serverId id src metaUri signed := by
  rw [nextObject, hsrc, hmeta, remaining_eq_empty hkeys]
  simp only [Option.bind_eq_bind, Option.bind_some, hid]
  cases newObject serverId id src metaUri signed <;> rfl

/-- What a proxy writes for an object is read as the object, without its other attributes. -/
theorem entry_spec (hbase : Web accepts base) (hplain : base.all plain = true) {attrs : Attrs}
    (h : Forwardable accepts base attrs) :
    ∃ text written, entry accepts base attrs = some text ∧
      (∀ stack, stack ≠ [] → Reads ⟨stack, true, .between⟩ text
        [countTag, ⟨ofString "object", written⟩] ⟨stack, true, .between⟩) ∧
      ∀ proxy, Web accepts proxy → ∀ serverId signed,
        nextObject accepts serverId signed proxy written =
          nextObject accepts serverId signed base (forwarded attrs) := by
  obtain ⟨link, hlink, hlinkable⟩ := h.id
  obtain ⟨id, hid, hidNe, hidPlain, hidStable⟩ := hlinkable.resolve hbase hplain
  obtain ⟨src, hsrc, hsrcLink, hsrcPlain, hsrcStable⟩ := joinOptional_spec hbase hplain h.src
  obtain ⟨metaUri, hmeta, hmetaLink, hmetaPlain, hmetaStable⟩ :=
    joinOptional_spec hbase hplain h.metaUri
  refine ⟨_, linkAttrs id src metaUri, ?_, fun stack hstack =>
    reads_entry hstack hidPlain (fun text htext => (hsrcPlain text htext).2)
      (fun text htext => (hmetaPlain text htext).2), fun proxy hproxy serverId signed => ?_⟩
  · rw [entry, hlink, hsrc, hmeta, Option.bind_some, hid]
    rfl
  · have hget := @get?_linkAttrs id src metaUri (fun text htext => (hsrcPlain text htext).1)
      fun text htext => (hmetaPlain text htext).1
    have hwritten : nextObject accepts serverId signed proxy (linkAttrs id src metaUri) =
        newObject serverId id src metaUri signed := by
      refine nextObject_eq ?_ ?_ ?_ (fun key hkey => ?_) serverId signed
      · rw [hget, if_neg (by decide), if_neg (by decide), if_pos rfl, joinId, if_neg hidNe]
        exact hidStable proxy hproxy
      · rw [hget, if_neg (by decide), if_pos rfl]
        exact hsrcStable proxy hproxy
      · rw [hget, if_pos rfl]
        exact hmetaStable proxy hproxy
      · rw [hget] at hkey
        grind
    have hforwarded : nextObject accepts serverId signed base (forwarded attrs) =
        newObject serverId id src metaUri signed := by
      refine nextObject_eq ?_ ?_ ?_ (fun key => eq_of_isSome_forwarded) serverId signed
      · rw [get?_forwarded, if_pos (by decide), hlink, joinId, if_neg hlinkable.nonempty]
        exact hid
      · rw [get?_forwarded, if_pos (by decide)]
        exact hsrcLink
      · rw [get?_forwarded, if_pos (by decide)]
        exact hmetaLink
    rw [hwritten, hforwarded]

/-- The elements that a proxy writes between the tags of its `objectlist`. -/
structure Writes (accepts : Text → Bool) (base : Text) (share : List Attrs) (text : Text)
    (tags : List Tag) : Prop where
  /-- The tags are read. -/
  reads : ∀ stack, stack ≠ [] →
    Reads ⟨stack, true, .between⟩ text tags ⟨stack, true, .between⟩
  /-- The handler accepts them. -/
  accepted : (tags.map element).all (ScopeLists.acceptable Lib.Words.readInt) = true
  /-- They count the objects. -/
  counted : ((tags.map element).map (adjust Lib.Words.readInt)).sum = share.length
  /-- They describe the objects. -/
  described : ∀ proxy, Web accepts proxy → ∀ serverId signed,
    (objects (tags.map element)).map (nextObject accepts serverId signed proxy) =
      share.map fun attrs => nextObject accepts serverId signed base (forwarded attrs)

/-- Without objects a proxy writes no elements. -/
theorem writes_nil : Writes accepts base [] [] [] :=
  ⟨fun _ _ => Reads.nil _, rfl, rfl, fun _ _ _ _ => rfl⟩

/-- The tag in front of an object adds one to the count and is accepted by the handler. -/
theorem countTag_spec :
    ScopeLists.acceptable Lib.Words.readInt (element countTag) = true ∧
      adjust Lib.Words.readInt (element countTag) = 1 ∧ objects [element countTag] = [] := by
  refine ⟨by decide, by decide, ?_⟩
  have hname : (element countTag).name ≠ ofString "object" := by decide
  simp [objects, hname]

/-- The tag of an object adds the object with its attributes, and nothing to the count. -/
theorem objectTag_spec (attrs : Attrs) :
    ScopeLists.acceptable Lib.Words.readInt (element ⟨ofString "object", attrs⟩) = true ∧
      adjust Lib.Words.readInt (element ⟨ofString "object", attrs⟩) = 0 ∧
      objects [element ⟨ofString "object", attrs⟩] = [attrs] := by
  have hlist : ofString "object" ≠ ofString "objectlist" := by decide
  have hcount : ofString "object" ≠ ofString "count" := by decide
  have hstart : Handler.startElement Lib.Words.readInt ⟨0, []⟩
      (element ⟨ofString "object", attrs⟩) = some ⟨0, [attrs]⟩ := by
    rw [Handler.startElement, element, if_neg hlist, if_neg hcount, if_pos rfl]
    rfl
  refine ⟨by rw [ScopeLists.acceptable, hstart]; rfl, by rw [adjust, hstart]; rfl, ?_⟩
  simp [objects, element]

/-- The tag of the list adds neither an object nor anything to the count. -/
theorem rootTag_spec :
    ScopeLists.acceptable Lib.Words.readInt (element ⟨ofString "objectlist", Dict.empty⟩) = true ∧
      adjust Lib.Words.readInt (element ⟨ofString "objectlist", Dict.empty⟩) = 0 ∧
      objects [element ⟨ofString "objectlist", Dict.empty⟩] = [] := by
  refine ⟨by decide, by decide, ?_⟩
  have hname : ofString "objectlist" ≠ ofString "object" := by decide
  simp [objects, element, hname]

/-- One more object in front of a share is one more pair of elements in front of the text. -/
theorem writes_cons (hbase : Web accepts base) (hplain : base.all plain = true) {attrs : Attrs}
    (h : Forwardable accepts base attrs) {share : List Attrs} {text : Text} {tags : List Tag}
    (hwrites : Writes accepts base share text tags) :
    ∃ front more, entry accepts base attrs = some front ∧
      Writes accepts base (attrs :: share) (front ++ text) (more ++ tags) := by
  obtain ⟨front, written, hfront, hreads, hnext⟩ := entry_spec hbase hplain h
  refine ⟨front, [countTag, ⟨ofString "object", written⟩], hfront, ?_, ?_, ?_, ?_⟩
  · exact fun stack hstack => (hreads stack hstack).append (hwrites.reads stack hstack)
  · rw [List.map_append, List.all_append, hwrites.accepted, List.map_cons, List.map_singleton,
      List.all_cons, countTag_spec.1, List.all_cons, (objectTag_spec written).1]
    rfl
  · rw [List.map_append, List.map_append, List.sum_append, hwrites.counted, List.map_cons,
      List.map_singleton, List.map_cons, List.map_singleton, countTag_spec.2.1,
      (objectTag_spec written).2.1, List.length_cons]
    simp [Int.add_comm]
  · intro proxy hproxy serverId signed
    rw [List.map_append, objects_append, List.map_append, hwrites.described proxy hproxy,
      List.map_cons, List.map_singleton, ScopeLists.objects_cons, countTag_spec.2.2,
      (objectTag_spec written).2.2, List.nil_append, List.map_singleton, hnext proxy hproxy]
    rfl

/-- The loop writes the share of the objects that belongs to its index, each with its count, by
induction over the elements of the list. -/
theorem entries_spec (hbase : Web accepts base) (hplain : base.all plain = true)
    {count : ℕ} (hcount : 0 < count) (index seen : ℕ) {elements : List Element}
    (h : ∀ attrs ∈ objects elements, Forwardable accepts base attrs) :
    ∃ text tags, entries accepts base index count seen elements = some text ∧
      Writes accepts base (deal count index seen (objects elements)) text tags := by
  induction elements generalizing seen with
  | nil => exact ⟨[], [], rfl, writes_nil⟩
  | cons element rest ih =>
    rw [ScopeLists.objects_cons] at h ⊢
    have hrest : ∀ attrs ∈ objects rest, Forwardable accepts base attrs := fun attrs hattrs =>
      h attrs (List.mem_append_right _ hattrs)
    rw [entries]
    by_cases hname : element.name = ofString "object"
    · have hobjects : objects [element] = [element.attrs] := by simp [objects, hname]
      have hobject : Forwardable accepts base element.attrs := by
        refine h element.attrs (List.mem_append_left _ ?_)
        rw [hobjects]
        exact List.mem_singleton_self _
      obtain ⟨text, tags, htext, hwrites⟩ := ih (seen + 1) hrest
      rw [if_neg (not_not_intro hname), if_neg hcount.ne', hobjects, List.singleton_append, deal,
        htext]
      by_cases hturn : seen % count = index
      · obtain ⟨front, more, hfront, hall⟩ := writes_cons hbase hplain hobject hwrites
        rw [if_pos hturn, if_pos (congrArg Nat.cast hturn), hfront]
        exact ⟨_, _, rfl, hall⟩
      · rw [if_neg hturn, if_neg (mt Int.natCast_inj.mp hturn)]
        exact ⟨text, tags, rfl, hwrites⟩
    · have hobjects : objects [element] = [] := by simp [objects, hname]
      rw [if_pos hname, hobjects, List.nil_append]
      exact ih seen hrest

/-- The lines before the objects. -/
theorem reads_front : Reads .new
    (ofString "<?xml version=\"1.0\" encoding=\"UTF-8\" ?>\n" ++ ofString "<objectlist>\n")
    [⟨ofString "objectlist", Dict.empty⟩] ⟨[ofString "objectlist"], true, .between⟩ := by
  have hdeclaration : Reads .new (ofString "<?xml version=\"1.0\" encoding=\"UTF-8\" ?>\n") []
      ⟨[], false, .between⟩ := ⟨_, rfl, rfl⟩
  have htag : Reads ⟨[], false, .between⟩ ([60] ++ ofString "objectlist" ++ [62])
      [⟨ofString "objectlist", Dict.empty⟩] ⟨[ofString "objectlist"], true, .between⟩ :=
    Lib.Markup.reads_startTag (by decide) fun _ => rfl
  exact hdeclaration.append (htag.append Lib.Markup.reads_newline)

/-- The line behind the objects. -/
theorem reads_back : Reads ⟨[ofString "objectlist"], true, .between⟩ (ofString "</objectlist>\n") []
    ⟨[], true, .between⟩ := by
  have htag : Reads ⟨[ofString "objectlist"], true, .between⟩
      ([60, 47] ++ ofString "objectlist" ++ [62]) [] ⟨[], true, .between⟩ :=
    Lib.Markup.reads_endTag (by decide)
  exact htag.append Lib.Markup.reads_newline

/-- The objects of a document. -/
def ScopeList.objects (document : ScopeList) : List Attrs := ScopeLists.objects document.starts

/-- The closing tags of a scope list add no objects. -/
theorem objects_ends (document : ScopeList) :
    ScopeLists.objects document.ends = document.objects := by
  have hroot : ∀ attrs, ScopeLists.objects [⟨ofString "objectlist", attrs⟩] = [] := by
    intro attrs
    have hname : ofString "objectlist" ≠ ofString "object" := by decide
    simp [ScopeLists.objects, hname]
  rw [ScopeList.ends, objects_append, hroot, List.append_nil, ScopeList.objects, ScopeList.starts,
    ScopeLists.objects_cons, hroot, List.nil_append]

/-- A loader that reads the document of a proxy gets its share of the objects, without their
other attributes, and counts them. -/
theorem load_served (hbase : Web accepts base) (hplain : base.all plain = true)
    {document : ScopeList} (h : ∀ attrs ∈ document.objects, Forwardable accepts base attrs)
    {count : ℕ} (hcount : 0 < count) (index : ℕ) :
    ∃ bytes, serve accepts base (index + 1) count document = some bytes ∧
      ∀ url chunks, Web accepts url → chunks.flatten = bytes → [] ∉ chunks →
        ∀ serverId signed, load accepts serverId signed url chunks =
          ((deal count index 0 document.objects).map fun attrs =>
            nextObject accepts serverId signed base (forwarded attrs),
            ((deal count index 0 document.objects).length : ℤ)) := by
  rw [← objects_ends] at h ⊢
  obtain ⟨text, tags, htext, hwrites⟩ := entries_spec hbase hplain hcount index 0 h
  obtain ⟨bytes, hbytes, hreads⟩ :=
    (reads_front.append (hwrites.reads _ (List.cons_ne_nil _ _))).append reads_back
  have hindex : ((index + 1 : ℕ) : ℤ) - 1 = index := by omega
  refine ⟨bytes, ?_, fun url chunks hurl hchunks hne serverId signed => ?_⟩
  · rw [serve, generate, hindex, htext]
    exact hbytes
  · have haccepted : ((⟨ofString "objectlist", Dict.empty⟩ :: tags).map element).all
        (ScopeLists.acceptable Lib.Words.readInt) = true := by
      rw [List.map_cons, List.all_cons, rootTag_spec.1, hwrites.accepted]
      rfl
    rw [List.append_nil, List.singleton_append, ← hchunks] at hreads
    rw [load, readList_of_reads Lib.Words.readInt url hne hreads haccepted, List.map_map,
      List.map_cons, ScopeLists.objects_cons, rootTag_spec.2.2, List.nil_append, List.map_cons,
      List.sum_cons, rootTag_spec.2.1, Int.zero_add, hwrites.counted]
    exact Prod.ext (hwrites.described url hurl serverId signed) rfl

/-! ## The shares together -/

/-- Two objects with the same ID and the same links. -/
structure SameLinks (obj obj' : Object) : Prop where
  /-- The ID. -/
  id : obj'.id = obj.id
  /-- The source. -/
  src : obj'.src = obj.src
  /-- The metadata. -/
  metaUri : obj'.metaUri = obj.metaUri

/-- Setting an attribute changes no link. -/
theorem sameLinks_setItem {obj obj' : Object} {key : Text} {value : Value}
    (h : obj.setItem key value = some obj') : SameLinks obj obj' := by
  rw [Object.setItem, Option.ite_none_left_eq_some] at h
  obtain ⟨-, h⟩ := h
  cases h
  exact ⟨rfl, rfl, rfl⟩

/-- Setting the attributes of a list changes none either. -/
theorem sameLinks_foldlM {entries : List (Text × Text)} {obj obj' : Object}
    (h : entries.foldlM (fun obj entry => obj.setItem entry.1 (.text (entry.2 ++ [0]))) obj =
      some obj') : SameLinks obj obj' := by
  induction entries generalizing obj with
  | nil =>
    cases h
    exact ⟨rfl, rfl, rfl⟩
  | cons entry rest ih =>
    rw [List.foldlM_cons] at h
    obtain ⟨next, hnext, hrest⟩ := Option.bind_eq_some_iff.mp h
    have hfirst := sameLinks_setItem hnext
    have htail := ih hrest
    exact ⟨htail.id.trans hfirst.id, htail.src.trans hfirst.src,
      htail.metaUri.trans hfirst.metaUri⟩

/-- The attributes that are not forwarded have no part in the links. -/
theorem sameLinks_forwarded {serverId url : Text} {signed : Bool} {attrs : Attrs} {obj : Object}
    (h : nextObject accepts serverId signed url attrs = some obj) :
    ∃ obj', nextObject accepts serverId signed url (forwarded attrs) = some obj' ∧
      SameLinks obj obj' := by
  rw [nextObject] at h
  obtain ⟨src, hsrc, h⟩ := Option.bind_eq_some_iff.mp h
  obtain ⟨metaUri, hmeta, h⟩ := Option.bind_eq_some_iff.mp h
  obtain ⟨id, hid, h⟩ := Option.bind_eq_some_iff.mp h
  obtain ⟨obj', hobj, h⟩ := Option.bind_eq_some_iff.mp h
  have hlinks := sameLinks_foldlM h
  refine ⟨obj', ?_, hlinks.id.symm, hlinks.src.symm, hlinks.metaUri.symm⟩
  rw [← hobj]
  refine nextObject_eq ?_ ?_ ?_ (fun key => eq_of_isSome_forwarded) serverId signed
  · rwa [get?_forwarded, if_pos (by decide)]
  · rwa [get?_forwarded, if_pos (by decide)]
  · rwa [get?_forwarded, if_pos (by decide)]

/-- The responses of the proxies, in chunks. -/
structure Served (accepts : Text → Bool) (base : Text) (count : ℕ) (document : ScopeList)
    (urls : ℕ → Text) (chunks : ℕ → List Bytes) : Prop where
  /-- Where they are served. -/
  web : ∀ i < count, Web accepts (urls i)
  /-- What is served. -/
  bytes : ∀ i < count, serve accepts base (i + 1) count document = some (chunks i).flatten
  /-- Only the end of a response is empty. -/
  nonempty : ∀ i < count, [] ∉ chunks i

/-- What the loaders of all proxies get. -/
structure Shares (accepts : Text → Bool) (base : Text) (count : ℕ) (document : ScopeList)
    (urls : ℕ → Text) (chunks : ℕ → List Bytes) (serverId : Text) (signed : Bool) : Prop where
  /-- The loader of a proxy gets every so many objects, in order. -/
  share : ∀ i < count, (load accepts serverId signed (urls i) (chunks i)).1 =
    deal count i 0 (document.objects.map fun attrs =>
      nextObject accepts serverId signed base (forwarded attrs))
  /-- Together they get each object once. -/
  together : ((List.range count).flatMap fun i =>
    (load accepts serverId signed (urls i) (chunks i)).1).Perm
      (document.objects.map fun attrs => nextObject accepts serverId signed base (forwarded attrs))
  /-- The objects are those of the document, without the attributes that are no links. -/
  links : ∀ attrs ∈ document.objects, ∀ obj, nextObject accepts serverId signed base attrs = some obj →
    ∃ obj', nextObject accepts serverId signed base (forwarded attrs) = some obj' ∧
      SameLinks obj obj'
  /-- The counts add up to the number of objects. -/
  counted : ((List.range count).map fun i =>
    (load accepts serverId signed (urls i) (chunks i)).2).sum = document.objects.length

end Links

/-! ## Three objects and two proxies -/

/-- The address of a list. -/
def sampleBase : Text := ofString "http://h/"

/-- Every network location is taken. -/
def acceptAll (_ : Text) : Bool := true

/-- The name of an attribute that is no link. -/
def pageKey : Text := ofString "hyperfind.external-link"

/-- The attributes of an object with an ID, a link and a page. -/
def sampleAttrs (id : Text) (key link : Text) : Attrs :=
  ((Dict.empty.set idKey id).set key link).set pageKey (ofString "page")

/-- A list with three objects, two of which have a source and one of which has metadata. -/
def sampleList : ScopeList where
  attrs := Dict.empty
  children :=
    [⟨ofString "object", sampleAttrs (ofString "a") srcKey (ofString "b")⟩,
      ⟨ofString "count", Dict.empty.set (ofString "adjust") (ofString "2")⟩,
      ⟨ofString "object", sampleAttrs (ofString "d/1") metaKey (ofString "e")⟩,
      ⟨ofString "object", sampleAttrs (ofString "/f") srcKey (ofString "../g")⟩]

/-- The page is among the attributes. -/
def hasPage (obj : Option Object) : Option Bool :=
  obj.map fun obj => (obj.attrs.get? pageKey).isSome

/-- The sample scope URL is a URL of the web. -/
theorem web_sampleBase : Web acceptAll sampleBase :=
  ⟨⟨http, ofString "h", ofString "/", [], [], []⟩, by decide, rfl, by decide⟩

/-- The objects of the sample list can be forwarded. -/
theorem sampleList_forwardable :
    ∀ attrs ∈ sampleList.objects, Forwardable acceptAll sampleBase attrs := by decide

/-- Two proxies serve the list, in chunks of whatever they write. -/
theorem exists_served : ∃ urls chunks, Served acceptAll sampleBase 2 sampleList urls chunks := by
  have hwritten : ∀ i : ℕ, ∃ bytes, serve acceptAll sampleBase (i + 1) 2 sampleList = some bytes :=
    fun i =>
      (load_served web_sampleBase (by decide) sampleList_forwardable Nat.two_pos i).imp
        fun _ h => h.1
  choose bytes hbytes using hwritten
  have hchunks : ∀ i, ([bytes i].filter (· ≠ [])).flatten = bytes i ∧
      [] ∉ [bytes i].filter (· ≠ []) := by
    intro i
    by_cases hempty : bytes i = [] <;> simp [hempty]
  refine ⟨fun _ => sampleBase, fun i => [bytes i].filter (· ≠ []), fun _ _ => web_sampleBase,
    fun i _ => ?_, fun i _ => (hchunks i).2⟩
  rw [(hchunks i).1]
  exact hbytes i

end OpenDiamond.ProxyStore
