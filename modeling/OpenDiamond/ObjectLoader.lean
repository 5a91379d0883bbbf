import OpenDiamond.HttpLoader
import OpenDiamond.ObjectAttributes

/-!
# Loading objects

The attributes of an object come from the scope list, from a document at its `meta` URI,
from the headers of the response that brings its data, and from a document that a header
names. Later sources overwrite earlier ones. The values of headers are bytes, those of
documents are texts, and both are terminated by a null character.
-/

namespace OpenDiamond.ObjectLoader

open Lib.OrderedDict Lib.Unicode ObjectAttributes
open HttpLoader (Loader Transfer Delivery bodyOf headersOf leftover accepted_leftover)

/-! ## The surroundings -/

/-- Why an object is not loaded. -/
inductive Reason where
  /-- The text of a `curl.error`. -/
  | transfer
  /-- "Object not in cache". -/
  | notInCache
  /-- "Failed to retrieve object attributes". -/
  | notAttributes
  /-- The text of a `ValueError`, or of an `IOError` for a local file. -/
  | undecodable
  deriving DecidableEq

/-- The exceptions of `load`. -/
inductive Raised where
  | objectLoadError (reason : Reason)
  /-- Bytes and a text do not go together. -/
  | typeError
  /-- `ValueError`, which `UnicodeEncodeError` is. -/
  | valueError
  /-- An exception of the operating system or of another package. -/
  | external
  deriving DecidableEq

/-- What a document of attributes is. -/
inductive Parsed where
  /-- A JSON object, with the `str` of each value. -/
  | attrs (dct : Dict Text Text)
  /-- Another JSON value. -/
  | notDict
  /-- Reading it raises `ValueError`, or `IOError` for a local file. -/
  | rejected
  /-- Reading it raises another exception. -/
  | raised

/-- What looking up a blob leads to. -/
inductive Lookup where
  | found (data : Bytes)
  /-- `KeyError`. -/
  | missing
  /-- Another exception. -/
  | failed

/-- The fetches of one `load`. -/
inductive Fetch where
  | object
  | metadata
  | data
  | attributes
  deriving DecidableEq

/-- What `load` meets: the functions on URIs, the responses, the local files and the blob
cache. -/
structure Surroundings where
  /-- `setopt` takes the text for a URL, and does not raise. -/
  accepts : Text → Bool
  /-- `split_scheme`, `none` for its `ValueError`. -/
  splitScheme : Text → Option (Text × Text)
  /-- `urljoin` on two texts, `none` for its `ValueError`. -/
  urljoin : Text → Text → Option Text
  /-- The response to each fetch. -/
  transfer : Fetch → Text → Transfer
  /-- `@src` and `@meta` of an `object` element, `none` where the XML or the element is not
  as it should be. -/
  describe : Bytes → Option (Text × Option Text)
  /-- `json.loads`. -/
  loads : Bytes → Parsed
  /-- `json.load` of a local file. -/
  loadFile : Text → Parsed
  /-- The content of a local file, `none` when it cannot be read. -/
  readFile : Text → Option Bytes
  /-- The blob cache. -/
  blob : Text → Lookup

/-- `ATTR_DATA`. -/
def attrData : Text := []

/-- `ATTR_DISPLAY_NAME`. -/
def attrDisplayName : Text := ofString "Display-Name"

/-- `ATTR_HEADER_URL`. -/
def attrHeaderUrl : Text := ofString "x-attributes"

/-- `ATTR_HEADER_PREFIX`. -/
def attrHeaderPrefix : Text := ofString "x-attr-"

/-- The lower case of a letter from A to Z. -/
def lowerPoint (point : CodePoint) : CodePoint :=
  if 65 ≤ point.val ∧ point.val ≤ 90 then point + 32 else point

/-- `key.lower().startswith(ATTR_HEADER_PREFIX)`. No character outside of ASCII has a letter
of the prefix as its lower case. -/
def isLoose (key : Text) : Bool :=
  (key.take attrHeaderPrefix.length).map lowerPoint = attrHeaderPrefix

/-- `str(value) + '\0'`. -/
def terminated (value : Text) : Value := .text (value ++ [0])

/-! ## The steps of `load` -/

/-- `obj[key] = value`, where the signature encodes the value. -/
def assign (obj : Object) (key : Text) (value : Value) : Except Raised Object :=
  match obj.setItem key value with
  | none => .error .valueError
  | some obj => .ok obj

/-- Assignments in a row. -/
def assignAll (obj : Object) (entries : List (Text × Value)) : Except Raised Object :=
  entries.foldlM (fun obj entry => assign obj entry.1 entry.2) obj

/-- The end of `_load_attributes` and of `_load_attrbutes_localfile`. -/
def store (obj : Object) : Parsed → Except Raised Object
  | .attrs dct => assignAll obj (dct.mapValues terminated).entries
  | .notDict => .error (.objectLoadError .notAttributes)
  | .rejected => .error (.objectLoadError .undecodable)
  | .raised => .error .external

/-- `value + '\0'` for the value of a header, which is bytes. -/
def terminateHeader (_ : Bytes) : Except Raised Value := .error .typeError

/-- The loop over the headers. -/
def headerAttribute (obj : Object) (header : Text × Bytes) : Except Raised Object :=
  if isLoose header.1 then do
    let value ← terminateHeader header.2
    assign obj (header.1.drop attrHeaderPrefix.length) value
  else .ok obj

/-- `urljoin(url, value)` of a text, which is not empty, and bytes. -/
def joinHeader (url : Text) (value : Bytes) : Except Raised Text :=
  if value = [] then .ok url else .error .typeError

/-- The next step, unless an exception was raised. -/
def andThen (result : Except Raised Object × Loader)
    (next : Object → Loader → Except Raised Object × Loader) : Except Raised Object × Loader :=
  match result with
  | (.error raised, loader) => (.error raised, loader)
  | (.ok obj, loader) => next obj loader

/-- "Set display name if not already in initial attributes". -/
def setDisplayName (obj : Object) : Except Raised Object :=
  if (obj.attrs.get? attrDisplayName).isSome then .ok obj
  else assign obj attrDisplayName (terminated obj.id)

/-- The last step of `load`, which fetches nothing. -/
def finish (obj : Object) (loader : Loader) : Except Raised Object × Loader :=
  (setDisplayName obj, loader)

namespace Surroundings

variable (env : Surroundings)

/-- `_HttpLoader.get`. -/
def get (kind : Fetch) (url : Text) (loader : Loader) :
    Except Raised (Dict Text Bytes × Bytes) × Loader :=
  if !env.accepts url then (.error .external, loader)
  else
    match loader.get (env.transfer kind url) with
    | (none, loader) => (.error (.objectLoadError .transfer), loader)
    | (some response, loader) => (.ok response, loader)

/-- `_load_attributes`. -/
def loadAttributes (kind : Fetch) (url : Text) (obj : Object) (loader : Loader) :
    Except Raised Object × Loader :=
  match env.get kind url loader with
  | (.error raised, loader) => (.error raised, loader)
  | (.ok (_, body), loader) => (store obj (env.loads body), loader)

/-- The URIs of an `object` element. -/
def described (obj : Object) (body : Bytes) : Except Raised Object :=
  match env.describe body with
  | none => .error .external
  | some (src, metaUri) =>
    match env.urljoin obj.id src, metaUri with
    | none, _ => .error .valueError
    | some src, none => .ok { obj with src := some src }
    | some src, some metaUri =>
      match env.urljoin obj.id metaUri with
      | none => .error .valueError
      | some metaUri => .ok { obj with src := some src, metaUri := some metaUri }

/-- `_load_src_maybe_meta`. -/
def loadSrcMaybeMeta (obj : Object) (loader : Loader) : Except Raised Object × Loader :=
  match obj.src with
  | some _ => (.ok obj, loader)
  | none =>
    match env.splitScheme obj.id with
    | none => (.error .valueError, loader)
    | some (scheme, _) =>
      if scheme = ofString "sha256" then (.ok { obj with src := some obj.id }, loader)
      else
        match env.get .object obj.id loader with
        | (.error raised, loader) => (.error raised, loader)
        | (.ok (_, body), loader) => (env.described obj body, loader)

/-- "1. Load object metadata from meta URI". -/
def loadMeta (obj : Object) (loader : Loader) : Except Raised Object × Loader :=
  match obj.metaUri with
  | none => (.ok obj, loader)
  | some uri =>
    match env.splitScheme uri with
    | none => (.error .valueError, loader)
    | some (scheme, path) =>
      if scheme = ofString "file" then (store obj (env.loadFile path), loader)
      else env.loadAttributes .metadata uri obj loader

/-- `_load_blobcache`. -/
def loadBlobcache (obj : Object) (signature : Text) : Except Raised Object :=
  match env.blob signature with
  | .found data => assign obj attrData (.bytes data)
  | .missing => .error (.objectLoadError .notInCache)
  | .failed => .error .external

/-- `_load_localfile`. -/
def loadLocalfile (obj : Object) (path : Text) : Except Raised Object :=
  match env.readFile path with
  | none => .error .external
  | some data => assign obj attrData (.bytes data)

/-- `_load_dataretriever` after the fetch, up to the header that names a document. -/
def loadResponse (obj : Object) (headers : Dict Text Bytes) (body : Bytes) :
    Except Raised Object := do
  let obj ← assign obj attrData (.bytes body)
  headers.entries.foldlM headerAttribute obj

/-- `_load_dataretriever`. -/
def loadDataretriever (url : Text) (obj : Object) (loader : Loader) :
    Except Raised Object × Loader :=
  match env.get .data url loader with
  | (.error raised, loader) => (.error raised, loader)
  | (.ok (headers, body), loader) =>
    andThen (loadResponse obj headers body, loader) fun obj loader =>
      match headers.get? attrHeaderUrl with
      | none => (.ok obj, loader)
      | some value =>
        match joinHeader url value with
        | .error raised => (.error raised, loader)
        | .ok attrUrl => env.loadAttributes .attributes attrUrl obj loader

/-- "2. Load object content from src URI". -/
def loadContent (obj : Object) (loader : Loader) : Except Raised Object × Loader :=
  match obj.src with
  -- `AttributeError`
  | none => (.error .external, loader)
  | some uri =>
    match env.splitScheme uri with
    | none => (.error .valueError, loader)
    | some (scheme, path) =>
      if scheme = ofString "sha256" then (env.loadBlobcache obj path, loader)
      else if scheme = ofString "file" then (env.loadLocalfile obj path, loader)
      else env.loadDataretriever uri obj loader

/-- `load`. -/
def load (obj : Object) (loader : Loader) : Except Raised Object × Loader :=
  andThen (andThen (andThen (env.loadSrcMaybeMeta obj loader) env.loadMeta) env.loadContent) finish

end Surroundings

/-! ## The order of precedence -/

/-- The value of a name in the last of the sources that has one. -/
def lastOf (sources : List (Dict Text Value)) (name : Text) : Option Value :=
  sources.foldl (fun value source => (source.get? name).or value) none

/-- The attributes of a document that is a JSON object. -/
def Parsed.dict? : Parsed → Option (Dict Text Text)
  | .attrs dct => some dct
  | _ => none

/-- A value that can be assigned. -/
def Assignable (signed : Bool) (value : Value) : Prop :=
  signed = true → value.encode.isSome

/-- A document whose values can be assigned, or that is refused. -/
def Parsed.Storable (signed : Bool) : Parsed → Prop
  | .attrs dct => ∀ name value, dct.get? name = some value → Assignable signed (terminated value)
  | .raised => False
  | _ => True

/-- A document, if there is one, as a source of attributes. -/
def documentSource (document : Option Parsed) : Dict Text Value :=
  ((document.bind Parsed.dict?).getD Dict.empty).mapValues terminated

/-- The headers as a source of attributes. -/
def headerSource (headers : Dict Text Bytes) : Dict Text Value :=
  Dict.empty.setAll (headers.entries.filterMap fun header =>
    if isLoose header.1 then
      some (header.1.drop attrHeaderPrefix.length, Value.bytes (header.2 ++ [0]))
    else none)

/-- What is found at the `src` URI. -/
inductive Content where
  | loaded (data : Bytes) (headers : Dict Text Bytes)
  /-- It is not there. -/
  | refused
  /-- Looking for it raises another exception than `ObjectLoadError`. -/
  | raised

namespace Surroundings

variable (env : Surroundings)

/-- The document at a URL. -/
def document (kind : Fetch) (url : Text) : Parsed :=
  if !env.accepts url then .raised
  else if (env.transfer kind url).succeeds then
    env.loads (bodyOf (env.transfer kind url).deliveries)
  else .rejected

/-- The document at the `meta` URI. -/
def metaDocument (obj : Object) : Option Parsed :=
  obj.metaUri.map fun uri =>
    match env.splitScheme uri with
    | none => .raised
    | some (scheme, path) =>
      if scheme = ofString "file" then env.loadFile path else env.document .metadata uri

/-- The content at the `src` URI. -/
def content (src : Text) : Content :=
  match env.splitScheme src with
  | none => .raised
  | some (scheme, path) =>
    if scheme = ofString "sha256" then
      match env.blob path with
      | .found data => .loaded data Dict.empty
      | .missing => .refused
      | .failed => .raised
    else if scheme = ofString "file" then
      match env.readFile path with
      | none => .raised
      | some data => .loaded data Dict.empty
    else if !env.accepts src then .raised
    else if (env.transfer .data src).succeeds then
      .loaded (bodyOf (env.transfer .data src).deliveries)
        (headersOf (env.transfer .data src).deliveries)
    else .refused

/-- The document that a header of the response names. -/
def namedDocument (src : Text) (headers : Dict Text Bytes) : Option Parsed :=
  (headers.get? attrHeaderUrl).map fun value =>
    if value = [] then env.document .attributes src
    else
      match (decodeUtf8 value).bind (env.urljoin src) with
      | none => .raised
      | some url => env.document .attributes url

/-- The sources of attributes, in the order of precedence. -/
def sources (obj : Object) (src : Text) (headers : Dict Text Bytes) : List (Dict Text Value) :=
  [obj.attrs, documentSource (env.metaDocument obj), headerSource headers,
    documentSource (env.namedDocument src headers)]

end Surroundings

/-- The attributes of an object after it was loaded. -/
structure Follows (sources : List (Dict Text Value)) (obj after : Object) (data : Bytes) :
    Prop where
  /-- The data is what was found. -/
  data : after.attrs.get? attrData = some (.bytes data)
  /-- Every other attribute has its value from the last source that has one. -/
  last : ∀ name value, name ≠ attrData → lastOf sources name = some value →
    after.attrs.get? name = some value
  /-- There are no other attributes. -/
  absent : ∀ name, name ≠ attrData → name ≠ attrDisplayName → lastOf sources name = none →
    after.attrs.get? name = none
  /-- The display name is the object ID when no source sets it. -/
  displayName : lastOf sources attrDisplayName = none →
    after.attrs.get? attrDisplayName = some (terminated obj.id)

/-- The object is loaded by the order of precedence, or `ObjectLoadError` is raised. -/
def Precedence (env : Surroundings) (obj : Object) (src : Text) : Except Raised Object → Prop
  | .error raised => ∃ reason, raised = .objectLoadError reason
  | .ok after => ∃ data headers, env.content src = .loaded data headers ∧
      Follows (env.sources obj src headers) obj after data

/-! ## The condition -/

/-- Values that can be assigned, if there is a document. -/
def Storable (signed : Bool) (document : Option Parsed) : Prop :=
  ∀ parsed, document = some parsed → parsed.Storable signed

/-- The document is a JSON object, if there is one. -/
def Loads (document : Option Parsed) : Prop :=
  ∀ parsed, document = some parsed → parsed.dict?.isSome

/-- Headers whose values, which are bytes, do not meet a text. -/
structure Quiet (headers : Dict Text Bytes) : Prop where
  /-- No header holds an attribute. -/
  loose : ∀ key, (headers.get? key).isSome → isLoose key = false
  /-- A header that names a document is empty. -/
  named : ∀ value, headers.get? attrHeaderUrl = some value → value = []

/-- The value under a name when the object is loaded. -/
def shown (sources : List (Dict Text Value)) (id name : Text) : Option Value :=
  (lastOf sources name).or (if name = attrDisplayName then some (terminated id) else none)

/-- A response that `load` can deal with, as the loader returns it: `spoiled` are the surroundings
with what was left in the buffers. -/
structure ResponseSound (env spoiled : Surroundings) (obj : Object) (src : Text) (data : Bytes)
    (headers : Dict Text Bytes) : Prop where
  /-- The headers neither hold attributes nor name a document. -/
  quiet : Quiet headers
  /-- The document that is named by the empty text has only values that can be assigned. -/
  document : Storable obj.computeSignature (spoiled.namedDocument src headers)
  /-- It does not set the data. -/
  keeps : (documentSource (spoiled.namedDocument src headers)).get? attrData = none
  /-- An object ID that becomes the display name can be assigned. -/
  displayName : Loads (spoiled.namedDocument src headers) →
    lastOf (spoiled.sources obj src headers) attrDisplayName = none →
      Assignable obj.computeSignature (terminated obj.id)
  /-- What was left put no byte before the data, and changed no attribute. -/
  own : Loads (spoiled.namedDocument src headers) → ∀ data' headers',
    env.content src = .loaded data' headers' → data = data' ∧ ∀ name, name ≠ attrData →
      shown (spoiled.sources obj src headers) obj.id name =
        shown (env.sources obj src headers') obj.id name

namespace Surroundings

variable (env : Surroundings)

/-- The surroundings in which the responses to one kind of fetch have other deliveries in front of
their own. -/
def behind (kind : Fetch) (left : List Delivery) : Surroundings :=
  { env with transfer := fun other url =>
      if other = kind then (env.transfer other url).behind left else env.transfer other url }

/-- What the first fetch is for, of a load of an object with a `src`. -/
def firstFetch (obj : Object) : Fetch :=
  match obj.metaUri with
  | none => .data
  | some uri =>
    match env.splitScheme uri with
    | none => .metadata
    | some (scheme, _) => if scheme = ofString "file" then .data else .metadata

/-- What a load meets after some fetches: the first response goes to buffers in which failed
fetches have left something. -/
def spoiled (transfers : List Transfer) (obj : Object) : Surroundings :=
  env.behind (env.firstFetch obj) (leftover transfers)

end Surroundings

/-- Every step that is reached goes on or raises `ObjectLoadError`, and what failed fetches have
left changes nothing. -/
structure Sound (env : Surroundings) (transfers : List Transfer) (obj : Object) (src : Text) :
    Prop where
  /-- The document at the `meta` URI is refused or has only values that can be assigned. -/
  metadata : Storable obj.computeSignature ((env.spoiled transfers obj).metaDocument obj)
  /-- Looking for the content raises no other exception. -/
  content : Loads ((env.spoiled transfers obj).metaDocument obj) → env.content src ≠ .raised
  /-- The response is sound. -/
  response : Loads ((env.spoiled transfers obj).metaDocument obj) → ∀ data headers,
    (env.spoiled transfers obj).content src = .loaded data headers →
      ResponseSound env (env.spoiled transfers obj) obj src data headers

/-! ## How the steps end -/

/-- What a caller sees of a result. -/
inductive Outcome where
  | loaded (obj : Object)
  /-- `ObjectLoadError`. -/
  | refused
  /-- Another exception. -/
  | failed

/-- The outcome of a result. -/
def outcome : Except Raised Object → Outcome
  | .ok obj => .loaded obj
  | .error (.objectLoadError _) => .refused
  | .error _ => .failed

/-- An object is loaded only by a call that returns it. -/
theorem outcome_eq_loaded {result : Except Raised Object} {obj : Object}
    (h : outcome result = .loaded obj) : result = .ok obj := by
  rcases result with raised | obj
  · cases raised <;> cases h
  · cases h
    rfl

/-- A step on a loader with empty buffers: its outcome, and empty buffers when it goes on. -/
def Yields (result : Except Raised Object × Loader) (o : Outcome) : Prop :=
  outcome result.1 = o ∧ ∀ obj, o = .loaded obj → result.2 = Loader.new

/-- The next step takes place. -/
theorem Yields.goOn {result : Except Raised Object × Loader} {obj : Object} {o : Outcome}
    {next : Object → Loader → Except Raised Object × Loader} (h : Yields result (.loaded obj))
    (hnext : Yields (next obj .new) o) : Yields (andThen result next) o := by
  obtain ⟨result, loader⟩ := result
  have hresult : result = .ok obj := outcome_eq_loaded h.1
  have hempty : loader = .new := h.2 obj rfl
  rw [hresult, hempty]
  exact hnext

/-- The next step does not take place. -/
theorem Yields.stop {result : Except Raised Object × Loader} {o : Outcome} (h : Yields result o)
    (ho : ∀ obj, o ≠ .loaded obj) (next : Object → Loader → Except Raised Object × Loader) :
    Yields (andThen result next) o := by
  obtain ⟨result, loader⟩ := result
  rcases result with raised | obj
  · exact ⟨h.1, fun obj hobj => absurd hobj (ho obj)⟩
  · exact absurd h.1.symm (ho obj)

/-- The object with other attributes. -/
def Updated (obj obj' : Object) (attrs : Dict Text Value) : Prop :=
  obj'.attrs = attrs ∧ obj'.id = obj.id ∧ obj'.src = obj.src ∧
    obj'.computeSignature = obj.computeSignature

/-- Two assignments in a row are one that leaves the last attributes; what they do not touch
stays. -/
theorem Updated.trans {obj obj' obj'' : Object} {attrs attrs' : Dict Text Value}
    (h : Updated obj obj' attrs) (h' : Updated obj' obj'' attrs') : Updated obj obj'' attrs' := by
  obtain ⟨-, hid, hsrc, hsigned⟩ := h
  obtain ⟨hattrs', hid', hsrc', hsigned'⟩ := h'
  exact ⟨hattrs', hid'.trans hid, hsrc'.trans hsrc, hsigned'.trans hsigned⟩

/-- A value that can be signed is stored under its key, and nothing else of the object changes but
its signature. -/
theorem assign_of_assignable {obj : Object} {value : Value}
    (h : Assignable obj.computeSignature value) (key : Text) :
    ∃ obj', assign obj key value = .ok obj' ∧ Updated obj obj' (obj.attrs.set key value) := by
  have hset : (obj.computeSignature && value.encode.isNone) = false := by
    cases hsigned : obj.computeSignature with
    | false => rfl
    | true =>
      obtain ⟨bytes, hbytes⟩ := Option.isSome_iff_exists.mp (h hsigned)
      rw [hbytes]
      rfl
  cases hitem : obj.setItem key value with
  | none =>
    rw [Object.setItem, hset, if_neg Bool.false_ne_true] at hitem
    cases hitem
  | some obj' =>
    refine ⟨obj', by rw [assign, hitem], ?_⟩
    rw [Object.setItem, hset, if_neg Bool.false_ne_true] at hitem
    cases hitem
    exact ⟨rfl, rfl, rfl, rfl⟩

/-- A text with a lone surrogate cannot be encoded for its signature, which is a `ValueError`. -/
theorem assign_of_not_assignable {obj : Object} {value : Value}
    (h : ¬Assignable obj.computeSignature value) (key : Text) :
    assign obj key value = .error .valueError := by
  obtain ⟨hsigned, hnone⟩ := Classical.not_imp.mp h
  have hset : (obj.computeSignature && value.encode.isNone) = true := by
    rw [hsigned, Bool.true_and, Option.isNone_iff_eq_none]
    simpa using hnone
  rw [assign, Object.setItem, if_pos hset]

/-- Assignments in a row, when all values can be assigned. -/
theorem assignAll_of_assignable {entries : List (Text × Value)} {obj : Object}
    (h : ∀ entry ∈ entries, Assignable obj.computeSignature entry.2) :
    ∃ obj', assignAll obj entries = .ok obj' ∧ Updated obj obj' (obj.attrs.setAll entries) := by
  induction entries generalizing obj with
  | nil => exact ⟨obj, rfl, rfl, rfl, rfl, rfl⟩
  | cons entry rest ih =>
    obtain ⟨u, hu, hattrs, hid, hsrc, hsigned⟩ :=
      assign_of_assignable (h entry List.mem_cons_self) entry.1
    have hrest : ∀ other ∈ rest, Assignable u.computeSignature other.2 := by
      intro other hother
      rw [hsigned]
      exact h other (List.mem_cons_of_mem entry hother)
    obtain ⟨v, hv, hupdated⟩ := ih hrest
    refine ⟨v, ?_, ?_⟩
    · rw [assignAll, List.foldlM_cons, hu]
      exact hv
    · rwa [Updated, hattrs, hid, hsrc, hsigned] at hupdated

/-- One value that cannot be signed is enough to stop all assignments with a `ValueError`. -/
theorem assignAll_of_not_assignable {entries : List (Text × Value)} {obj : Object}
    (h : ¬∀ entry ∈ entries, Assignable obj.computeSignature entry.2) :
    assignAll obj entries = .error .valueError := by
  induction entries generalizing obj with
  | nil => exact absurd (fun _ hmem => absurd hmem List.not_mem_nil) h
  | cons entry rest ih =>
    by_cases hentry : Assignable obj.computeSignature entry.2
    · obtain ⟨u, hu, _, _, _, hsigned⟩ := assign_of_assignable hentry entry.1
      have hrest : assignAll u rest = .error .valueError := by
        refine ih fun hall => h fun other hother => ?_
        rcases List.mem_cons.mp hother with rfl | hother
        · exact hentry
        · exact hsigned ▸ hall other hother
      rw [assignAll, List.foldlM_cons, hu]
      exact hrest
    · rw [assignAll, List.foldlM_cons, assign_of_not_assignable hentry]
      rfl

/-- The document is assigned, if there is one. -/
def storeOptional (obj : Object) : Option Parsed → Except Raised Object
  | none => .ok obj
  | some parsed => store obj parsed

/-- Every value of an attribute document can be signed exactly when the document is storable. -/
theorem forall_entries_iff {dct : Dict Text Text} {signed : Bool} :
    (∀ entry ∈ (dct.mapValues terminated).entries, Assignable signed entry.2) ↔
      (Parsed.attrs dct).Storable signed := by
  constructor
  · intro h name value hvalue
    have hmapped : (dct.mapValues terminated).get? name = some (terminated value) := by
      rw [Dict.get?_mapValues, hvalue, Option.map_some]
    exact h (name, terminated value) ((Dict.get?_eq_some_iff _ _ _).mp hmapped)
  · rintro h ⟨name, value⟩ hmem
    have hmapped := (Dict.get?_eq_some_iff _ _ _).mpr hmem
    rw [Dict.get?_mapValues, Option.map_eq_some_iff] at hmapped
    obtain ⟨text, htext, rfl⟩ := hmapped
    exact h name text htext

/-- The three ways in which assigning a document ends: its attributes are stored, it has none that
can be read, or one of them cannot be signed. -/
theorem storeOptional_cases (obj : Object) (document : Option Parsed) :
    (Storable obj.computeSignature document ∧ Loads document ∧ ∃ obj',
      storeOptional obj document = .ok obj' ∧
        Updated obj obj' (obj.attrs.setAll (documentSource document).entries)) ∨
    (Storable obj.computeSignature document ∧ ¬Loads document ∧
      documentSource document = Dict.empty.mapValues terminated ∧
      outcome (storeOptional obj document) = .refused) ∨
    (¬Storable obj.computeSignature document ∧
      outcome (storeOptional obj document) = .failed) := by
  cases document with
  | none =>
    have hnone : ∀ parsed : Parsed, none ≠ some parsed := fun _ h => by cases h
    exact Or.inl ⟨fun parsed h => absurd h (hnone parsed), fun parsed h => absurd h (hnone parsed),
      obj, rfl, rfl, rfl, rfl, rfl⟩
  | some parsed =>
    have hstorable : Storable obj.computeSignature (some parsed) ↔
        parsed.Storable obj.computeSignature :=
      ⟨fun h => h parsed rfl, fun h other hother => Option.some.inj hother ▸ h⟩
    have hloads : Loads (some parsed) ↔ parsed.dict?.isSome :=
      ⟨fun h => h parsed rfl, fun h other hother => Option.some.inj hother ▸ h⟩
    rw [hstorable, hloads]
    cases parsed with
    | attrs dct =>
      by_cases hall : (Parsed.attrs dct).Storable obj.computeSignature
      · obtain ⟨obj', hobj', hupdated⟩ := assignAll_of_assignable (forall_entries_iff.mpr hall)
        exact Or.inl ⟨hall, rfl, obj', hobj', hupdated⟩
      · refine Or.inr (Or.inr ⟨hall, ?_⟩)
        have hnone := assignAll_of_not_assignable fun h => hall (forall_entries_iff.mp h)
        rw [storeOptional, store, hnone]
        rfl
    | notDict => exact Or.inr (Or.inl ⟨trivial, Bool.false_ne_true, rfl, rfl⟩)
    | rejected => exact Or.inr (Or.inl ⟨trivial, Bool.false_ne_true, rfl, rfl⟩)
    | raised => exact Or.inr (Or.inr ⟨fun h => h, rfl⟩)

/-! ## The fetches -/

/-- A new loader returns the headers and the body of a transfer that succeeds, and is as new
again. -/
theorem get_of_succeeds {transfer : Transfer} (h : transfer.succeeds = true) :
    Loader.new.get transfer =
      (some (headersOf transfer.deliveries, bodyOf transfer.deliveries), .new) := by
  have haccepted : HttpLoader.accepted transfer.deliveries = true :=
    (Bool.and_eq_true _ _ ▸ h).1
  rw [Transfer.succeeds] at h
  rw [Loader.get, Loader.perform_eq, h, HttpLoader.delivered_of_accepted haccepted]
  rfl

/-- A new loader returns nothing for a transfer that fails. -/
theorem get_of_not_succeeds {transfer : Transfer} (h : transfer.succeeds = false) :
    (Loader.new.get transfer).1 = none := by
  rw [Transfer.succeeds] at h
  rw [Loader.get, Loader.perform_eq, h]

namespace Surroundings

variable (env : Surroundings)

/-- The three ways in which a fetch ends: the URL is not accepted, the transfer fails, or it brings
headers and a body. -/
theorem get_cases (kind : Fetch) (url : Text) :
    (env.accepts url = false ∧ (env.get kind url .new).1 = .error .external) ∨
    (env.accepts url = true ∧ (env.transfer kind url).succeeds = false ∧
      (env.get kind url .new).1 = .error (.objectLoadError .transfer)) ∨
    (env.accepts url = true ∧ (env.transfer kind url).succeeds = true ∧
      env.get kind url .new = (.ok (headersOf (env.transfer kind url).deliveries,
        bodyOf (env.transfer kind url).deliveries), .new)) := by
  rw [get]
  cases hurl : env.accepts url with
  | false => exact Or.inl ⟨rfl, rfl⟩
  | true =>
    right
    cases hsucceeds : (env.transfer kind url).succeeds with
    | true => simp [get_of_succeeds hsucceeds]
    | false =>
      have hnone := get_of_not_succeeds hsucceeds
      generalize Loader.new.get (env.transfer kind url) = result at hnone
      obtain ⟨response, loader⟩ := result
      cases hnone
      simp

/-- Loading an attribute document is storing what its text says, and leaves the loader as it was. -/
theorem yields_loadAttributes (kind : Fetch) (url : Text) (obj : Object) :
    Yields (env.loadAttributes kind url obj .new)
      (outcome (store obj (env.document kind url))) := by
  rw [loadAttributes, document]
  rcases env.get_cases kind url with
    ⟨hurl, hget⟩ | ⟨hurl, hsucceeds, hget⟩ | ⟨hurl, hsucceeds, hget⟩
  · generalize env.get kind url .new = result at hget
    obtain ⟨response, loader⟩ := result
    cases hget
    simp [hurl, Yields, outcome, store]
  · generalize env.get kind url .new = result at hget
    obtain ⟨response, loader⟩ := result
    cases hget
    rw [hurl, hsucceeds]
    simp [Yields, outcome, store]
  · rw [hget, hurl, hsucceeds]
    exact ⟨rfl, fun _ _ => rfl⟩

/-- The document beside the object is loaded in the same way where it has one. -/
theorem yields_loadMeta (obj : Object) :
    Yields (env.loadMeta obj .new) (outcome (storeOptional obj (env.metaDocument obj))) := by
  rw [loadMeta, metaDocument]
  cases obj.metaUri with
  | none => exact ⟨rfl, fun _ _ => rfl⟩
  | some uri =>
    dsimp only [Option.map_some, storeOptional]
    cases env.splitScheme uri with
    | none => exact ⟨rfl, fun _ h => by cases h⟩
    | some parts =>
      obtain ⟨scheme, path⟩ := parts
      by_cases hfile : scheme = ofString "file"
      · simp only [if_pos hfile]
        exact ⟨rfl, fun _ _ => rfl⟩
      · simp only [if_neg hfile]
        exact env.yields_loadAttributes .metadata uri obj

end Surroundings

/-- Without headers that hold attributes the loop does nothing. -/
theorem foldlM_headerAttribute {entries : List (Text × Bytes)}
    (h : ∀ header ∈ entries, isLoose header.1 = false) (obj : Object) :
    entries.foldlM headerAttribute obj = .ok obj := by
  induction entries with
  | nil => rfl
  | cons header rest ih =>
    rw [List.foldlM_cons, headerAttribute, h header List.mem_cons_self]
    exact ih fun other hother => h other (List.mem_cons_of_mem header hother)

/-- One header with the prefix of an attribute is enough for a `TypeError`, wherever it stands among
the headers. -/
theorem foldlM_headerAttribute_of_loose {entries : List (Text × Bytes)} {header : Text × Bytes}
    (hmem : header ∈ entries) (hloose : isLoose header.1 = true) (obj : Object) :
    entries.foldlM headerAttribute obj = .error .typeError := by
  induction entries generalizing obj with
  | nil => cases hmem
  | cons first rest ih =>
    rw [List.foldlM_cons, headerAttribute]
    cases hfirst : isLoose first.1 with
    | true => rfl
    | false =>
      rcases List.mem_cons.mp hmem with rfl | hrest
      · rw [hloose] at hfirst
        cases hfirst
      · exact ih hrest obj

/-- Headers that are not quiet hold an attribute or name a document. -/
theorem exists_of_not_quiet {headers : Dict Text Bytes} (h : ¬Quiet headers) :
    (∃ header ∈ headers.entries, isLoose header.1 = true) ∨
      ((∀ header ∈ headers.entries, isLoose header.1 = false) ∧
        ∃ value, headers.get? attrHeaderUrl = some value ∧ value ≠ []) := by
  by_cases hloose : ∃ header ∈ headers.entries, isLoose header.1 = true
  · exact Or.inl hloose
  · right
    have hnone : ∀ header ∈ headers.entries, isLoose header.1 = false := by
      intro header hmem
      by_contra hheader
      exact hloose ⟨header, hmem, by simpa using hheader⟩
    refine ⟨hnone, ?_⟩
    by_contra hnamed
    refine h ⟨fun key hkey => ?_, fun value hvalue => ?_⟩
    · obtain ⟨value, hvalue⟩ := Option.isSome_iff_exists.mp hkey
      exact hnone (key, value) ((Dict.get?_eq_some_iff _ _ _).mp hvalue)
    · by_contra hne
      exact hnamed ⟨value, hvalue, hne⟩

/-- Quiet headers are quiet one by one. -/
theorem Quiet.entries {headers : Dict Text Bytes} (h : Quiet headers) :
    ∀ header ∈ headers.entries, isLoose header.1 = false := by
  intro header hmem
  have hthere := (Dict.get?_eq_some_iff headers header.1 header.2).mpr hmem
  exact h.loose header.1 (Option.isSome_of_eq_some hthere)

/-- No headers are quiet. -/
theorem quiet_empty : Quiet Dict.empty := by
  constructor
  · intro key h
    cases h
  · intro value h
    cases h

/-- The body can always be assigned, since it is a byte string. -/
theorem assign_data (obj : Object) (data : Bytes) : ∃ obj',
    assign obj attrData (.bytes data) = .ok obj' ∧
      Updated obj obj' (obj.attrs.set attrData (.bytes data)) :=
  assign_of_assignable (fun _ => rfl) attrData

namespace Surroundings

variable (env : Surroundings)

/-- How a response ends: with quiet headers its data is stored and the document that it names is
loaded; a loose one raises. -/
theorem loadDataretriever_cases (obj : Object) {src : Text} {data : Bytes}
    {headers : Dict Text Bytes} (hget : env.get .data src .new = (.ok (headers, data), .new)) :
    (Quiet headers ∧ ∃ obj', Updated obj obj' (obj.attrs.set attrData (.bytes data)) ∧
      Yields (env.loadDataretriever src obj .new)
        (outcome (storeOptional obj' (env.namedDocument src headers)))) ∨
    (¬Quiet headers ∧ Yields (env.loadDataretriever src obj .new) .failed) := by
  obtain ⟨obj', hobj', hupdated⟩ := assign_data obj data
  by_cases hquiet : Quiet headers
  · refine Or.inl ⟨hquiet, obj', hupdated, ?_⟩
    have hresponse : loadResponse obj headers data = .ok obj' := by
      rw [loadResponse, hobj']
      exact foldlM_headerAttribute hquiet.entries obj'
    rw [loadDataretriever, hget]
    dsimp only
    rw [hresponse, andThen, namedDocument]
    cases hvalue : headers.get? attrHeaderUrl with
    | none => exact ⟨rfl, fun _ _ => rfl⟩
    | some value =>
      have hempty := hquiet.named value hvalue
      dsimp only [joinHeader, Option.map_some, storeOptional]
      rw [if_pos hempty, if_pos hempty]
      exact env.yields_loadAttributes .attributes src obj'
  · refine Or.inr ⟨hquiet, ?_⟩
    rw [loadDataretriever, hget]
    dsimp only
    rcases exists_of_not_quiet hquiet with ⟨header, hmem, hloose⟩ | ⟨hnone, value, hvalue, hne⟩
    · have hresponse : loadResponse obj headers data = .error .typeError := by
        rw [loadResponse, hobj']
        exact foldlM_headerAttribute_of_loose hmem hloose obj'
      rw [hresponse]
      exact ⟨rfl, fun _ h => by cases h⟩
    · have hresponse : loadResponse obj headers data = .ok obj' := by
        rw [loadResponse, hobj']
        exact foldlM_headerAttribute hnone obj'
      rw [hresponse, andThen, hvalue]
      dsimp only [joinHeader]
      rw [if_neg hne]
      exact ⟨rfl, fun _ h => by cases h⟩

/-- How looking for the content ends: it is raised, it is refused, or there is data with headers. -/
theorem loadContent_cases {obj : Object} {src : Text} (hsrc : obj.src = some src) :
    (env.content src = .raised ∧ Yields (env.loadContent obj .new) .failed) ∨
    (env.content src = .refused ∧ Yields (env.loadContent obj .new) .refused) ∨
    ∃ data headers, env.content src = .loaded data headers ∧
      ((Quiet headers ∧ ∃ obj', Updated obj obj' (obj.attrs.set attrData (.bytes data)) ∧
        Yields (env.loadContent obj .new)
          (outcome (storeOptional obj' (env.namedDocument src headers)))) ∨
      (¬Quiet headers ∧ Yields (env.loadContent obj .new) .failed)) := by
  have hlocal : ∀ data, env.content src = .loaded data Dict.empty →
      env.loadContent obj .new = (assign obj attrData (.bytes data), .new) →
      ∃ data headers, env.content src = .loaded data headers ∧
        ((Quiet headers ∧ ∃ obj', Updated obj obj' (obj.attrs.set attrData (.bytes data)) ∧
          Yields (env.loadContent obj .new)
            (outcome (storeOptional obj' (env.namedDocument src headers)))) ∨
        (¬Quiet headers ∧ Yields (env.loadContent obj .new) .failed)) := by
    intro data hcontent hload
    obtain ⟨obj', hobj', hupdated⟩ := assign_data obj data
    refine ⟨data, Dict.empty, hcontent, Or.inl ⟨quiet_empty, obj', hupdated, ?_⟩⟩
    rw [hload, hobj']
    exact ⟨rfl, fun _ _ => rfl⟩
  unfold content at hlocal ⊢
  rw [loadContent, hsrc] at hlocal ⊢
  dsimp only at hlocal ⊢
  cases hsplit : env.splitScheme src with
  | none => exact Or.inl ⟨rfl, rfl, fun _ h => by cases h⟩
  | some parts =>
    obtain ⟨scheme, path⟩ := parts
    simp only [hsplit] at hlocal ⊢
    by_cases hsha : scheme = ofString "sha256"
    · simp only [if_pos hsha, loadBlobcache] at hlocal ⊢
      cases hblob : env.blob path with
      | found data =>
        simp only [hblob] at hlocal ⊢
        exact Or.inr (Or.inr (hlocal data rfl rfl))
      | missing => exact Or.inr (Or.inl ⟨rfl, rfl, fun _ h => by cases h⟩)
      | failed => exact Or.inl ⟨rfl, rfl, fun _ h => by cases h⟩
    · simp only [if_neg hsha] at hlocal ⊢
      by_cases hfile : scheme = ofString "file"
      · simp only [if_pos hfile, loadLocalfile] at hlocal ⊢
        cases hread : env.readFile path with
        | none => exact Or.inl ⟨rfl, rfl, fun _ h => by cases h⟩
        | some data =>
          simp only [hread] at hlocal ⊢
          exact Or.inr (Or.inr (hlocal data rfl rfl))
      · simp only [if_neg hfile]
        rcases env.get_cases .data src with
          ⟨hurl, hget⟩ | ⟨hurl, hsucceeds, hget⟩ | ⟨hurl, hsucceeds, hget⟩
        · left
          rw [hurl, loadDataretriever]
          generalize env.get .data src .new = result at hget
          obtain ⟨response, loader⟩ := result
          cases hget
          exact ⟨rfl, rfl, fun _ h => by cases h⟩
        · right
          left
          rw [hurl, hsucceeds, loadDataretriever]
          generalize env.get .data src .new = result at hget
          obtain ⟨response, loader⟩ := result
          cases hget
          exact ⟨rfl, rfl, fun _ h => by cases h⟩
        · right
          right
          rw [hurl, hsucceeds]
          exact ⟨_, _, rfl, env.loadDataretriever_cases obj hget⟩

end Surroundings

/-! ## Objects are loaded by the order of precedence -/

/-- A load that raises an `ObjectLoadError` gives no object that could break the precedence. -/
theorem precedence_of_refused {env : Surroundings} {obj : Object} {src : Text}
    {result : Except Raised Object} (h : outcome result = .refused) :
    Precedence env obj src result := by
  rcases result with raised | after
  · cases raised with
    | objectLoadError reason => exact ⟨reason, rfl⟩
    | _ => cases h
  · cases h

/-- A load that raises anything else breaks it, as the worker does not survive that. -/
theorem not_precedence_of_failed {env : Surroundings} {obj : Object} {src : Text}
    {result : Except Raised Object} (h : outcome result = .failed) :
    ¬Precedence env obj src result := by
  rcases result with raised | after
  · cases raised with
    | objectLoadError reason => cases h
    | _ =>
      rintro ⟨_, heq⟩
      cases heq
  · cases h

/-- The precedence looks at nothing but the outcome of a load. -/
theorem precedence_congr {env : Surroundings} {obj : Object} {src : Text}
    {result result' : Except Raised Object} (h : outcome result = outcome result') :
    Precedence env obj src result ↔ Precedence env obj src result' := by
  cases ho : outcome result' with
  | loaded after => rw [outcome_eq_loaded ho, outcome_eq_loaded (h.trans ho)]
  | refused =>
    exact iff_of_true (precedence_of_refused (h.trans ho)) (precedence_of_refused ho)
  | failed =>
    exact iff_of_false (not_precedence_of_failed (h.trans ho)) (not_precedence_of_failed ho)

/-- Quiet headers add no attributes. -/
theorem headerSource_of_quiet {headers : Dict Text Bytes} (h : Quiet headers) :
    headerSource headers = Dict.empty := by
  have hnone : headers.entries.filterMap (fun header =>
      if isLoose header.1 then
        some (header.1.drop attrHeaderPrefix.length, Value.bytes (header.2 ++ [0]))
      else none) = [] := by
    rw [List.filterMap_eq_nil_iff]
    intro header hmem
    rw [h.entries header hmem, if_neg Bool.false_ne_true]
  rw [headerSource, hnone, Dict.setAll_nil]

/-- When a dictionary is stored over another one, its own values come first. -/
theorem get?_setAll_entries (d e : Dict Text Value) (name : Text) :
    (d.setAll e.entries).get? name = (e.get? name).or (d.get? name) :=
  Dict.get?_setAll e.nodup d name

theorem attrData_ne_displayName : attrDisplayName ≠ attrData := by decide

/-- A document has only texts. -/
theorem get?_documentSource_ne {document : Option Parsed} {name : Text} {value : Value}
    (h : (documentSource document).get? name = some value) (data : Bytes) :
    value ≠ .bytes data := by
  rw [documentSource, Dict.get?_mapValues] at h
  obtain ⟨text, _, rfl⟩ := Option.map_eq_some_iff.mp h
  intro heq
  cases heq

section Merged

variable {env : Surroundings} {obj obj' : Object} {src : Text} {data : Bytes}
  {headers : Dict Text Bytes}

/-- The attributes before the display name is set. -/
def merged (env : Surroundings) (obj : Object) (src : Text) (headers : Dict Text Bytes)
    (data : Bytes) : Dict Text Value :=
  ((obj.attrs.setAll (documentSource (env.metaDocument obj)).entries).set attrData
    (.bytes data)).setAll (documentSource (env.namedDocument src headers)).entries

/-- Away from the data, an attribute has the value of the last source that names it. -/
theorem get?_merged (hquiet : Quiet headers) {name : Text} (hname : name ≠ attrData) :
    (merged env obj src headers data).get? name = lastOf (env.sources obj src headers) name := by
  rw [merged, get?_setAll_entries, Dict.get?_set_of_ne _ _ (Ne.symm hname), get?_setAll_entries]
  simp [lastOf, Surroundings.sources, headerSource_of_quiet hquiet]

/-- The data is the body of the response, unless the document named by the response has an attribute
of that name, which is stored behind it. -/
theorem get?_merged_data :
    (merged env obj src headers data).get? attrData =
      ((documentSource (env.namedDocument src headers)).get? attrData).or
        (some (.bytes data)) := by
  rw [merged, get?_setAll_entries, Dict.get?_set_self]

/-- An object that was loaded follows the precedence exactly when its attributes are those of the
last sources and its data is the body or what replaced it. -/
theorem precedence_ok_iff {after : Object} (hcontent : env.content src = .loaded data headers) :
    Precedence env obj src (.ok after) ↔ Follows (env.sources obj src headers) obj after data := by
  constructor
  · rintro ⟨data', headers', hcontent', hfollows⟩
    cases hcontent.symm.trans hcontent'
    exact hfollows
  · intro hfollows
    exact ⟨data, headers, hcontent, hfollows⟩

/-- To follow the order of precedence is to show the data and the values of the sources. -/
theorem follows_iff_shown {sources : List (Dict Text Value)} {after : Object} :
    Follows sources obj after data ↔ after.attrs.get? attrData = some (.bytes data) ∧
      ∀ name, name ≠ attrData → after.attrs.get? name = shown sources obj.id name := by
  constructor
  · intro h
    refine ⟨h.data, fun name hname => ?_⟩
    rw [shown]
    cases hlast : lastOf sources name with
    | some value =>
      rw [h.last name value hname hlast]
      rfl
    | none =>
      by_cases hsame : name = attrDisplayName
      · rw [if_pos hsame, Option.none_or, hsame]
        exact h.displayName (hsame ▸ hlast)
      · rw [if_neg hsame, h.absent name hname hsame hlast]
        rfl
  · rintro ⟨hdata, hshown⟩
    refine ⟨hdata, ?_, ?_, ?_⟩
    · intro name value hname hlast
      rw [hshown name hname, shown, hlast, Option.some_or]
    · intro name hname hsame hlast
      rw [hshown name hname, shown, hlast, if_neg hsame, Option.none_or]
    · intro hlast
      rw [hshown _ attrData_ne_displayName, shown, hlast, if_pos rfl, Option.none_or]

/-- The last step shows what the sources have, or the ID where none of them has a name, or it raises
because the ID cannot be signed. -/
theorem setDisplayName_cases (hquiet : Quiet headers)
    (hupdated : Updated obj obj' (merged env obj src headers data)) :
    ((lastOf (env.sources obj src headers) attrDisplayName = none →
        Assignable obj.computeSignature (terminated obj.id)) ∧
      ∃ after, setDisplayName obj' = .ok after ∧
        after.attrs.get? attrData = (merged env obj src headers data).get? attrData ∧
        ∀ name, name ≠ attrData →
          after.attrs.get? name = shown (env.sources obj src headers) obj.id name) ∨
    ((lastOf (env.sources obj src headers) attrDisplayName = none ∧
        ¬Assignable obj.computeSignature (terminated obj.id)) ∧
      setDisplayName obj' = .error .valueError) := by
  obtain ⟨hattrs, hid, _, hsigned⟩ := hupdated
  have hmerged : ∀ name, name ≠ attrData →
      obj'.attrs.get? name = lastOf (env.sources obj src headers) name := by
    intro name hname
    rw [hattrs]
    exact get?_merged hquiet hname
  have hdisplay := hmerged attrDisplayName attrData_ne_displayName
  rw [setDisplayName, hdisplay]
  cases hlast : lastOf (env.sources obj src headers) attrDisplayName with
  | some value =>
    refine Or.inl ⟨fun h => (by cases h), obj', by simp, by rw [hattrs], fun name hname => ?_⟩
    rw [hmerged name hname, shown]
    by_cases hsame : name = attrDisplayName
    · rw [hsame, hlast, Option.some_or]
    · rw [if_neg hsame, Option.or_none]
  | none =>
    rw [Option.isSome_none, if_neg Bool.false_ne_true, hid]
    by_cases hassignable : Assignable obj.computeSignature (terminated obj.id)
    · obtain ⟨after, hafter, hset, _⟩ := assign_of_assignable (hsigned ▸ hassignable)
        attrDisplayName
      refine Or.inl ⟨fun _ => hassignable, after, hafter, ?_, fun name hname => ?_⟩
      · rw [hset, Dict.get?_set_of_ne _ _ attrData_ne_displayName, hattrs]
      · rw [hset, shown]
        by_cases hsame : name = attrDisplayName
        · rw [hsame, Dict.get?_set_self, hlast, if_pos rfl, Option.none_or]
        · rw [Dict.get?_set_of_ne _ _ (Ne.symm hsame), hmerged name hname, if_neg hsame,
            Option.or_none]
    · exact Or.inr ⟨⟨rfl, hassignable⟩, assign_of_not_assignable (hsigned ▸ hassignable) _⟩

end Merged

/-- The object with its content, the document that a header names and the last step: by the order
of precedence of the surroundings `env`, in which the content is there, when the loader meets the
surroundings `spoiled`. -/
theorem precedence_response_iff {env spoiled : Surroundings} {obj obj' : Object} {src : Text}
    {data data' : Bytes} {headers headers' : Dict Text Bytes}
    {result : Except Raised Object × Loader} (hcontent : env.content src = .loaded data' headers')
    (hquiet : Quiet headers)
    (hupdated : Updated obj obj' ((obj.attrs.setAll
      (documentSource (spoiled.metaDocument obj)).entries).set attrData (.bytes data)))
    (hresult : Yields result (outcome (storeOptional obj' (spoiled.namedDocument src headers)))) :
    Precedence env obj src (andThen result finish).1 ↔
      ResponseSound env spoiled obj src data headers := by
  have hsigned : obj'.computeSignature = obj.computeSignature := hupdated.2.2.2
  rcases storeOptional_cases obj' (spoiled.namedDocument src headers) with
    ⟨hnamed, hthere, after, hafter, hstored⟩ | ⟨hnamed, hthere, hsource, houtcome⟩ |
      ⟨hnamed, houtcome⟩
  · have hlast : Yields (finish after .new) (outcome (setDisplayName after)) :=
      ⟨rfl, fun _ _ => rfl⟩
    rw [hafter] at hresult
    have hmerged : Updated obj after (merged spoiled obj src headers data) := by
      have hboth := hupdated.trans hstored
      rwa [hupdated.1] at hboth
    rw [precedence_congr (hresult.goOn hlast).1]
    rcases setDisplayName_cases hquiet hmerged with
      ⟨hname, shownObj, hok, hdata, hshown⟩ | ⟨⟨hnone, hname⟩, herror⟩
    · rw [hok, precedence_ok_iff hcontent, follows_iff_shown, hdata]
      constructor
      · rintro ⟨hown, hvalues⟩
        have hkeeps : (documentSource (spoiled.namedDocument src headers)).get? attrData = none := by
          rw [get?_merged_data] at hown
          cases hdocument : (documentSource (spoiled.namedDocument src headers)).get? attrData with
          | none => rfl
          | some value =>
            rw [hdocument, Option.some_or] at hown
            exact absurd (Option.some.inj hown) (get?_documentSource_ne hdocument data')
        rw [get?_merged_data, hkeeps, Option.none_or] at hown
        refine ⟨hquiet, hsigned ▸ hnamed, hkeeps, fun _ => hname, fun _ other others h => ?_⟩
        cases hcontent.symm.trans h
        refine ⟨Value.bytes.inj (Option.some.inj hown), fun name hne => ?_⟩
        rw [← hshown name hne, hvalues name hne]
      · intro h
        obtain ⟨hsame, hvalues⟩ := h.own hthere data' headers' hcontent
        refine ⟨?_, fun name hne => ?_⟩
        · rw [get?_merged_data, h.keeps, Option.none_or, hsame]
        · rw [hshown name hne, hvalues name hne]
    · rw [herror]
      exact iff_of_false (not_precedence_of_failed rfl)
        fun h => hname (h.displayName hthere hnone)
  · rw [houtcome] at hresult
    have hend := hresult.stop (fun _ h => by cases h) finish
    refine iff_of_true (precedence_of_refused hend.1)
      ⟨hquiet, hsigned ▸ hnamed, ?_, fun h => absurd h hthere, fun h => absurd h hthere⟩
    rw [hsource]
    rfl
  · rw [houtcome] at hresult
    have hend := hresult.stop (fun _ h => by cases h) finish
    refine iff_of_false (not_precedence_of_failed hend.1) fun h => hnamed ?_
    rw [hsigned]
    exact h.document

/-- A load as far as the content. -/
theorem yields_start {env : Surroundings} {obj : Object} {src : Text} (hsrc : obj.src = some src) :
    Yields (andThen (env.loadSrcMaybeMeta obj .new) env.loadMeta)
      (outcome (storeOptional obj (env.metaDocument obj))) := by
  have hstart : Yields (env.loadSrcMaybeMeta obj .new) (.loaded obj) := by
    rw [Surroundings.loadSrcMaybeMeta, hsrc]
    exact ⟨rfl, fun _ _ => rfl⟩
  exact hstart.goOn (env.yields_loadMeta obj)

/-! ## After other fetches -/

/-- Two results with the same outcome, that leave the same loader when they are no exceptions. -/
def Alike {α : Type} (first second : Except Raised α × Loader) : Prop :=
  first.1 = second.1 ∧ ∀ value, first.1 = .ok value → first.2 = second.2

/-- A result is alike to itself, whatever it leaves in the loader. -/
theorem Alike.refl {α : Type} (result : Except Raised α × Loader) : Alike result result :=
  ⟨rfl, fun _ _ => rfl⟩

/-- Steps that are alike, and the same steps after them. -/
theorem Alike.andThen {first second : Except Raised Object × Loader} (h : Alike first second)
    {next next' : Object → Loader → Except Raised Object × Loader}
    (hnext : ∀ obj loader, Alike (next obj loader) (next' obj loader)) :
    Alike (andThen first next) (andThen second next') := by
  obtain ⟨result, loader⟩ := first
  obtain ⟨result', loader'⟩ := second
  obtain ⟨hresult, hloader⟩ := h
  cases hresult
  cases result with
  | error raised => exact ⟨rfl, fun _ h => by cases h⟩
  | ok obj =>
    cases hloader obj rfl
    exact hnext obj loader

namespace Surroundings

variable (env : Surroundings)

/-- A get behind failed transfers is a get of a new loader in surroundings where what they left is
delivered first. -/
theorem get_behind (kind : Fetch) (url : Text) (transfers : List Transfer) :
    Alike (env.get kind url (Loader.after transfers))
      ((env.behind kind (leftover transfers)).get kind url .new) := by
  have haccepts : (env.behind kind (leftover transfers)).accepts url = env.accepts url := rfl
  have htransfer : (env.behind kind (leftover transfers)).transfer kind url =
      (env.transfer kind url).behind (leftover transfers) := if_pos rfl
  rw [get, get, haccepts, htransfer, Loader.get_after]
  cases env.accepts url with
  | false => exact ⟨rfl, fun _ h => by cases h⟩
  | true => exact Alike.refl _

/-- The same of an attribute document: what failed transfers left in the loader stands in front of
it. -/
theorem loadAttributes_behind (kind : Fetch) (url : Text) (obj : Object)
    (transfers : List Transfer) :
    Alike (env.loadAttributes kind url obj (Loader.after transfers))
      ((env.behind kind (leftover transfers)).loadAttributes kind url obj .new) := by
  have hget := env.get_behind kind url transfers
  rw [loadAttributes, loadAttributes]
  generalize env.get kind url (Loader.after transfers) = first at hget
  generalize (env.behind kind (leftover transfers)).get kind url .new = second at hget
  obtain ⟨result, loader⟩ := first
  obtain ⟨result', loader'⟩ := second
  obtain ⟨hresult, hloader⟩ := hget
  cases hresult
  cases result with
  | error raised => exact ⟨rfl, fun _ h => by cases h⟩
  | ok response =>
    cases hloader response rfl
    exact Alike.refl _

/-- The same of an object from a data retriever, with its own response. -/
theorem loadDataretriever_behind (url : Text) (obj : Object) (transfers : List Transfer) :
    Alike (env.loadDataretriever url obj (Loader.after transfers))
      ((env.behind .data (leftover transfers)).loadDataretriever url obj .new) := by
  have hget := env.get_behind .data url transfers
  rw [loadDataretriever, loadDataretriever]
  generalize env.get .data url (Loader.after transfers) = first at hget
  generalize (env.behind .data (leftover transfers)).get .data url .new = second at hget
  obtain ⟨result, loader⟩ := first
  obtain ⟨result', loader'⟩ := second
  obtain ⟨hresult, hloader⟩ := hget
  cases hresult
  cases result with
  | error raised => exact ⟨rfl, fun _ h => by cases h⟩
  | ok response =>
    cases hloader response rfl
    exact Alike.refl _

/-- Looking for the content, when nothing was fetched since. -/
theorem loadContent_behind (obj : Object) (transfers : List Transfer) :
    (andThen (env.loadContent obj (Loader.after transfers)) finish).1 =
      (andThen ((env.behind .data (leftover transfers)).loadContent obj .new) finish).1 := by
  have hlocal : ∀ result : Except Raised Object,
      (andThen (result, Loader.after transfers) finish).1 = (andThen (result, .new) finish).1 := by
    intro result
    cases result <;> rfl
  rw [loadContent, loadContent]
  cases obj.src with
  | none => rfl
  | some uri =>
    have hscheme : (env.behind .data (leftover transfers)).splitScheme uri = env.splitScheme uri :=
      rfl
    dsimp only
    rw [hscheme]
    cases env.splitScheme uri with
    | none => rfl
    | some parts =>
      obtain ⟨scheme, path⟩ := parts
      dsimp only
      split_ifs
      · exact hlocal _
      · exact hlocal _
      · have hlike := env.loadDataretriever_behind uri obj transfers
        exact (hlike.andThen fun obj loader => Alike.refl (finish obj loader)).1

/-- A load after some fetches is a first load, of what these fetches have spoiled. -/
theorem load_after {obj : Object} {src : Text} (hsrc : obj.src = some src)
    (transfers : List Transfer) :
    (env.load obj (Loader.after transfers)).1 = ((env.spoiled transfers obj).load obj .new).1 := by
  have hfirst : ∀ (other : Surroundings) (loader : Loader),
      other.loadSrcMaybeMeta obj loader = (.ok obj, loader) := by
    intro other loader
    rw [loadSrcMaybeMeta, hsrc]
  rw [load, load, hfirst, hfirst]
  dsimp only [andThen]
  rw [loadMeta, loadMeta, spoiled, firstFetch]
  cases obj.metaUri with
  | none => exact env.loadContent_behind obj transfers
  | some uri =>
    dsimp only
    cases hsplit : env.splitScheme uri with
    | none =>
      have hscheme : (env.behind .metadata (leftover transfers)).splitScheme uri = none := hsplit
      simp only [hscheme]
    | some parts =>
      obtain ⟨scheme, path⟩ := parts
      dsimp only
      by_cases hfile : scheme = ofString "file"
      · have hscheme : (env.behind .data (leftover transfers)).splitScheme uri =
            some (scheme, path) := hsplit
        simp only [if_pos hfile, hscheme]
        have hloads : (env.behind .data (leftover transfers)).loadFile path = env.loadFile path := rfl
        rw [hloads]
        cases store obj (env.loadFile path) with
        | error raised => rfl
        | ok obj => exact env.loadContent_behind obj transfers
      · have hscheme : (env.behind .metadata (leftover transfers)).splitScheme uri =
            some (scheme, path) := hsplit
        simp only [if_neg hfile, hscheme]
        have hcontent : ∀ obj loader,
            Alike (env.loadContent obj loader) (env.loadContent obj loader) :=
          fun _ _ => Alike.refl _
        have hlike := (env.loadAttributes_behind .metadata uri obj transfers).andThen hcontent
        exact (hlike.andThen fun obj loader => Alike.refl (finish obj loader)).1

/-- What was left does not decide whether there is content. -/
theorem content_behind (kind : Fetch) (transfers : List Transfer) (src : Text) :
    match (env.behind kind (leftover transfers)).content src with
    | .raised => env.content src = .raised
    | .refused => env.content src = .refused
    | .loaded _ _ => ∃ data headers, env.content src = .loaded data headers := by
  by_cases hkind : kind = .data
  · have htransfer : (env.behind kind (leftover transfers)).transfer .data src =
        (env.transfer .data src).behind (leftover transfers) := if_pos hkind.symm
    have hsucceeds := Transfer.succeeds_behind (accepted_leftover transfers) (env.transfer .data src)
    have hscheme : (env.behind kind (leftover transfers)).splitScheme src = env.splitScheme src := rfl
    have hread : (env.behind kind (leftover transfers)).readFile = env.readFile := rfl
    have hblob : (env.behind kind (leftover transfers)).blob = env.blob := rfl
    have haccepts : (env.behind kind (leftover transfers)).accepts src = env.accepts src := rfl
    simp only [content, hscheme, hread, hblob, haccepts, htransfer, hsucceeds]
    cases env.splitScheme src with
    | none => rfl
    | some parts =>
      dsimp only
      split_ifs
      · cases env.blob parts.2 with
        | found data => exact ⟨_, _, rfl⟩
        | missing => rfl
        | failed => rfl
      · cases env.readFile parts.2 with
        | none => rfl
        | some data => exact ⟨_, _, rfl⟩
      · rfl
      · exact ⟨_, _, rfl⟩
      · rfl
  · have hcontent : (env.behind kind (leftover transfers)).content src = env.content src := by
      have htransfer : (env.behind kind (leftover transfers)).transfer .data src =
          env.transfer .data src := if_neg (Ne.symm hkind)
      simp only [content, htransfer]
      rfl
    rw [hcontent]
    cases env.content src with
    | loaded data headers => exact ⟨data, headers, rfl⟩
    | refused => rfl
    | raised => rfl

end Surroundings

/-- An object with a `src` is loaded by the order of precedence, or `ObjectLoadError` is
raised, if and only if every step that is reached is sound and what failed fetches before have
left changes nothing. -/
theorem load_precedence_iff (env : Surroundings) (transfers : List Transfer) {obj : Object}
    {src : Text} (hsrc : obj.src = some src) :
    Precedence env obj src (env.load obj (Loader.after transfers)).1 ↔
      Sound env transfers obj src := by
  have hkind := env.content_behind (env.firstFetch obj) transfers src
  change match (env.spoiled transfers obj).content src with
    | .raised => env.content src = .raised
    | .refused => env.content src = .refused
    | .loaded _ _ => ∃ data headers, env.content src = .loaded data headers at hkind
  have hsound : Sound env transfers obj src ↔
      Storable obj.computeSignature ((env.spoiled transfers obj).metaDocument obj) ∧
      (Loads ((env.spoiled transfers obj).metaDocument obj) → env.content src ≠ .raised) ∧
      (Loads ((env.spoiled transfers obj).metaDocument obj) → ∀ data headers,
        (env.spoiled transfers obj).content src = .loaded data headers →
          ResponseSound env (env.spoiled transfers obj) obj src data headers) :=
    ⟨fun h => ⟨h.metadata, h.content, h.response⟩, fun h => ⟨h.1, h.2.1, h.2.2⟩⟩
  rw [env.load_after hsrc, hsound]
  generalize env.spoiled transfers obj = spoiled at hkind
  rw [Surroundings.load]
  have hmeta : Yields (andThen (spoiled.loadSrcMaybeMeta obj .new) spoiled.loadMeta)
      (outcome (storeOptional obj (spoiled.metaDocument obj))) := yields_start hsrc
  rcases storeOptional_cases obj (spoiled.metaDocument obj) with
    ⟨hstorable, hloads, obj', hobj', hupdated⟩ | ⟨hstorable, hloads, _, houtcome⟩ |
      ⟨hstorable, houtcome⟩
  · rw [hobj'] at hmeta
    rcases spoiled.loadContent_cases (hupdated.2.2.1.trans hsrc) with
      ⟨hcontent, hyields⟩ | ⟨hcontent, hyields⟩ | ⟨data, headers, hcontent, hresponse⟩
    · have hend := (hmeta.goOn hyields).stop (fun _ h => by cases h) finish
      rw [hcontent] at hkind
      exact iff_of_false (not_precedence_of_failed hend.1) fun h => h.2.1 hloads hkind
    · have hend := (hmeta.goOn hyields).stop (fun _ h => by cases h) finish
      rw [hcontent] at hkind ⊢
      refine iff_of_true (precedence_of_refused hend.1) ⟨hstorable, fun _ h => ?_, ?_⟩
      · cases hkind.symm.trans h
      · exact fun _ data headers h => by cases h
    · rw [hcontent] at hkind
      obtain ⟨data', headers', hown⟩ := hkind
      have hcondition : (Storable obj.computeSignature (spoiled.metaDocument obj) ∧
          (Loads (spoiled.metaDocument obj) → env.content src ≠ .raised) ∧
          (Loads (spoiled.metaDocument obj) → ∀ data headers,
            spoiled.content src = .loaded data headers →
              ResponseSound env spoiled obj src data headers)) ↔
          ResponseSound env spoiled obj src data headers := by
        refine ⟨fun h => h.2.2 hloads data headers hcontent, fun h => ⟨hstorable, ?_, ?_⟩⟩
        · exact fun _ hraised => by cases hown.symm.trans hraised
        · intro _ other others hother
          cases hcontent.symm.trans hother
          exact h
      rw [hcondition]
      rcases hresponse with ⟨hquiet, loaded, hloaded, hyields⟩ | ⟨hquiet, hyields⟩
      · have hboth := hupdated.trans hloaded
        rw [hupdated.1] at hboth
        exact precedence_response_iff hown hquiet hboth (hmeta.goOn hyields)
      · have hend := (hmeta.goOn hyields).stop (fun _ h => by cases h) finish
        exact iff_of_false (not_precedence_of_failed hend.1) fun h => hquiet h.quiet
  · rw [houtcome] at hmeta
    have hend := (hmeta.stop (fun _ h => by cases h) spoiled.loadContent).stop
      (fun _ h => by cases h) finish
    refine iff_of_true (precedence_of_refused hend.1) ⟨hstorable, ?_, ?_⟩
    · exact fun h => absurd h hloads
    · exact fun h => absurd h hloads
  · rw [houtcome] at hmeta
    have hend := (hmeta.stop (fun _ h => by cases h) spoiled.loadContent).stop
      (fun _ h => by cases h) finish
    exact iff_of_false (not_precedence_of_failed hend.1) fun h => hstorable h.1

/-- The attributes of a document. -/
def titles : Dict Text Text := Dict.empty.set (ofString "title") (ofString "t")

/-- Surroundings in which every URI is an HTTP URL with the given responses, and the document `m`
holds a title. -/
def sampleSurroundings (transfer : Fetch → Transfer) : Surroundings where
  accepts _ := true
  splitScheme _ := some (ofString "http", ofString "/1")
  urljoin _ url := some url
  transfer kind _ := transfer kind
  describe _ := none
  loads body := if body = [109] then .attrs titles else .rejected
  loadFile _ := .rejected
  readFile _ := none
  blob _ := .missing

/-- The URI of the sample's data. -/
def sampleSrc : Text := ofString "http://localhost/1"

/-- An object with a `src`. -/
def sampleObject : Object :=
  { plainObject with src := some sampleSrc, computeSignature := true }

/-- An object with a `src` and a `meta`. -/
def describedObject : Object :=
  { sampleObject with metaUri := some (ofString "http://localhost/m") }

/-- The bytes of the line `a: 1`. -/
def plainLine : Bytes := [97, 58, 32, 49, 13, 10]

/-- The sample line is read as a field of its own. -/
theorem headerLine_plainLine :
    HttpLoader.headerLine plainLine = some (.field (ofString "a") [49]) := by
  have htext : decodeUtf8 plainLine = some (ofString "a: 1\r\n") := decodeUtf8_encodeUtf8 rfl
  simp only [HttpLoader.headerLine, htext]
  rfl

/-- A document with a title, and data with a header. -/
def describedTransfer : Fetch → Transfer
  | .metadata => HttpLoader.sampleTransfer [109] true
  | _ => ⟨[.header HttpLoader.okLine, .header plainLine, .body [99]], true⟩

theorem splitScheme_sample (transfer : Fetch → Transfer) (uri : Text) :
    (sampleSurroundings transfer).splitScheme uri = some (ofString "http", ofString "/1") := rfl

/-- The scheme of the sample is not that of the blob cache. -/
theorem ofString_ne_sha256 : ofString "http" ≠ ofString "sha256" := by decide

/-- Nor is it that of local files. -/
theorem ofString_ne_file : ofString "http" ≠ ofString "file" := by decide

/-- What a fetch that failed after a header leaves. -/
theorem leftover_cutTransfer : leftover [HttpLoader.cutTransfer] =
    [.header HttpLoader.okLine, .header HttpLoader.attrLine] := by
  simp [leftover, HttpLoader.cutTransfer, Transfer.succeeds, HttpLoader.delivered,
    HttpLoader.headerLine_okLine, HttpLoader.headerLine_attrLine]

/-- The fetches of the sample. -/
def describedSurroundings : Surroundings := sampleSurroundings describedTransfer

/-- The document is there, whatever accepted headers come before it. -/
theorem metaDocument_described {left : List Delivery} (h : HttpLoader.accepted left = true)
    (hleft : bodyOf left = []) :
    (describedSurroundings.behind .metadata left).metaDocument describedObject =
      some (.attrs titles) := by
  have htransfer : ∀ url, (describedSurroundings.behind .metadata left).transfer .metadata url =
      (HttpLoader.sampleTransfer [109] true).behind left := fun _ => rfl
  have haccepts : ∀ url, (describedSurroundings.behind .metadata left).accepts url = true :=
    fun _ => rfl
  have hloads : (describedSurroundings.behind .metadata left).loads [109] = .attrs titles := rfl
  have hsucceeds : (HttpLoader.sampleTransfer [109] true).succeeds = true := by
    simp [HttpLoader.sampleTransfer, Transfer.succeeds, HttpLoader.accepted,
      HttpLoader.headerLine_okLine]
  have hbody : bodyOf ((HttpLoader.sampleTransfer [109] true).behind left).deliveries = [109] := by
    rw [Transfer.behind, HttpLoader.bodyOf_append, hleft]
    rfl
  have hsplit : ∀ uri, (describedSurroundings.behind .metadata left).splitScheme uri =
      some (ofString "http", ofString "/1") := fun _ => rfl
  simp [Surroundings.metaDocument, describedObject, hsplit, ofString_ne_file,
    Surroundings.document, haccepts, htransfer, Transfer.succeeds_behind h, hsucceeds, hbody,
    hloads]

/-- The sample response has a body of one byte, and a header that is not an attribute. -/
theorem content_described : describedSurroundings.content sampleSrc =
    .loaded [99] (Dict.empty.set (ofString "a") [49]) := by
  simp [Surroundings.content, describedSurroundings, sampleSurroundings, ofString_ne_sha256,
    ofString_ne_file, describedTransfer, Transfer.succeeds, HttpLoader.accepted,
    HttpLoader.headerLine_okLine, headerLine_plainLine, bodyOf, headersOf,
    HttpLoader.headersFrom, HttpLoader.HeaderLine.apply]

/-- The titles of the sample can be signed. -/
theorem storable_titles : (Parsed.attrs titles).Storable true := by
  intro name value hvalue _
  rw [titles, Dict.get?_set] at hvalue
  split at hvalue
  · cases hvalue
    decide
  · cases hvalue

/-- The header `a` holds no attribute and names no document. -/
theorem quiet_described : Quiet (Dict.empty.set (ofString "a") [49]) := by
  refine ⟨fun key hkey => ?_, fun value hvalue => ?_⟩
  · rw [Dict.get?_set] at hkey
    split at hkey
    · rename_i hsame
      rw [← hsame]
      decide
    · cases hkey
  · cases hvalue

/-- After a fetch that failed, an object is loaded with the title that its `meta` URI gives. -/
theorem load_precedence_iff_described :
    (∃ after, (describedSurroundings.load describedObject
        (Loader.after [HttpLoader.cutTransfer])).1 = .ok after ∧
      after.attrs.get? (ofString "title") = some (terminated (ofString "t"))) ∧
    Precedence describedSurroundings describedObject sampleSrc
      (describedSurroundings.load describedObject (Loader.after [HttpLoader.cutTransfer])).1 := by
  refine ⟨⟨_, rfl, by decide⟩, ?_⟩
  have hspoiled : describedSurroundings.spoiled [HttpLoader.cutTransfer] describedObject =
      describedSurroundings.behind .metadata (leftover [HttpLoader.cutTransfer]) := rfl
  have hbody : bodyOf (leftover [HttpLoader.cutTransfer]) = [] := by
    rw [leftover_cutTransfer]
    rfl
  have hmeta := metaDocument_described (accepted_leftover [HttpLoader.cutTransfer]) hbody
  have hown : describedSurroundings.metaDocument describedObject = some (.attrs titles) :=
    @metaDocument_described [] rfl rfl
  rw [← hspoiled] at hmeta
  refine (load_precedence_iff _ _ rfl).mpr ⟨?_, ?_, ?_⟩
  · rw [hmeta]
    intro parsed hparsed
    cases hparsed
    exact storable_titles
  · intro _ hraised
    cases content_described.symm.trans hraised
  · intro _ data headers hloaded
    cases content_described.symm.trans hloaded
    refine ⟨quiet_described, ?_, rfl, ?_, ?_⟩
    · intro parsed hparsed
      cases hparsed
    · exact fun _ _ _ => by decide
    · intro _ data' headers' hcontent
      cases content_described.symm.trans hcontent
      refine ⟨rfl, fun name _ => ?_⟩
      simp only [Surroundings.sources, hmeta, hown]
      rfl

/-- A response with an attribute among its headers. -/
def attrTransfer : Transfer :=
  ⟨[.header HttpLoader.okLine, .header HttpLoader.attrLine, .body [99]], true⟩

/-- The sample response with an attribute header is received; the load fails only behind that. -/
theorem get_attrTransfer :
    (sampleSurroundings fun _ => attrTransfer).get .data sampleSrc .new =
      (.ok (Dict.empty.set (ofString "x-attr-a") [49], [99]), .new) := by
  have hget : Loader.new.get attrTransfer =
      (some (Dict.empty.set (ofString "x-attr-a") [49], [99]), .new) := by
    simp [Loader.get, Loader.perform, Loader.handleHeader, attrTransfer,
      HttpLoader.headerLine_okLine, HttpLoader.headerLine_attrLine, HttpLoader.HeaderLine.apply,
      Loader.handleBody, Loader.new]
  simp [Surroundings.get, sampleSurroundings, hget]

/-- The attribute in the header ends the load with `TypeError`. -/
theorem header_attribute_raises :
    ((sampleSurroundings fun _ => attrTransfer).load sampleObject .new).1 = .error .typeError ∧
      ¬Precedence (sampleSurroundings fun _ => attrTransfer) sampleObject sampleSrc
        ((sampleSurroundings fun _ => attrTransfer).load sampleObject .new).1 := by
  have hload : ((sampleSurroundings fun _ => attrTransfer).load sampleObject .new).1 =
      .error .typeError := by
    have hcontent : (sampleSurroundings fun _ => attrTransfer).loadContent sampleObject .new =
        (.error .typeError, .new) := by
      simp only [Surroundings.loadContent, sampleObject, splitScheme_sample,
        if_neg ofString_ne_sha256, if_neg ofString_ne_file, Surroundings.loadDataretriever,
        get_attrTransfer]
      rfl
    show (andThen ((sampleSurroundings fun _ => attrTransfer).loadContent sampleObject .new)
      finish).1 = _
    rw [hcontent]
    rfl
  rw [hload]
  exact ⟨rfl, not_precedence_of_failed rfl⟩

end OpenDiamond.ObjectLoader
