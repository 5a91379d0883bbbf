import OpenDiamond.Lib.Grouping
import OpenDiamond.Lib.Lines
import OpenDiamond.Lib.Splitting
import OpenDiamond.Lib.Traversal
import Mathlib.Data.Finset.Basic

/-!
# The configuration

`DiamondConfig` takes its parameters from a table of defaults, from a file with a key and a value on
each line, and from overrides, and then derives a few of them. The type of a default decides how the
values of its key are read: the values of a list are collected, of the others the last one counts.

The environment, the file system and the names of the host are an argument. Files are decoded.
-/

namespace OpenDiamond.Config

open Lib.OrderedDict Lib.Unicode Lib.Words Lib.Lines Lib.Grouping

/-! ## The program -/

/-- The value of a parameter. -/
inductive Value where
  /-- `None`. -/
  | absent
  /-- A Boolean. -/
  | flag (value : Bool)
  /-- An integer. -/
  | number (value : ℤ)
  /-- A text. -/
  | text (value : Text)
  /-- A list of texts. -/
  | texts (value : List Text)
  /-- A set of texts. -/
  | names (value : Finset Text)
  /-- A host and a port. -/
  | address (host : Text) (port : ℤ)
  deriving DecidableEq

/-- Python's truth of a value. -/
def Value.truthy : Value → Bool
  | .absent => false
  | .flag value => value
  | .number value => decide (value ≠ 0)
  | .text value => decide (value ≠ [])
  | .texts value => decide (value ≠ [])
  | .names value => decide (value ≠ ∅)
  | .address _ _ => true

/-- `_Param`. -/
structure Param where
  /-- `attr`. -/
  attr : Option String
  /-- `config_key`. -/
  configKey : Option String
  /-- `default`. -/
  default : Value

/-- A parameter with a text for its default. -/
def textParam (attr configKey default : String) : Param :=
  ⟨some attr, some configKey, .text (ofString default)⟩

/-- A parameter with a number for its default. -/
def numberParam (attr configKey : String) (default : ℤ) : Param :=
  ⟨some attr, some configKey, .number default⟩

/-- A parameter without a default. -/
def absentParam (attr configKey : String) : Param := ⟨some attr, some configKey, .absent⟩

/-- A parameter with an empty list for its default. -/
def listParam (attr configKey : String) : Param := ⟨some attr, some configKey, .texts []⟩

/-- `os.path.join` of two paths of which the second is relative. -/
def joinPath (front back : Text) : Text :=
  if front = [] ∨ front.getLast? = some 47 then front ++ back else front ++ [47] ++ back

/-- `os.path.dirname`. -/
def dirname (path : Text) : Text :=
  let head := path.rdropWhile (· ≠ 47)
  if head.all (· = 47) then head else head.rdropWhile (· = 47)

/-- `params`. -/
def params (confdir : Text) (defaultThreads : ℤ) : List Param :=
  [numberParam "blob_cache_days" "BLOBDAYS" 30,
    numberParam "cache_database" "CACHEDB" 0,
    absentParam "cache_password" "CACHEPASSWD",
    absentParam "cache_server" "CACHE",
    ⟨some "cachedir", some "CACHEDIR", .text (joinPath confdir (ofString "cache"))⟩,
    ⟨some "certdata", none, .text []⟩,
    ⟨some "certfile", some "CERTFILE", .text (joinPath confdir (ofString "CERTS"))⟩,
    absentParam "cgroupdir" "CGROUPDIR",
    ⟨some "daemonize", none, .flag true⟩,
    ⟨some "debug_command", none, .text (ofString "valgrind")⟩,
    ⟨some "debug_filters", none, .texts []⟩,
    numberParam "logdays" "LOGDAYS" 14,
    ⟨some "logdir", some "LOGDIR", .text (joinPath confdir (ofString "log"))⟩,
    numberParam "loglevel" "LOGLEVEL" 20,
    ⟨some "oneshot", none, .flag false⟩,
    absentParam "http_proxy" "HTTP_PROXY",
    absentParam "sentry_dsn" "SENTRY_DSN",
    listParam "serverids" "SERVERID",
    numberParam "threads" "THREADS" defaultThreads,
    ⟨some "user_agent", none, .text (ofString "OpenDiamond/10.1.1")⟩,
    textParam "nv_gpu" "NV_GPU" "",
    numberParam "security_cookie_no_verify" "SECURITY_COOKIE_NO_VERIFY" 0,
    numberParam "diamondd_port" "PORT" 5872,
    textParam "retriever_host" "DRHOST" "127.0.0.1",
    numberParam "retriever_port" "DRPORT" 5873,
    listParam "retriever_stores" "DATASTORE",
    textParam "dataroot" "DATAROOT" "/srv/diamond",
    textParam "indexdir" "INDEXDIR" "/src/diamond/INDEXES",
    absentParam "flickr_api_key" "FLICKR_KEY",
    absentParam "flickr_secret" "FLICKR_SECRET",
    absentParam "mirage_repository" "MIRAGE_REPOSITORY",
    textParam "yfcc100m_db_host" "YFCC100M_DB_HOST" "127.0.0.1",
    textParam "yfcc100m_db_dbname" "YFCC100M_DB_DBNAME" "dataretriever",
    textParam "yfcc100m_db_user" "YFCC100M_DB_USER" "dataretriever",
    absentParam "yfcc100m_db_password" "YFCC100M_DB_PASSWORD",
    numberParam "yfcc100m_db_port" "YFCC100M_DB_PORT" 3306]

/-- `_ConfigParams`: the parameters by attribute and by key. -/
structure ConfigParams where
  /-- `_by_attr`. -/
  byAttr : Dict String Param
  /-- `_by_key`. -/
  byKey : Dict Text Param

/-- `_ConfigParams.__init__`. -/
def ConfigParams.new (args : List Param) : ConfigParams where
  byAttr := Dict.empty.setAll (args.filterMap fun param => param.attr.map fun attr => (attr, param))
  byKey := Dict.empty.setAll
    (args.filterMap fun param => param.configKey.map fun key => (ofString key, param))

/-- The attributes of a `DiamondConfig`. -/
abbrev Attrs := Dict String Value

/-- The exceptions of `DiamondConfig`. -/
inductive Raised where
  /-- There is no path to look at. -/
  | unlocated
  /-- A line has a key that is not in the table. -/
  | unknownKey (key : Text)
  /-- A line has no value, or one that is no number. -/
  | syntaxError (line : Text)
  /-- The path that was given cannot be read. -/
  | unreadable (path : Text)
  /-- `AttributeError` for an override. -/
  | invalidAttribute (attr : String)
  /-- A directory is missing and cannot be made. -/
  | noDirectory (dir : Text)
  /-- The address of the cache server has no number behind its colon. -/
  | invalidPort (port : Text)
  /-- An override has a type that the code does not expect. -/
  | typeError
  deriving DecidableEq

/-- The text of the exception. -/
def Raised.message : Raised → Text
  | .unlocated => ofString "Couldn't get location of diamond_config"
  | .unknownKey key => ofString "Unknown config key: " ++ key
  | .syntaxError line => ofString "Syntax error: " ++ strip line
  | .unreadable path => ofString "Couldn't read " ++ path
  | .invalidAttribute attr => ofString "Could not override invalid attribute " ++ ofString attr
  | .noDirectory dir => ofString "Couldn't create directory: " ++ dir
  | .invalidPort port => ofString "Invalid port number: " ++ port
  | .typeError => []

/-- `line.split(None, 1)` on a stripped line as a pair, `none` for the `ValueError`. -/
def splitOnce (line : Text) : Option (Text × Text) :=
  let value := (line.dropWhile fun c => !isSpace c).dropWhile isSpace
  if value = [] then none else some (line.takeWhile fun c => !isSpace c, value)

/-- `append` on a list. -/
def Value.append (value : Value) (item : Text) : Value :=
  match value with
  | .texts list => .texts (list ++ [item])
  | other => other

/-- An attribute. -/
def getattr (attrs : Attrs) (attr : String) : Value := (attrs.get? attr).getD .absent

/-- What a line does with the value of its key, `none` for the `ValueError`. -/
def assignText (attrs : Attrs) (attr : String) (default : Value) (value : Text) : Option Attrs :=
  match default with
  | .texts _ => some (attrs.set attr ((getattr attrs attr).append value))
  | .number _ | .flag _ => (readInt value).map fun n => attrs.set attr (.number n)
  | _ => some (attrs.set attr (.text value))

/-- A line of the file. -/
def readLine (params : ConfigParams) (attrs : Attrs) (line : Text) : Except Raised Attrs :=
  let line := strip line
  if line = [] ∨ line.head? = some 35 then .ok attrs
  else
    match splitOnce line with
    | none => .error (.syntaxError line)
    | some (key, value) =>
      match params.byKey.get? key with
      | none => .error (.unknownKey key)
      | some param =>
        match param.attr with
        | none => .ok attrs
        | some attr =>
          match assignText attrs attr param.default value with
          | none => .error (.syntaxError line)
          | some attrs => .ok attrs

/-- The defaults. -/
def defaults (params : ConfigParams) : Attrs :=
  params.byAttr.entries.foldl (fun attrs entry => attrs.set entry.1 entry.2.default) Dict.empty

/-- The file, if it can be read. -/
def readFile (params : ConfigParams) (specified : Bool) (path : Text) (content : Option Text)
    (attrs : Attrs) : Except Raised Attrs :=
  match content with
  | some content => (fileLines content).foldlM (readLine params) attrs
  | none => if specified then .error (.unreadable path) else .ok attrs

/-- The overrides. -/
def override (params : ConfigParams) (attrs : Attrs) (kwargs : List (String × Value)) :
    Except Raised Attrs :=
  kwargs.foldlM (fun attrs entry =>
    if entry.1 ∈ params.byAttr.keys then .ok (attrs.set entry.1 entry.2)
    else .error (.invalidAttribute entry.1)) attrs

/-- What the code finds around it. -/
structure World where
  /-- `DIAMOND_CONFIG` of the environment. -/
  diamondConfig : Option Text
  /-- `HOME` of the environment. -/
  home : Option Text
  /-- `SC_NPROCESSORS_ONLN`, `none` for the `OSError`. -/
  processors : Option ℤ
  /-- The content of a file, `none` for the `IOError`. -/
  file : Text → Option Text
  /-- `os.path.isdir`. -/
  isDir : Text → Bool
  /-- `os.mkdir` succeeds. -/
  mkdir : Text → Bool
  /-- The names of the addresses of the host. -/
  hostnames : List Text

/-- The path of the file. -/
def locate (world : World) (path : Option Text) : Except Raised Text :=
  match path, world.diamondConfig, world.home with
  | some path, _, _ => .ok path
  | none, some dir, _ => .ok (joinPath dir (ofString "diamond_config"))
  | none, none, some home =>
    .ok (joinPath (joinPath home (ofString ".diamond")) (ofString "diamond_config"))
  | none, none, none => .error .unlocated

/-- `default_threads`. -/
def defaultThreads (world : World) : ℤ :=
  match world.processors with
  | some n => max n 2
  | none => 2

/-- One of the directories, with those that have been made. -/
def makeDir (world : World) (made : List Text) : Value → Except Raised (List Text)
  | .absent => .ok made
  | .text dir =>
    if world.isDir dir ∨ dir ∈ made then .ok made
    else if world.mkdir dir then .ok (dir :: made)
    else .error (.noDirectory dir)
  | _ => .error .typeError

/-- `serverids`, by the names of the host if there are none. -/
def serverids (world : World) (value : Value) : Value :=
  if value.truthy then value else .texts world.hostnames

/-- `certdata`, from the file if it is empty. -/
def certdata (world : World) (certfile value : Value) : Except Raised Value :=
  if certfile ≠ .absent ∧ value = .text [] then
    match certfile with
    | .text path =>
      match world.file path with
      -- a file that is read as text has its lines ended by line feeds
      | some content => .ok (.text (fileLines content).flatten)
      | none => .ok value
    | _ => .error .typeError
  else .ok value

/-- `cache_server`, as a pair. -/
def cacheServer : Value → Except Raised Value
  | .absent => .ok .absent
  | .text server =>
    let server := if 58 ∈ server then server else server ++ ofString ":6379"
    match Lib.Splitting.cut [58] server with
    | none => .error .typeError
    | some (host, port) =>
      match readInt port with
      | none => .error (.invalidPort port)
      | some port => .ok (.address host port)
  | _ => .error .typeError

/-- `set` of the names of filters. -/
def debugFilters : Value → Except Raised Value
  | .texts list => .ok (.names list.toFinset)
  -- the members of a text are its symbols
  | .text name => .ok (.names (name.map fun c => [c]).toFinset)
  | .names names => .ok (.names names)
  | _ => .error .typeError

/-- `split(None)`, from within a word. -/
def splitWordsFrom (word : Text) : Text → List Text
  | [] => if word = [] then [] else [word]
  | c :: rest =>
    if isSpace c then
      if word = [] then splitWordsFrom [] rest else word :: splitWordsFrom [] rest
    else splitWordsFrom (word ++ [c]) rest

/-- `debug_command`, in words. -/
def debugCommand : Value → Except Raised Value
  | .text command => .ok (.texts (splitWordsFrom [] command))
  | _ => .error .typeError

/-- `retriever_stores`, with those that are enabled if none are named. -/
def retrieverStores (value : Value) : Value :=
  if value.truthy then value else .texts [ofString "diamond", ofString "proxy"]

/-- What `__init__` makes of the parameters. -/
def derive (world : World) (attrs : Attrs) : Except Raised Attrs := do
  let made ← makeDir world [] (getattr attrs "cachedir")
  let _ ← makeDir world made (getattr attrs "logdir")
  let attrs := attrs.set "serverids" (serverids world (getattr attrs "serverids"))
  let data ← certdata world (getattr attrs "certfile") (getattr attrs "certdata")
  let attrs := attrs.set "certdata" data
  let server ← cacheServer (getattr attrs "cache_server")
  let attrs := attrs.set "cache_server" server
  let filters ← debugFilters (getattr attrs "debug_filters")
  let attrs := attrs.set "debug_filters" filters
  let command ← debugCommand (getattr attrs "debug_command")
  let attrs := attrs.set "debug_command" command
  return attrs.set "retriever_stores" (retrieverStores (getattr attrs "retriever_stores"))

/-- The parameters, for a file. -/
def table (world : World) (file : Text) : List Param :=
  params (dirname file) (defaultThreads world)

/-- `DiamondConfig.__init__`. -/
def init (world : World) (path : Option Text) (kwargs : List (String × Value)) :
    Except Raised Attrs := do
  let file ← locate world path
  let params := ConfigParams.new (table world file)
  let attrs ← readFile params path.isSome file (world.file file) (defaults params)
  let attrs ← override params attrs kwargs
  derive world attrs

/-! ## What a file says -/

/-- A line that is blank or a comment. -/
def IsComment (line : Text) : Prop := strip line = [] ∨ (strip line).head? = some 35

instance (line : Text) : Decidable (IsComment line) := inferInstanceAs (Decidable (_ ∨ _))

/-- The key and the value of a line, if there are some. -/
def entry (line : Text) : Option (Text × Text) :=
  if IsComment line then none else splitOnce (strip line)

/-- The default is a number, or a Boolean, which is one. -/
def Value.isInt : Value → Bool
  | .number _ => true
  | .flag _ => true
  | _ => false

/-- The parameter has the key. -/
def Param.HasKey (param : Param) (key : Text) : Prop := param.configKey.map ofString = some key

instance (param : Param) (key : Text) : Decidable (param.HasKey key) :=
  inferInstanceAs (Decidable (_ = _))

/-- What is wrong with a line. -/
def lineError (args : List Param) (line : Text) : Option Raised :=
  if IsComment line then none
  else
    match splitOnce (strip line) with
    | none => some (.syntaxError (strip line))
    | some (key, value) =>
      match args.find? fun param => param.HasKey key with
      | none => some (.unknownKey key)
      | some param =>
        if param.default.isInt ∧ readInt value = none then some (.syntaxError (strip line)) else none

/-- The values that the lines give to a parameter. -/
def Param.valuesIn (param : Param) (lines : List Text) : List Text :=
  match param.configKey with
  | none => []
  | some key => valuesOf (lines.filterMap entry) (ofString key)

/-- What becomes of a parameter with such values: a list collects them, and otherwise the last one
counts. -/
def Param.value (param : Param) (values : List Text) : Value :=
  match param.default with
  | .texts list => .texts (list ++ values)
  | .number _ | .flag _ => ((values.getLast?.bind readInt).map Value.number).getD param.default
  | _ => (values.getLast?.map Value.text).getD param.default

/-- A table in which every parameter has an attribute, and no two have one attribute or one key. -/
structure Table (args : List Param) : Prop where
  /-- Attributes. -/
  named : ∀ param ∈ args, param.attr.isSome
  /-- One parameter for each. -/
  attrs : (args.filterMap Param.attr).Nodup
  /-- One parameter for each key. -/
  keys : (args.filterMap Param.configKey).Nodup

/-- The table of parameters is well formed: no two share a key or an attribute. -/
theorem table_params (confdir : Text) (n : ℤ) : Table (params confdir n) := by
  have hattrs : ∀ dir m, (params dir m).filterMap Param.attr = (params [] 0).filterMap Param.attr :=
    fun _ _ => rfl
  have hkeys : ∀ dir m, (params dir m).filterMap Param.configKey =
      (params [] 0).filterMap Param.configKey := fun _ _ => rfl
  have hnamed : (params confdir n).all (fun param => param.attr.isSome) = true := rfl
  refine ⟨List.all_eq_true.mp hnamed, ?_, ?_⟩
  · rw [hattrs]
    decide +kernel
  · rw [hkeys]
    decide +kernel

/-! ## Lookups in the table -/

section Lookups

variable {κ : Type} [DecidableEq κ] {args : List Param} {f : Param → Option κ} {key : κ}

/-- The first parameter with a key is found. -/
theorem find_index (f : Param → Option κ) (args : List Param) (key : κ) :
    find (args.filterMap fun param => (f param).map fun key => (key, param)) key =
      args.find? fun param => f param = some key := by
  induction args with
  | nil => rfl
  | cons param rest ih =>
    cases hkey : f param with
    | none => simpa [hkey] using ih
    | some other =>
      by_cases hother : other = key
      · simp [hkey, hother, find]
      · simpa [hkey, hother, find] using ih

omit [DecidableEq κ] in
/-- An index has the keys of the parameters that have one, in their order. -/
theorem fst_index (f : Param → Option κ) (args : List Param) :
    (args.filterMap fun param => (f param).map fun key => (key, param)).map Prod.fst =
      args.filterMap f := by
  rw [List.map_filterMap]
  refine List.filterMap_congr fun param _ => ?_
  cases f param <;> rfl

/-- With distinct keys an index finds the parameter that has the key. -/
theorem get?_index (h : (args.filterMap f).Nodup) :
    (Dict.empty.setAll (args.filterMap fun param =>
      (f param).map fun key => (key, param))).get? key = args.find? fun param => f param = some key := by
  rw [Dict.get?_setAll (by rw [fst_index]; exact h), find_index, Dict.get?_empty, Option.or_none]

/-- With distinct keys the parameter that is found for a key is the only one that has it. -/
theorem find?_eq_some_iff (h : (args.filterMap f).Nodup) {param : Param} :
    (args.find? fun param => f param = some key) = some param ↔
      param ∈ args ∧ f param = some key := by
  rw [← find_index, find_eq_some_iff (by rw [fst_index]; exact h), List.mem_filterMap]
  constructor
  · rintro ⟨other, hother, hsome⟩
    obtain ⟨found, hfound, heq⟩ := Option.map_eq_some_iff.mp hsome
    cases heq
    exact ⟨hother, hfound⟩
  · rintro ⟨hparam, hkey⟩
    exact ⟨param, hparam, by rw [hkey]; rfl⟩

end Lookups

section Reading

variable {args : List Param} (h : Table args)
include h

/-- The keys of the file are distinct as texts as well. -/
theorem Table.nodup_texts :
    (args.filterMap fun param => param.configKey.map ofString).Nodup := by
  have hmap : (args.filterMap fun param => param.configKey.map ofString) =
      (args.filterMap Param.configKey).map ofString := by rw [List.map_filterMap]
  rw [hmap]
  exact h.keys.map ofString_injective

/-- A key of the file finds its own parameter. -/
theorem Table.get?_byKey (key : Text) :
    (ConfigParams.new args).byKey.get? key = args.find? fun param => param.HasKey key := by
  have hindex := @get?_index Text _ args (fun param => param.configKey.map ofString) key
    h.nodup_texts
  simp only [Option.map_map] at hindex
  exact hindex

/-- An attribute finds its own parameter. -/
theorem Table.get?_byAttr (attr : String) :
    (ConfigParams.new args).byAttr.get? attr = args.find? fun param => param.attr = some attr :=
  get?_index h.attrs

/-- The parameter with a key. -/
theorem Table.find_key {param : Param} {key : Text} :
    (args.find? fun param => param.HasKey key) = some param ↔ param ∈ args ∧ param.HasKey key :=
  find?_eq_some_iff h.nodup_texts

/-- Two parameters of the table with the same attribute are one parameter. -/
theorem Table.unique {param other : Param} (hparam : param ∈ args) (hother : other ∈ args)
    {attr : String} (hattr : param.attr = some attr) (hattr' : other.attr = some attr) :
    param = other := by
  have hfind := (find?_eq_some_iff h.attrs).mpr ⟨hparam, hattr⟩
  rw [(find?_eq_some_iff h.attrs).mpr ⟨hother, hattr'⟩] at hfind
  exact (Option.some.inj hfind).symm

/-- At first every attribute is the default. -/
theorem Table.get?_defaults {param : Param} (hparam : param ∈ args) {attr : String}
    (hattr : param.attr = some attr) :
    (defaults (ConfigParams.new args)).get? attr = some param.default := by
  have hset : defaults (ConfigParams.new args) = Dict.empty.setAll
      ((ConfigParams.new args).byAttr.entries.map fun entry => (entry.1, entry.2.default)) := by
    rw [defaults, Dict.setAll, List.foldl_map]
  have hnodup : (((ConfigParams.new args).byAttr.entries.map
      fun entry => (entry.1, entry.2.default)).map Prod.fst).Nodup := by
    rw [List.map_map]
    exact (ConfigParams.new args).byAttr.nodup
  have hfind : (ConfigParams.new args).byAttr.get? attr = some param :=
    (h.get?_byAttr attr).trans ((find?_eq_some_iff h.attrs).mpr ⟨hparam, hattr⟩)
  rw [hset, Dict.get?_setAll hnodup, find_map fun (_ : String) (param : Param) => param.default]
  rw [Dict.get?] at hfind
  rw [hfind]
  rfl

/-- What has been read of the file so far. -/
def ReadSoFar (args : List Param) (lines : List Text) (attrs : Attrs) : Prop :=
  ∀ param ∈ args, ∀ attr, param.attr = some attr →
    attrs.get? attr = some (param.value (param.valuesIn lines))

omit h in
/-- A further line of the file adds its value to those of its key, if it is an entry at all. -/
theorem Param.valuesIn_append (param : Param) (lines : List Text) (line : Text) :
    param.valuesIn (lines ++ [line]) =
      param.valuesIn lines ++ (match entry line with
        | some (key, value) => if param.HasKey key then [value] else []
        | none => []) := by
  rw [Param.valuesIn, Param.valuesIn]
  cases hkey : param.configKey with
  | none =>
    have hnot : ∀ key, ¬ param.HasKey key := fun key => by simp [Param.HasKey, hkey]
    cases entry line <;> simp [hnot]
  | some own =>
    dsimp only
    rw [List.filterMap_append, valuesOf_append]
    cases hentry : entry line with
    | none => simp [hentry]
    | some pair =>
      obtain ⟨key, value⟩ := pair
      have hhas : key = ofString own ↔ param.HasKey key := by
        rw [Param.HasKey, hkey, Option.map_some, Option.some.injEq, eq_comm]
      rw [List.filterMap_cons, hentry, List.filterMap_nil, valuesOf_singleton]
      exact congrArg _ (if_congr hhas rfl rfl)

omit h in
/-- A value is stored as the parameter says. -/
theorem assignText_eq {param : Param} {attrs : Attrs} {attr : String} {values : List Text}
    {value : Text} (hattrs : attrs.get? attr = some (param.value values))
    (hvalue : ¬ (param.default.isInt = true ∧ readInt value = none)) :
    assignText attrs attr param.default value =
      some (attrs.set attr (param.value (values ++ [value]))) := by
  unfold Param.value at hattrs ⊢
  unfold assignText
  cases hdefault : param.default with
  | texts list =>
    rw [hdefault] at hattrs
    simp only [getattr, hattrs, Option.getD_some, Value.append, List.append_assoc]
  | number n =>
    obtain ⟨m, hm⟩ := Option.ne_none_iff_exists'.mp fun hnone =>
      hvalue ⟨by rw [hdefault]; rfl, hnone⟩
    simp [hm]
  | flag b =>
    obtain ⟨m, hm⟩ := Option.ne_none_iff_exists'.mp fun hnone =>
      hvalue ⟨by rw [hdefault]; rfl, hnone⟩
    simp [hm]
  | _ => simp

/-- A line that is wrong raises its error, whatever was read before. -/
theorem Table.readLine_error {line : Text} {raised : Raised}
    (herror : lineError args line = some raised) (attrs : Attrs) :
    readLine (ConfigParams.new args) attrs line = .error raised := by
  unfold lineError at herror
  unfold readLine
  by_cases hcomment : IsComment line
  · rw [if_pos hcomment] at herror
    cases herror
  · rw [if_neg hcomment] at herror
    have hmeaning : ¬ (strip line = [] ∨ (strip line).head? = some 35) := hcomment
    dsimp only
    rw [if_neg hmeaning]
    cases hsplit : splitOnce (strip line) with
    | none =>
      rw [hsplit] at herror
      cases herror
      rfl
    | some pair =>
      obtain ⟨key, value⟩ := pair
      rw [hsplit] at herror
      dsimp only at herror ⊢
      rw [h.get?_byKey]
      cases hfind : args.find? fun param => param.HasKey key with
      | none =>
        rw [hfind] at herror
        cases herror
        rfl
      | some param =>
        rw [hfind] at herror
        dsimp only at herror ⊢
        obtain ⟨hparam, -⟩ := h.find_key.mp hfind
        obtain ⟨attr, hattr⟩ := Option.isSome_iff_exists.mp (h.named param hparam)
        rw [Option.ite_none_right_eq_some] at herror
        obtain ⟨⟨hint, hvalue⟩, heq⟩ := herror
        cases heq
        rw [hattr]
        dsimp only
        have hnone : assignText attrs attr param.default value = none := by
          unfold assignText
          cases hdefault : param.default with
          | number n => simp [hvalue]
          | flag b => simp [hvalue]
          | _ =>
            rw [hdefault] at hint
            cases hint
        rw [hnone]

/-- A line that is not wrong does what it says. -/
theorem Table.readLine_ok {lines : List Text} {line : Text} {attrs : Attrs}
    (hread : ReadSoFar args lines attrs) (herror : lineError args line = none) :
    ∃ attrs', readLine (ConfigParams.new args) attrs line = .ok attrs' ∧
      ReadSoFar args (lines ++ [line]) attrs' := by
  unfold lineError at herror
  unfold readLine
  by_cases hcomment : IsComment line
  · refine ⟨attrs, if_pos hcomment, fun param hparam attr hattr => ?_⟩
    have hentry : entry line = none := if_pos hcomment
    rw [param.valuesIn_append, hentry, List.append_nil]
    exact hread param hparam attr hattr
  · rw [if_neg hcomment] at herror
    have hmeaning : ¬ (strip line = [] ∨ (strip line).head? = some 35) := hcomment
    dsimp only
    rw [if_neg hmeaning]
    cases hsplit : splitOnce (strip line) with
    | none =>
      rw [hsplit] at herror
      cases herror
    | some pair =>
      obtain ⟨key, value⟩ := pair
      have hentry : entry line = some (key, value) := (if_neg hcomment).trans hsplit
      rw [hsplit] at herror
      dsimp only at herror ⊢
      rw [h.get?_byKey]
      cases hfind : args.find? fun param => param.HasKey key with
      | none =>
        rw [hfind] at herror
        cases herror
      | some param =>
        rw [hfind] at herror
        dsimp only at herror ⊢
        obtain ⟨hparam, hkey⟩ := h.find_key.mp hfind
        obtain ⟨attr, hattr⟩ := Option.isSome_iff_exists.mp (h.named param hparam)
        have hgood : ¬ (param.default.isInt = true ∧ readInt value = none) := by
          intro hbad
          rw [if_pos hbad] at herror
          cases herror
        rw [hattr]
        dsimp only
        rw [assignText_eq (hread param hparam attr hattr) hgood]
        refine ⟨_, rfl, fun other hother attr' hattr' => ?_⟩
        rw [other.valuesIn_append, hentry]
        dsimp only
        by_cases hsame : attr = attr'
        · subst hsame
          cases h.unique hparam hother hattr hattr'
          rw [Dict.get?_set_self, if_pos hkey]
        · have hnot : ¬ other.HasKey key := by
            intro hhas
            have heq := hfind.symm.trans (h.find_key.mpr ⟨hother, hhas⟩)
            rw [← Option.some.inj heq, hattr] at hattr'
            exact hsame (Option.some.inj hattr')
          rw [Dict.get?_set_of_ne _ _ hsame, if_neg hnot, List.append_nil]
          exact hread other hother attr' hattr'

/-- Lines of which none is wrong are read. -/
theorem Table.readLines_ok {more : List Text} (herror : ∀ line ∈ more, lineError args line = none)
    {lines : List Text} {attrs : Attrs} (hread : ReadSoFar args lines attrs) :
    ∃ attrs', more.foldlM (readLine (ConfigParams.new args)) attrs = .ok attrs' ∧
      ReadSoFar args (lines ++ more) attrs' := by
  induction more generalizing lines attrs with
  | nil => exact ⟨attrs, rfl, by rwa [List.append_nil]⟩
  | cons line rest ih =>
    obtain ⟨next, hline, hnext⟩ := h.readLine_ok hread (herror line List.mem_cons_self)
    obtain ⟨attrs', hrest, hfinal⟩ :=
      ih (fun other hother => herror other (List.mem_cons_of_mem _ hother)) hnext
    refine ⟨attrs', ?_, ?_⟩
    · rw [List.foldlM_cons, hline]
      exact hrest
    · rwa [List.append_assoc] at hfinal

/-- The first line that is wrong raises its error. -/
theorem Table.readLines_error {before : List Text} (after : List Text) {line : Text}
    {raised : Raised}
    (hbefore : ∀ other ∈ before, lineError args other = none)
    (herror : lineError args line = some raised) {lines : List Text} {attrs : Attrs}
    (hread : ReadSoFar args lines attrs) :
    (before ++ line :: after).foldlM (readLine (ConfigParams.new args)) attrs = .error raised := by
  obtain ⟨attrs', hok, -⟩ := h.readLines_ok hbefore hread
  rw [List.foldlM_append, hok]
  show (line :: after).foldlM (readLine (ConfigParams.new args)) attrs' = _
  rw [List.foldlM_cons, h.readLine_error herror]
  rfl

/-- Before the first line there are the defaults. -/
theorem Table.readSoFar_defaults :
    ReadSoFar args [] (defaults (ConfigParams.new args)) := by
  intro param hparam attr hattr
  have hvalues : param.valuesIn [] = [] := by
    unfold Param.valuesIn
    cases param.configKey <;> rfl
  rw [h.get?_defaults hparam hattr, hvalues, Param.value]
  cases param.default <;> simp

end Reading

/-! ## Files that are written -/

/-- A file with settings, one on a line. -/
def writeSettings (settings : List (Text × Text)) : Text :=
  settings.flatMap fun setting => setting.1 ++ 32 :: setting.2 ++ [10]

/-- A key and a value that can stand on a line. -/
structure Writable (setting : Text × Text) : Prop where
  /-- The key is a word. -/
  key : setting.1 ≠ [] ∧ ∀ c ∈ setting.1, isSpace c = false
  /-- It begins no comment. -/
  noComment : setting.1.head? ≠ some 35
  /-- There is a value. -/
  nonempty : setting.2 ≠ []
  /-- It begins with no blank. -/
  front : ∀ c ∈ setting.2.head?, isSpace c = false
  /-- It ends with no blank. -/
  back : ∀ c ∈ setting.2.getLast?, isSpace c = false
  /-- It is on one line. -/
  unbroken : ∀ c ∈ setting.2, c ≠ 10 ∧ c ≠ 13

/-- The line that is written for a setting is read as the setting: the key ends at the blank, and
the value loses nothing. -/
theorem entry_of_writable {setting : Text × Text} (h : Writable setting) :
    entry (setting.1 ++ 32 :: setting.2 ++ [10]) = some setting := by
  obtain ⟨key, value⟩ := setting
  obtain ⟨hne, hkey⟩ := h.key
  obtain ⟨c, rest, rfl⟩ := List.exists_cons_of_ne_nil hne
  have hc : isSpace c = false := hkey c List.mem_cons_self
  have hstrip : strip (c :: rest ++ 32 :: value ++ [10]) = c :: rest ++ 32 :: value := by
    have hdrop : (c :: rest ++ 32 :: value ++ [10]).dropWhile isSpace =
        c :: rest ++ 32 :: value ++ [10] := List.dropWhile_cons_of_neg (by simp [hc])
    rw [strip, hdrop, List.rdropWhile_concat_pos _ _ _ rfl, List.rdropWhile_eq_self_iff]
    intro hall
    have hlast : (c :: rest ++ 32 :: value).getLast hall = value.getLast h.nonempty := by
      rw [List.getLast_append_of_ne_nil _ (List.cons_ne_nil _ _), List.getLast_cons h.nonempty]
    rw [hlast, h.back _ (List.getLast?_eq_some_getLast h.nonempty)]
    exact Bool.false_ne_true
  have hcomment : ¬ IsComment (c :: rest ++ 32 :: value ++ [10]) := by
    rw [IsComment, hstrip]
    rintro (hnil | hhead)
    · cases hnil
    · exact h.noComment hhead
  have htake : (c :: rest ++ 32 :: value).takeWhile (fun c => !isSpace c) = c :: rest := by
    rw [List.takeWhile_append_of_pos fun d hd => by simp [hkey d hd],
      List.takeWhile_cons_of_neg (by decide), List.append_nil]
  have hdrop : (c :: rest ++ 32 :: value).dropWhile (fun c => !isSpace c) = 32 :: value := by
    rw [List.dropWhile_append_of_pos fun d hd => by simp [hkey d hd],
      List.dropWhile_cons_of_neg (by decide)]
  have hvalue : (32 :: value).dropWhile isSpace = value := by
    obtain ⟨d, more, hmore⟩ := List.exists_cons_of_ne_nil h.nonempty
    dsimp only at hmore
    have hd := h.front d (by rw [hmore]; rfl)
    rw [List.dropWhile_cons_of_pos rfl, hmore, List.dropWhile_cons_of_neg (by simp [hd])]
  rw [entry, if_neg hcomment, hstrip, splitOnce, hdrop, hvalue, if_neg h.nonempty, htake]

/-- Settings are read as they were written. -/
theorem entries_writeSettings {settings : List (Text × Text)}
    (h : ∀ setting ∈ settings, Writable setting) :
    (fileLines (writeSettings settings)).filterMap entry = settings := by
  induction settings with
  | nil => rfl
  | cons setting rest ih =>
    have hwritable := h setting List.mem_cons_self
    have hunbroken : ∀ c ∈ setting.1 ++ 32 :: setting.2, c ≠ 10 ∧ c ≠ 13 := by
      intro c hc
      rcases List.mem_append.mp hc with hc | hc
      · have hspace := hwritable.key.2 c hc
        constructor
        · rintro rfl
          cases hspace
        · rintro rfl
          cases hspace
      · rcases List.mem_cons.mp hc with rfl | hc
        · decide
        · exact hwritable.unbroken c hc
    have hlines : fileLines (writeSettings (setting :: rest)) =
        (setting.1 ++ 32 :: setting.2 ++ [10]) :: fileLines (writeSettings rest) := by
      rw [fileLines, writeSettings, List.flatMap_cons, List.append_assoc, List.singleton_append,
        fileLinesFrom_append hunbroken, List.nil_append]
      rfl
    rw [hlines, List.filterMap_cons, entry_of_writable hwritable,
      ih fun other hother => h other (List.mem_cons_of_mem _ hother)]

/-! ## The whole configuration -/

section Whole

open Lib.Traversal

/-- The attributes that are derived. -/
def derivedAttrs : List String :=
  ["serverids", "certdata", "cache_server", "debug_filters", "debug_command", "retriever_stores"]

/-- What is derived from the parameters; all else is left as it is. -/
structure Derived (world : World) (raw attrs : Attrs) : Prop where
  /-- The directories exist. -/
  directories : ∃ made more, makeDir world [] (getattr raw "cachedir") = .ok made ∧
    makeDir world made (getattr raw "logdir") = .ok more
  /-- `serverids`. -/
  serverids : getattr attrs "serverids" = Config.serverids world (getattr raw "serverids")
  /-- `certdata`. -/
  certdata : Config.certdata world (getattr raw "certfile") (getattr raw "certdata") =
    .ok (getattr attrs "certdata")
  /-- `cache_server`. -/
  cacheServer : Config.cacheServer (getattr raw "cache_server") = .ok (getattr attrs "cache_server")
  /-- `debug_filters`. -/
  debugFilters : Config.debugFilters (getattr raw "debug_filters") =
    .ok (getattr attrs "debug_filters")
  /-- `debug_command`. -/
  debugCommand : Config.debugCommand (getattr raw "debug_command") =
    .ok (getattr attrs "debug_command")
  /-- `retriever_stores`. -/
  stores : getattr attrs "retriever_stores" =
    Config.retrieverStores (getattr raw "retriever_stores")
  /-- The others. -/
  others : ∀ attr ∉ derivedAttrs, getattr attrs attr = getattr raw attr

/-- Setting an attribute changes what that attribute has, and no other. -/
theorem getattr_set (attrs : Attrs) (attr other : String) (value : Value) :
    getattr (attrs.set attr value) other = if attr = other then value else getattr attrs other := by
  rw [getattr, Dict.get?_set]
  split
  · rfl
  · rfl

/-- The derived attributes are computed from the raw ones and leave those that they do not name. -/
theorem derived_of_derive {world : World} {raw attrs : Attrs} (h : derive world raw = .ok attrs) :
    Derived world raw attrs := by
  unfold derive at h
  obtain ⟨made, hcache, h⟩ := bind_eq_ok h
  obtain ⟨more, hlog, h⟩ := bind_eq_ok h
  obtain ⟨data, hdata, h⟩ := bind_eq_ok h
  obtain ⟨server, hserver, h⟩ := bind_eq_ok h
  obtain ⟨filters, hfilters, h⟩ := bind_eq_ok h
  obtain ⟨command, hcommand, h⟩ := bind_eq_ok h
  cases h
  simp only [getattr_set] at hdata hserver hfilters hcommand
  constructor
  · exact ⟨made, more, hcache, hlog⟩
  all_goals simp only [getattr_set]
  · rfl
  · exact hdata
  · exact hserver
  · exact hfilters
  · exact hcommand
  · rfl
  · intro attr hattr
    simp only [derivedAttrs, List.mem_cons, List.not_mem_nil, or_false, not_or] at hattr
    obtain ⟨hids, hcerts, hcache, hnames, hwords, hstores⟩ := hattr
    rw [if_neg (Ne.symm hstores), if_neg (Ne.symm hwords), if_neg (Ne.symm hnames),
      if_neg (Ne.symm hcache), if_neg (Ne.symm hcerts), if_neg (Ne.symm hids)]

/-- The cache server is a host without a colon and a port. -/
theorem cacheServer_ok {value server : Value} (h : cacheServer value = .ok server) :
    server = .absent ∨ ∃ host port, 58 ∉ host ∧ server = .address host port := by
  unfold cacheServer at h
  cases value with
  | absent =>
    cases h
    exact Or.inl rfl
  | text text =>
    right
    dsimp only at h
    cases hcut : Lib.Splitting.cut [58] (if 58 ∈ text then text else text ++ ofString ":6379") with
    | none =>
      rw [hcut] at h
      cases h
    | some parts =>
      obtain ⟨host, port⟩ := parts
      rw [hcut] at h
      dsimp only at h
      cases hport : readInt port with
      | none =>
        rw [hport] at h
        cases h
      | some n =>
        rw [hport] at h
        cases h
        refine ⟨host, n, fun hcolon => ?_, rfl⟩
        -- a colon in the host would be an earlier place to cut
        obtain ⟨before, after, rfl⟩ := List.append_of_mem hcolon
        have hfirst := Lib.Splitting.cut_eq_some_iff.mp hcut
        have hearlier := hfirst.first before (after ++ [58] ++ port)
          (by rw [hfirst.joined]; simp only [List.append_assoc, List.cons_append, List.nil_append])
        simp only [List.length_append, List.length_cons] at hearlier
        omega
  | _ => cases h

/-- An override counts before the file, and of several the last one. -/
theorem override_ok {args : List Param} {kwargs : List (String × Value)} {attrs attrs' : Attrs}
    (h : override (ConfigParams.new args) attrs kwargs = .ok attrs') :
    (∀ entry ∈ kwargs, entry.1 ∈ (ConfigParams.new args).byAttr.keys) ∧
      ∀ attr, attrs'.get? attr = (valuesOf kwargs attr).getLast?.or (attrs.get? attr) := by
  induction kwargs generalizing attrs with
  | nil =>
    cases h
    exact ⟨fun _ hentry => absurd hentry List.not_mem_nil, fun attr => rfl⟩
  | cons entry rest ih =>
    rw [override, List.foldlM_cons] at h
    obtain ⟨next, hnext, h⟩ := bind_eq_ok h
    by_cases hmem : entry.1 ∈ (ConfigParams.new args).byAttr.keys
    · rw [if_pos hmem] at hnext
      cases hnext
      obtain ⟨hkeys, hget⟩ := ih h
      refine ⟨?_, fun attr => ?_⟩
      · intro other hother
        rcases List.mem_cons.mp hother with rfl | hother
        · exact hmem
        · exact hkeys other hother
      · have hcons : entry :: rest = [entry] ++ rest := rfl
        rw [hget, hcons, valuesOf_append, valuesOf_singleton, Dict.get?_set]
        by_cases hattr : entry.1 = attr
        · rw [if_pos hattr, if_pos hattr, List.getLast?_append]
          cases (valuesOf rest attr).getLast? <;> rfl
        · rw [if_neg hattr, if_neg hattr, List.nil_append]
    · rw [if_neg hmem] at hnext
      cases hnext

/-- The lines of the file that is looked at. -/
def linesOf (world : World) (file : Text) : List Text := ((world.file file).map fileLines).getD []

/-- A parameter before the derivation: what the last override says, or else the file. -/
def Param.raw (param : Param) (kwargs : List (String × Value)) (lines : List Text)
    (attr : String) : Value :=
  (valuesOf kwargs attr).getLast?.getD (param.value (param.valuesIn lines))

/-- The configuration that is loaded. -/
structure Loaded (world : World) (file : Text) (specified : Bool)
    (kwargs : List (String × Value)) (attrs : Attrs) : Prop where
  /-- A file that was given could be read. -/
  readable : specified = true → (world.file file).isSome
  /-- No line is wrong. -/
  lines : ∀ line ∈ linesOf world file, lineError (table world file) line = none
  /-- Every override has the name of an attribute. -/
  overrides : ∀ entry ∈ kwargs, ∃ param ∈ table world file, param.attr = some entry.1
  /-- The parameters, and what is derived from them. -/
  params : ∃ raw, Derived world raw attrs ∧ ∀ param ∈ table world file, ∀ attr,
    param.attr = some attr → getattr raw attr = param.raw kwargs (linesOf world file) attr
  /-- The cache server. -/
  cacheServer : getattr attrs "cache_server" = .absent ∨
    ∃ host port, 58 ∉ host ∧ getattr attrs "cache_server" = .address host port
  /-- Some stores are enabled. -/
  stores : (getattr attrs "retriever_stores").truthy = true

/-- Either the whole file is read, or its first line that is wrong raises its error; no line behind
that is looked at. -/
theorem readFile_cases (world : World) (file : Text) (specified : Bool) :
    let read := readFile (ConfigParams.new (table world file)) specified file (world.file file)
      (defaults (ConfigParams.new (table world file)))
    (∃ attrs, read = .ok attrs ∧ (specified = true → (world.file file).isSome) ∧
      (∀ line ∈ linesOf world file, lineError (table world file) line = none) ∧
      ReadSoFar (table world file) (linesOf world file) attrs) ∨
    read = .error (.unreadable file) ∧ specified = true ∧ world.file file = none ∨
    ∃ before line after raised, linesOf world file = before ++ line :: after ∧
      (∀ other ∈ before, lineError (table world file) other = none) ∧
      lineError (table world file) line = some raised ∧ read = .error raised := by
  have htable : Table (table world file) := table_params _ _
  have hdefaults := htable.readSoFar_defaults
  dsimp only
  cases hfile : world.file file with
  | none =>
    have hlines : linesOf world file = [] := by rw [linesOf, hfile]; rfl
    rw [hlines]
    cases specified with
    | true => exact Or.inr (Or.inl ⟨rfl, rfl, rfl⟩)
    | false => exact Or.inl ⟨_, rfl, nofun, fun _ hline => absurd hline List.not_mem_nil, hdefaults⟩
  | some content =>
    have hlines : linesOf world file = fileLines content := by rw [linesOf, hfile]; rfl
    rw [hlines]
    rcases Lib.Traversal.all_none_or_first (lineError (table world file)) (fileLines content) with
      hall | ⟨before, line, after, raised, hsplit, hbefore, herror⟩
    · obtain ⟨attrs, hok, hread⟩ := htable.readLines_ok hall hdefaults
      exact Or.inl ⟨attrs, hok, fun _ => rfl, hall, hread⟩
    · refine Or.inr (Or.inr ⟨before, line, after, raised, hsplit, hbefore, herror, ?_⟩)
      have hraised := htable.readLines_error after hbefore herror hdefaults
      rw [← hsplit] at hraised
      exact hraised

/-- A configuration that is loaded follows the precedence of overrides, file and defaults, and then
has its derived attributes. -/
theorem loaded_of_init {world : World} {path : Option Text} {file : Text}
    (hfile : locate world path = .ok file) {kwargs : List (String × Value)} {attrs : Attrs}
    (h : init world path kwargs = .ok attrs) : Loaded world file path.isSome kwargs attrs := by
  have htable : Table (table world file) := table_params _ _
  rw [init, hfile] at h
  obtain ⟨found, hfound, h⟩ := bind_eq_ok h
  cases hfound
  obtain ⟨read, hread, h⟩ := bind_eq_ok h
  obtain ⟨raw, hraw, h⟩ := bind_eq_ok h
  have hderived := derived_of_derive h
  obtain ⟨hkeys, hget⟩ := override_ok hraw
  rcases readFile_cases world file path.isSome with
    ⟨attrs', hok, hreadable, hlines, hsofar⟩ | ⟨herror, -⟩ | ⟨_, _, _, _, -, -, -, herror⟩
  · cases Except.ok.inj (hok.symm.trans hread)
    refine ⟨hreadable, hlines, fun entry hentry => ?_, ⟨raw, hderived, ?_⟩,
      cacheServer_ok hderived.cacheServer, ?_⟩
    · have hmem := (Dict.mem_keys_iff _ _).mp (hkeys entry hentry)
      rw [htable.get?_byAttr] at hmem
      obtain ⟨param, hparam⟩ := Option.isSome_iff_exists.mp hmem
      obtain ⟨hin, hattr⟩ := (find?_eq_some_iff htable.attrs).mp hparam
      exact ⟨param, hin, hattr⟩
    · intro param hparam attr hattr
      rw [getattr, hget, hsofar param hparam attr hattr, Param.raw]
      cases (valuesOf kwargs attr).getLast? <;> rfl
    · rw [hderived.stores, retrieverStores]
      by_cases htruthy : (getattr raw "retriever_stores").truthy = true
      · rw [if_pos htruthy]
        exact htruthy
      · rw [if_neg htruthy]
        rfl
  · rw [herror] at hread
    cases hread
  · rw [herror] at hread
    cases hread

/-- The first line that is wrong raises its error. -/
theorem init_error {world : World} {path : Option Text} {file : Text}
    (hfile : locate world path = .ok file) (kwargs : List (String × Value))
    {before after : List Text} {line : Text} {raised : Raised}
    (hlines : linesOf world file = before ++ line :: after)
    (hbefore : ∀ other ∈ before, lineError (table world file) other = none)
    (herror : lineError (table world file) line = some raised) :
    init world path kwargs = .error raised := by
  have htable : Table (table world file) := table_params _ _
  cases hcontent : world.file file with
  | none =>
    rw [linesOf, hcontent] at hlines
    exact absurd hlines.symm (by simp)
  | some content =>
    have hread := htable.readLines_error after hbefore herror htable.readSoFar_defaults
    rw [← hlines, linesOf, hcontent] at hread
    have hfailed : readFile (ConfigParams.new (table world file)) path.isSome file (some content)
        (defaults (ConfigParams.new (table world file))) = .error raised := hread
    rw [init, hfile]
    simp only [bind, Except.bind, hcontent, hfailed]

/-- Of every file, the first line that is wrong raises its error; a configuration that is loaded has
the overrides, the values of the file and the defaults, in this order, and what is derived from them;
and settings that are written are the ones that are read. -/
theorem config_loaded {world : World} {path : Option Text} {file : Text}
    (hfile : locate world path = .ok file) (kwargs : List (String × Value)) :
    (∀ before line after raised, linesOf world file = before ++ line :: after →
      (∀ other ∈ before, lineError (table world file) other = none) →
      lineError (table world file) line = some raised → init world path kwargs = .error raised) ∧
    (∀ attrs, init world path kwargs = .ok attrs → Loaded world file path.isSome kwargs attrs) ∧
    (∀ settings, (∀ setting ∈ settings, Writable setting) →
      world.file file = some (writeSettings settings) →
      (linesOf world file).filterMap entry = settings) := by
  refine ⟨fun _ _ _ _ => init_error hfile kwargs, fun _ => loaded_of_init hfile,
    fun settings hsettings hcontent => ?_⟩
  rw [linesOf, hcontent]
  exact entries_writeSettings hsettings

end Whole

/-! ## A file with four settings -/

/-- Two servers, and a cache server without a port. -/
def sampleSettings : List (Text × Text) :=
  [(ofString "THREADS", ofString "8"), (ofString "SERVERID", ofString "a"),
    (ofString "SERVERID", ofString "b"), (ofString "CACHE", ofString "redis")]

/-- The path of the file. -/
def samplePath : Text := ofString "/c/diamond_config"

/-- A host where every directory exists. -/
def sampleWorld : World where
  diamondConfig := none
  home := none
  processors := none
  file path := if path = samplePath then some (writeSettings sampleSettings) else none
  isDir _ := true
  mkdir _ := false
  hostnames := []

/-- A file with four settings is loaded: a number, a list, an address and a list that keeps its
order. -/
theorem config_loaded_four :
    ∃ attrs, init sampleWorld (some samplePath) [] = .ok attrs ∧
      getattr attrs "threads" = .number 8 ∧
      getattr attrs "serverids" = .texts [ofString "a", ofString "b"] ∧
      getattr attrs "cache_server" = .address (ofString "redis") 6379 ∧
      getattr attrs "retriever_stores" = .texts [ofString "diamond", ofString "proxy"] ∧
      Loaded sampleWorld samplePath true [] attrs := by
  have hvalues : (init sampleWorld (some samplePath) []).toOption.map (fun attrs =>
      (getattr attrs "threads", getattr attrs "serverids", getattr attrs "cache_server",
        getattr attrs "retriever_stores")) =
      some (.number 8, .texts [ofString "a", ofString "b"], .address (ofString "redis") 6379,
        .texts [ofString "diamond", ofString "proxy"]) := by decide +kernel
  obtain ⟨attrs, hattrs, heq⟩ := Option.map_eq_some_iff.mp hvalues
  have hinit : init sampleWorld (some samplePath) [] = .ok attrs := by
    cases hresult : init sampleWorld (some samplePath) [] with
    | error raised =>
      rw [hresult] at hattrs
      cases hattrs
    | ok own =>
      rw [hresult] at hattrs
      cases hattrs
      rfl
  simp only [Prod.mk.injEq] at heq
  obtain ⟨hthreads, hids, hserver, hstores⟩ := heq
  exact ⟨attrs, hinit, hthreads, hids, hserver, hstores,
    (@config_loaded sampleWorld (some samplePath) _ rfl []).2.1 attrs hinit⟩

end OpenDiamond.Config
