import OpenDiamond.FilterMessages
import OpenDiamond.FilterProtocol
import OpenDiamond.Lib.Floats

/-!
# How a filter starts

The server opens a connection by sending the protocol version, the name of the filter, its
arguments and its blob. `_run_loop` reads them, takes the class that the first argument names
when the program holds several, stores every argument under the name of its parameter and
reports `init-success`; `_lf_main` reads the same message into C strings. Whatever goes wrong
before that report ends the process, which the server takes as a failed filter.

`zipfile`, `PIL.Image` and `traceback` are arguments. So is `g_ascii_strtod`.
-/

namespace OpenDiamond.FilterStart

open Lib.Streams Lib.Framing Lib.OrderedDict Lib.Binary64 Lib.Traversal DiamondObject FilterProtocol
open FilterFraming

/-! ## The server -/

/-- What `connect` passes to `_FilterConnection`. -/
structure Config where
  /-- `name`. -/
  name : String
  /-- `args`. -/
  arguments : List String
  /-- `blob`. -/
  blob : Bytes

/-- The arguments of `send` in `_FilterConnection.__init__`. -/
def Config.values (config : Config) : List Value :=
  [.scalar (encodeText "1"), .scalar (encodeText config.name),
    .array (config.arguments.map encodeText), .scalar config.blob]

/-- The bytes that `_FilterConnection.__init__` sends. -/
def Config.bytes (config : Config) : Bytes := Server.send config.values

/-! ## The Python library -/

/-- How the reading of the first message fails. -/
inductive Unread where
  | pipe (stop : Stop)
  /-- `int(None)`. -/
  | typeError
  /-- `None.decode()`. -/
  | attributeError
  | unknownVersion (ver : ℤ)

/-- A reader of the first message. -/
abbrev InitReader := Reader UInt8 Unread

/-- A read of the connection. -/
def fromPipe {α : Type} (reader : FrameReader α) : InitReader α := fun stream =>
  match reader stream with
  | .ok result => .ok result
  | .error stop => .error (.pipe stop)

/-- `bytes.decode`. -/
def decode (data : Bytes) : Option String := String.fromUTF8? ⟨data.toArray⟩

/-- The version check of `_run_loop`. -/
def readVersion : InitReader Unit := do
  match ← fromPipe Filter.getItem with
  | none => throw .typeError
  | some item =>
    match Lib.Decimal.readInt item with
    | none => throw (.pipe .valueError)
    | some ver => if ver = 1 then return () else throw (.unknownVersion ver)

/-- The name of the filter. -/
def readName : InitReader String := do
  match ← fromPipe Filter.getItem with
  | none => throw .attributeError
  | some item =>
    match decode item with
    | none => throw (.pipe .unicodeDecodeError)
    | some name => return name

/-- The arguments, as text. -/
def readArgs : InitReader (List String) := do
  let args ← fromPipe Filter.getArray
  match args.mapM decode with
  | none => throw (.pipe .unicodeDecodeError)
  | some args => return args

/-- What `_run_loop` has read before it makes the filter. -/
structure Init where
  /-- `name`. -/
  name : String
  /-- `args`. -/
  args : List String
  /-- `blob`; none for a blank line. -/
  blob : Option Bytes

/-- The reads of `_run_loop`. -/
def readInit : InitReader Init := do
  readVersion
  let name ← readName
  let args ← readArgs
  let blob ← fromPipe Filter.getItem
  return ⟨name, args, blob⟩

/-- What ends the start of a filter. -/
inductive StartError where
  /-- `args.pop(0)` on no arguments. -/
  | indexError
  /-- `Filter class %s is not available`. -/
  | notAvailable (target : String)
  /-- `Incorrect argument list length. Expect %d. Received %s`. -/
  | argumentCount (expected : ℕ) (received : String)
  /-- `Argument must be true or false`. -/
  | notBoolean
  /-- `float` of a text that is no number. -/
  | notFloat (text : String)
  | badZipFile
  | badMember
  | badImage

/-- An attribute of a filter. -/
inductive Attr (ζ ι : Type) where
  | boolean (value : Bool)
  | text (value : String)
  | number (value : Float)
  | blob (data : Option Bytes)
  | zip (file : ζ)
  | examples (images : List ι)
  | session (name : String)

variable {ζ ι σ : Type}

/-- The truth value of an attribute. -/
def Attr.truthy : Attr ζ ι → Bool
  | .boolean value => value
  | .text value => value ≠ ""
  | .number value => !(value == 0)
  | .blob data => data.getD [] ≠ []
  | .zip _ => true
  | .examples images => !images.isEmpty
  | .session _ => true

/-- `BooleanParameter`, `StringParameter` and `NumberParameter`. -/
inductive Parameter where
  | boolean (name : String)
  | string (name : String)
  | number (name : String)

/-- `Parameter.__str__`. -/
def Parameter.str : Parameter → String
  | .boolean name => name
  | .string name => name
  | .number name => name

/-- `parse`. -/
def Parameter.parse : Parameter → String → Except StartError (Attr ζ ι)
  | .boolean _, text =>
    if text = "true" then .ok (.boolean true)
    else if text = "false" then .ok (.boolean false)
    else .error .notBoolean
  | .string _, text => .ok (.text text)
  | .number _, text =>
    match Lib.Floats.readFloat (Lib.Unicode.ofString text) with
    | some value => .ok (.number value)
    | none => .error (.notFloat text)

/-- The attributes of an instance. -/
abbrev Instance (ζ ι : Type) := Dict String (Attr ζ ι)

/-- `zipfile`, `PIL.Image` and `traceback`. -/
structure Library (ζ ι : Type) where
  /-- `ZipFile(BytesIO(blob), 'r')`. -/
  zipFile : Bytes → Option ζ
  /-- `namelist`. -/
  namelist : ζ → List String
  /-- `read` of a member. -/
  read : ζ → String → Option Bytes
  /-- `Image.open`. -/
  image : Bytes → Option ι
  /-- `traceback.format_exc`. -/
  traceback : StartError → String

/-- The start of a filter after `Filter.__init__`: what the constructor of the class says to
the server, up to its end or to an exception with its traceback. -/
inductive Startup (σ : Type) where
  | emit (cmd : Command) (next : Reply → Startup σ)
  | ready (state : σ)
  | raise (trace : String)

/-- A class of filters. -/
structure FilterClass (ζ ι σ : Type) where
  /-- `__name__`. -/
  name : String
  /-- `params`. -/
  params : List Parameter
  /-- `blob_is_zip`. -/
  blobIsZip : Bool
  /-- `load_examples`. -/
  loadExamples : Bool
  /-- The constructor of the class once `Filter.__init__` has returned. -/
  init : Instance ζ ι → Startup σ

/-- The loop over the parameters in `Filter.__init__`. -/
def setParams : List (Parameter × String) → Instance ζ ι → Except StartError (Instance ζ ι)
  | [], self => .ok self
  | (param, arg) :: rest, self => do
    let value ← param.parse arg
    setParams rest (self.set param.str value)

/-- A flag of the class, which an argument of that name hides. -/
def flag (self : Instance ζ ι) (name : String) (default : Bool) : Bool :=
  ((self.get? name).map Attr.truthy).getD default

/-- `ZipFile(BytesIO(blob), 'r')`, on the blob of the first message. -/
def openZip (lib : Library ζ ι) (blob : Option Bytes) : Except StartError ζ :=
  match lib.zipFile (blob.getD []) with
  | some file => .ok file
  | none => .error .badZipFile

/-- The paths of the example images. -/
def isExample (path : String) : Bool := path.startsWith "examples/" && !path.endsWith "/"

/-- The loop over the example images. -/
def readExamples (lib : Library ζ ι) (file : ζ) : List String → Except StartError (List ι)
  | [] => .ok []
  | path :: rest => do
    if isExample path then
      let data ← (match lib.read file path with
        | some data => .ok data
        | none => .error .badMember : Except StartError Bytes)
      let image ← (match lib.image data with
        | some image => .ok image
        | none => .error .badImage : Except StartError ι)
      let images ← readExamples lib file rest
      return image :: images
    else readExamples lib file rest

/-- `self.blob`. -/
def setBlob (lib : Library ζ ι) (class_ : FilterClass ζ ι σ) (blob : Option Bytes)
    (self : Instance ζ ι) : Except StartError (Instance ζ ι) :=
  if flag self "blob_is_zip" class_.blobIsZip then do
    let file ← openZip lib blob
    return self.set "blob" (.zip file)
  else .ok (self.set "blob" (.blob blob))

/-- `self.examples`. -/
def setExamples (lib : Library ζ ι) (class_ : FilterClass ζ ι σ) (blob : Option Bytes)
    (self : Instance ζ ι) : Except StartError (Instance ζ ι) :=
  if flag self "load_examples" class_.loadExamples then do
    let file ← openZip lib blob
    let images ← readExamples lib file (lib.namelist file)
    return self.set "examples" (.examples images)
  else .ok self

/-- `Filter.__init__`. -/
def construct (lib : Library ζ ι) (class_ : FilterClass ζ ι σ) (args : List String)
    (blob : Option Bytes) (session : String) : Except StartError (Instance ζ ι) :=
  if args.length ≠ class_.params.length then
    .error (.argumentCount class_.params.length (",".intercalate args))
  else do
    let self ← setParams (class_.params.zip args) Dict.empty
    let self ← setBlob lib class_ blob self
    let self ← setExamples lib class_ blob self
    return self.set "session" (.session session)

/-- A filter program: the class that `run` is called on, the classes given to `run`, and
`__call__` of what was made. -/
structure Script (ζ ι σ : Type) where
  /-- `cls`. -/
  cls : FilterClass ζ ι σ
  /-- `classes`. -/
  classes : Option (List (FilterClass ζ ι σ))
  /-- `filter(obj)`. -/
  call : σ → Proc σ

/-- `filter_class` and the arguments that are left for it. -/
def Script.select (script : Script ζ ι σ) (args : List String) :
    Except StartError (FilterClass ζ ι σ × List String) :=
  match script.classes with
  | none => .ok (script.cls, args)
  | some classes =>
    match args with
    | [] => .error .indexError
    | target :: args =>
      match classes.find? fun class_ => class_.name = target with
      | some class_ => .ok (class_, args)
      | none => .error (.notAvailable target)

/-- The attributes of the filter that `_run_loop` makes, with its class. -/
def Script.make (lib : Library ζ ι) (script : Script ζ ι σ) (init : Init) :
    Except StartError (FilterClass ζ ι σ × Instance ζ ι) := do
  let (class_, args) ← script.select init.args
  let self ← construct lib class_ args init.blob init.name
  return (class_, self)

/-- `session.log('critical', traceback.format_exc())`. -/
def critical (name trace : String) : Command := .log (some 1) (some (name ++ " : " ++ trace))

/-- A start that ends in `init-success` and the first object, or in a failure. -/
def Startup.proc (failed : String → Proc σ) (call : σ → Proc σ) : Startup σ → Proc σ
  | .emit cmd next => .emit cmd fun reply => (next reply).proc failed call
  | .ready state => .emit .initSuccess fun _ => call state
  | .raise trace => failed trace

/-- The `except` clause of the start: the traceback goes to the server and the process ends. -/
def failed (name trace : String) : Proc σ := .emit (critical name trace) fun _ => .exit

/-- `_run_loop` up to its first result. -/
def Script.start (lib : Library ζ ι) (script : Script ζ ι σ) (bytes : Bytes) : Proc σ :=
  match readInit bytes with
  | .error _ => .exit
  | .ok (init, _) =>
    let startup : Startup σ :=
      match script.make lib init with
      | .error error => .raise (lib.traceback error)
      | .ok (class_, self) => class_.init self
    startup.proc (failed init.name) script.call

/-- `_run_loop`, as the program that a worker talks to. -/
def Script.program (lib : Library ζ ι) (script : Script ζ ι σ) (bytes : Bytes) : Program σ :=
  ⟨script.start lib bytes, script.call⟩

/-! ## The C library -/

/-- What `_lf_main` passes to `lf_run_filter`. -/
structure CInit where
  /-- `filter_name`; none for the null pointer. -/
  name : Option Bytes
  /-- `args`. -/
  args : List Bytes
  /-- `bloblen`. -/
  bloblen : ℤ
  /-- `blob`. -/
  blob : Bytes

/-- `lf_get_double`, with `g_ascii_strtod`. -/
def lfGetDouble (strtod : Bytes → Double) : FrameReader Double := do
  match ← lfGetString with
  | none => throw .exitFailure
  | some text => return strtod text

/-- The version check of `_lf_main`. -/
def lfReadVersion (strtod : Bytes → Double) : FrameReader Unit := do
  let version ← lfGetDouble strtod
  if version = .one then return () else throw .exitFailure

/-- The reads of `_lf_main`. -/
def lfReadInit (strtod : Bytes → Double) : FrameReader CInit := do
  lfReadVersion strtod
  let name ← lfGetString
  let args ← lfGetStrings
  let blob ← lfGetBinary
  return ⟨name, args, blob.1, blob.2⟩

/-- `lf_main`: `init` on what was read, then the objects. A failed `init` is not reported. -/
def lfProgram (strtod : Bytes → Double) (init : CInit → Startup σ) (eval : σ → Proc σ)
    (bytes : Bytes) : Program σ where
  start :=
    match lfReadInit strtod bytes with
    | .error _ => .exit
    | .ok (config, _) => (init config).proc (fun _ => .exit) eval
  body := eval

/-! ## What is read -/

/-- What is read from a stream is read in the same way from the pipe. -/
theorem reads_fromPipe {α : Type} {reader : FrameReader α} {cells : Bytes} {value : α}
    (h : Reads reader cells value) : Reads (fromPipe reader) cells value := by
  intro rest
  have hread : reader (cells ++ rest) = .ok (value, rest) := h rest
  rw [StateT.run, fromPipe, hread]

/-- Every text has an encoding that is decoded back to it. -/
theorem decode_encodeText (text : String) : decode (encodeText text) = some text :=
  FilterMessages.fromUTF8?_encodeText text

/-- A list of encoded texts is decoded text by text, so that the arguments of a filter come back as
they were given. -/
theorem mapM_decode (texts : List String) : (texts.map encodeText).mapM decode = some texts := by
  induction texts with
  | nil => rfl
  | cons text rest ih =>
    rw [List.map_cons, List.mapM_cons, decode_encodeText, ih]
    rfl

/-- The library reads an item of the configuration as it was sent. -/
theorem reads_item (data : Bytes) : Reads (fromPipe Filter.getItem) (sendValue data) (some data) :=
  reads_fromPipe (reads_sendValue readsSizes_filterSize data)

/-- The version is the one that `_run_loop` expects. -/
theorem reads_readVersion : Reads readVersion (sendValue (encodeText "1")) () :=
  (reads_item (encodeText "1")).bind_nil (Reads.pure ())

/-- The name of the filter is read back. -/
theorem reads_readName (name : String) : Reads readName (sendValue (encodeText name)) name := by
  refine (reads_item (encodeText name)).bind_nil ?_
  simp only [decode_encodeText]
  exact Reads.pure name

/-- An array is read element by element, each as its reader understands it. -/
theorem reads_array {item : FrameReader (Option Bytes)} {view : Bytes → Bytes}
    {elements : List Bytes} (hblank : Reads item [newline] none)
    (h : ∀ data ∈ elements, Reads item (sendValue data) (some (view data))) :
    Reads (untilNone Stop.endless item) (elements.flatMap sendValue ++ [newline])
      (elements.map view) := by
  induction elements with
  | nil => exact hblank.untilNone_nil
  | cons data rest ih =>
    have hrest := ih fun other hother => h other (List.mem_cons_of_mem data hother)
    have hfirst := h data List.mem_cons_self
    rw [List.flatMap_cons, List.append_assoc]
    exact hfirst.untilNone_cons (sendValue_ne_nil data) hrest

/-- Its arguments are read back up to the blank line behind them, with those that are empty. -/
theorem reads_readArgs (args : List String) :
    Reads readArgs ((args.map encodeText).flatMap sendValue ++ [newline]) args := by
  have harray : Reads Filter.getArray ((args.map encodeText).flatMap sendValue ++ [newline])
      ((args.map encodeText).map id) :=
    reads_array (reads_blank readsSizes_filterSize) fun data _ =>
      reads_sendValue readsSizes_filterSize data
  rw [List.map_id] at harray
  refine (reads_fromPipe harray).bind_nil ?_
  rw [mapM_decode]
  exact Reads.pure args

/-- The first message, value by value. -/
theorem Config.bytes_eq (config : Config) :
    config.bytes = sendValue (encodeText "1") ++ (sendValue (encodeText config.name) ++
      (((config.arguments.map encodeText).flatMap sendValue ++ [newline]) ++
        sendValue config.blob)) := by
  simp [Config.bytes, Config.values, Server.send, Value.bytes]

/-- What the first message is to the Python library. -/
def Config.init (config : Config) : Init := ⟨config.name, config.arguments, some config.blob⟩

/-- The Python library reads the configuration, and nothing behind it. -/
theorem reads_readInit (config : Config) : Reads readInit config.bytes config.init := by
  rw [config.bytes_eq]
  refine reads_readVersion.bind ((reads_readName config.name).bind
    ((reads_readArgs config.arguments).bind ?_))
  have hblob := (reads_item config.blob).map fun blob =>
    (⟨config.name, config.arguments, blob⟩ : Init)
  rwa [map_eq_pure_bind] at hblob

/-- A C string is what stands before the first NUL. -/
theorem reads_lfGetString_cString {data : Bytes} (hlen : data.length < intMax) :
    Reads lfGetString (sendValue data) (some (cString data)) := by
  refine (reads_lfGetSize hlen.le).bind ?_
  have hsize : ¬ (data.length : ℤ) = -1 := by omega
  have hmax : ¬ (data.length : ℤ) = intMax := by omega
  have hpos : ¬ (data.length : ℤ) < 0 := by omega
  rw [getCString, if_neg hsize, if_neg hmax, if_neg hpos, Int.toNat_natCast]
  refine (reads_take Stop.exitSuccess data).bind ?_
  exact (reads_upTo [newline]).bind (Reads.pure (some (cString data)))

/-- Strings of the configuration that fit a C buffer, and a blob that fits an `int`. -/
structure Config.Fits (config : Config) : Prop where
  /-- The name. -/
  name : (encodeText config.name).length < intMax
  /-- Each argument. -/
  arguments : ∀ arg ∈ config.arguments, (encodeText arg).length < intMax
  /-- The blob. -/
  blob : config.blob.length ≤ intMax

/-- What the first message is to the C library. -/
def Config.cInit (config : Config) : CInit where
  name := some (cString (encodeText config.name))
  args := config.arguments.map fun arg => cString (encodeText arg)
  bloblen := config.blob.length
  blob := config.blob

section CLibrary

variable {strtod : Bytes → Double} (hone : strtod (encodeText "1") = .one)

include hone in
/-- The C library reads the version and finds it to be its own. -/
theorem reads_lfReadVersion : Reads (lfReadVersion strtod) (sendValue (encodeText "1")) () := by
  have htext : Reads lfGetString (sendValue (encodeText "1")) (some (encodeText "1")) :=
    reads_lfGetString (by decide) (by decide)
  have hdouble : Reads (lfGetDouble strtod) (sendValue (encodeText "1")) .one := by
    refine htext.bind_nil ?_
    rw [← hone]
    exact Reads.pure _
  exact hdouble.bind_nil (Reads.pure ())

include hone in
/-- The C library reads the configuration up to the NULs in it, and nothing behind it. -/
theorem reads_lfReadInit {config : Config} (h : config.Fits) :
    Reads (lfReadInit strtod) config.bytes config.cInit := by
  have hargs : Reads lfGetStrings
      ((config.arguments.map encodeText).flatMap sendValue ++ [newline]) config.cInit.args := by
    have hread : Reads lfGetStrings
        ((config.arguments.map encodeText).flatMap sendValue ++ [newline])
        ((config.arguments.map encodeText).map cString) := by
      refine reads_array reads_lfGetString_blank fun data hdata => ?_
      obtain ⟨arg, harg, rfl⟩ := List.mem_map.mp hdata
      exact reads_lfGetString_cString (h.arguments arg harg)
    rwa [List.map_map] at hread
  rw [config.bytes_eq]
  refine (reads_lfReadVersion hone).bind ((reads_lfGetString_cString h.name).bind
    (hargs.bind ?_))
  exact (reads_lfGetBinary h.blob).bind_nil (Reads.pure config.cInit)

end CLibrary

/-! ## What is made of it -/

/-- The loop over the parameters parses the arguments and then assigns them. -/
theorem setParams_eq (pairs : List (Parameter × String)) (self : Instance ζ ι) :
    setParams pairs self = (do
      let values ← pairs.mapM fun pair => pair.1.parse pair.2
      return self.setAll ((pairs.map fun pair => pair.1.str).zip values)) := by
  induction pairs generalizing self with
  | nil => rfl
  | cons pair rest ih =>
    rw [setParams, List.mapM_cons]
    cases hparse : (pair.1.parse pair.2 : Except StartError (Attr ζ ι)) with
    | error error => rfl
    | ok value =>
      simp only [bind, Except.bind, pure, Except.pure] at ih ⊢
      rw [ih]
      cases rest.mapM fun pair => (pair.1.parse pair.2 : Except StartError (Attr ζ ι)) <;> rfl

section Construct

variable {lib : Library ζ ι} {class_ : FilterClass ζ ι σ} {args : List String}
  {blob : Option Bytes} {self self' : Instance ζ ι} {name : String}

/-- The blob is the only attribute that is set. -/
theorem get?_setBlob (h : setBlob lib class_ blob self = .ok self') {key : String}
    (hkey : key ≠ "blob") : self'.get? key = self.get? key := by
  unfold setBlob at h
  split at h
  · obtain ⟨file, _, h⟩ := bind_eq_ok h
    cases h
    exact self.get?_set_of_ne _ hkey.symm
  · cases h
    exact self.get?_set_of_ne _ hkey.symm

/-- The examples are the only attribute that is set. -/
theorem get?_setExamples (h : setExamples lib class_ blob self = .ok self') {key : String}
    (hkey : key ≠ "examples") : self'.get? key = self.get? key := by
  unfold setExamples at h
  split at h
  · obtain ⟨file, _, h⟩ := bind_eq_ok h
    obtain ⟨images, _, h⟩ := bind_eq_ok h
    cases h
    exact self.get?_set_of_ne _ hkey.symm
  · cases h
    rfl

/-- The steps of a constructor that returned. -/
theorem construct_ok (h : construct lib class_ args blob name = .ok self) :
    args.length = class_.params.length ∧ ∃ values made withBlob,
      (class_.params.zip args).mapM (fun pair => pair.1.parse pair.2) = .ok values ∧
      made = Dict.empty.setAll (((class_.params.zip args).map fun pair => pair.1.str).zip values) ∧
      setBlob lib class_ blob made = .ok withBlob ∧
      ∃ finished, setExamples lib class_ blob withBlob = .ok finished ∧
        self = finished.set "session" (.session name) := by
  unfold construct at h
  split at h
  · cases h
  · next hlen =>
    obtain ⟨made, hmade, h⟩ := bind_eq_ok h
    obtain ⟨withBlob, hblob, h⟩ := bind_eq_ok h
    obtain ⟨finished, hexamples, h⟩ := bind_eq_ok h
    rw [setParams_eq] at hmade
    obtain ⟨values, hvalues, hmade⟩ := bind_eq_ok hmade
    have hmade := Except.ok.inj hmade
    have h := Except.ok.inj h
    exact ⟨not_not.mp hlen, values, made, withBlob, hvalues, hmade.symm, hblob, finished,
      hexamples, h.symm⟩

/-- Names that the constructor uses itself. -/
def reserved : List String := ["blob", "examples", "session", "blob_is_zip", "load_examples"]

/-- The parameters have names of their own. -/
structure FilterClass.Named (class_ : FilterClass ζ ι σ) : Prop where
  /-- No name twice. -/
  distinct : (class_.params.map Parameter.str).Nodup
  /-- No name of the constructor. -/
  free : ∀ param ∈ class_.params, param.str ∉ reserved

/-- The names of the parameters that got an argument. -/
theorem names_zip (class_ : FilterClass ζ ι σ) (hlen : args.length = class_.params.length) :
    (class_.params.zip args).map (fun pair => pair.1.str) = class_.params.map Parameter.str := by
  have hfst : (class_.params.zip args).map Prod.fst = class_.params := List.map_fst_zip hlen.ge
  calc (class_.params.zip args).map (fun pair => pair.1.str)
      = ((class_.params.zip args).map Prod.fst).map Parameter.str := by rw [List.map_map]; rfl
    _ = class_.params.map Parameter.str := by rw [hfst]

/-- An attribute that is no parameter is missing after the loop over the parameters. -/
theorem get?_setAll_of_free (hnamed : class_.Named) (hlen : args.length = class_.params.length)
    (values : List (Attr ζ ι)) {key : String} (hkey : key ∈ reserved) :
    (Dict.empty.setAll (((class_.params.zip args).map fun pair => pair.1.str).zip
      values)).get? key = none := by
  rw [Option.eq_none_iff_forall_not_mem]
  intro value hvalue
  rcases Dict.mem_of_get?_setAll hvalue with hmem | hnone
  · have hname := List.of_mem_zip hmem |>.1
    rw [names_zip class_ hlen] at hname
    obtain ⟨param, hparam, rfl⟩ := List.mem_map.mp hname
    exact hnamed.free param hparam hkey
  · cases hnone

/-- A flag that the class does not set has its default. -/
theorem flag_of_none {key : String} (h : self.get? key = none) (default : Bool) :
    flag self key default = default := by
  rw [flag, h]
  rfl

/-- The class takes so many arguments, and each of them is readable. -/
def Parses (class_ : FilterClass ζ ι σ) (args : List String) : Prop :=
  args.length = class_.params.length ∧
    ∀ pair ∈ class_.params.zip args, ∃ value : Attr ζ ι, pair.1.parse pair.2 = .ok value

/-- An example image that is there and is an image. -/
def Shown (lib : Library ζ ι) (file : ζ) (path : String) : Prop :=
  ∃ data image, lib.read file path = some data ∧ lib.image data = some image

/-- The blob is what the class takes it for. -/
def Opens (lib : Library ζ ι) (class_ : FilterClass ζ ι σ) (blob : Option Bytes) : Prop :=
  (class_.blobIsZip = true → ∃ file, lib.zipFile (blob.getD []) = some file) ∧
    (class_.loadExamples = true → ∃ file, lib.zipFile (blob.getD []) = some file ∧
      ∀ path ∈ lib.namelist file, isExample path = true → Shown lib file path)

/-- A blob argument is opened exactly when it is an archive; the absent one is read as empty
data. -/
theorem openZip_eq_ok_iff {file : ζ} :
    openZip lib blob = .ok file ↔ lib.zipFile (blob.getD []) = some file := by
  unfold openZip
  cases lib.zipFile (blob.getD []) <;> simp

/-- The examples are read when every one of them can be. -/
theorem exists_readExamples_iff (lib : Library ζ ι) (file : ζ) (paths : List String) :
    (∃ images, readExamples lib file paths = .ok images) ↔
      ∀ path ∈ paths, isExample path = true → Shown lib file path := by
  induction paths with
  | nil => exact ⟨fun _ path hpath => absurd hpath List.not_mem_nil, fun _ => ⟨[], rfl⟩⟩
  | cons path rest ih =>
    rw [List.forall_mem_cons, ← ih, readExamples]
    by_cases hpath : isExample path = true
    · rw [if_pos hpath]
      refine ⟨fun ⟨images, h⟩ => ?_, fun ⟨hshown, images, himages⟩ => ?_⟩
      · obtain ⟨data, hdata, h⟩ := bind_eq_ok h
        obtain ⟨image, himage, h⟩ := bind_eq_ok h
        obtain ⟨others, hothers, h⟩ := bind_eq_ok h
        refine ⟨fun _ => ⟨data, image, ?_, ?_⟩, others, hothers⟩
        · revert hdata
          cases lib.read file path <;> simp
        · revert himage
          cases lib.image data <;> simp
      · obtain ⟨data, image, hdata, himage⟩ := hshown hpath
        refine ⟨image :: images, ?_⟩
        rw [hdata]
        simp only [bind, Except.bind, himage, himages]
        rfl
    · rw [if_neg hpath]
      exact ⟨fun h => ⟨fun hexample => absurd hexample hpath, h⟩, fun h => h.2⟩

/-- What the constructor leaves for the filter to find. -/
structure Reached (lib : Library ζ ι) (class_ : FilterClass ζ ι σ) (args : List String)
    (blob : Option Bytes) (name : String) (self : Instance ζ ι) : Prop where
  /-- Every argument, parsed, under the name of its parameter. -/
  parameters : ∀ pair ∈ class_.params.zip args, ∃ value, pair.1.parse pair.2 = .ok value ∧
    self.get? pair.1.str = some value
  /-- The blob as it was sent. -/
  plain : class_.blobIsZip = false → self.get? "blob" = some (.blob blob)
  /-- The blob as an archive. -/
  archive : class_.blobIsZip = true → ∃ file, lib.zipFile (blob.getD []) = some file ∧
    self.get? "blob" = some (.zip file)
  /-- The session, under the name of the filter. -/
  session : self.get? "session" = some (.session name)

/-- A constructor that returned had arguments and a blob it can use, and has stored them. -/
theorem reached_of_construct (hnamed : class_.Named)
    (h : construct lib class_ args blob name = .ok self) :
    Parses class_ args ∧ Opens lib class_ blob ∧ Reached lib class_ args blob name self := by
  obtain ⟨hlen, values, made, withBlob, hvalues, hmade, hblob, finished, hexamples, rfl⟩ :=
    construct_ok h
  have hpairs := forall₂_of_mapM_ok hvalues
  have hnames := names_zip class_ hlen
  have hfree : ∀ key ∈ reserved, made.get? key = none := by
    intro key hkey
    rw [hmade]
    exact get?_setAll_of_free hnamed hlen values hkey
  have hzip : flag made "blob_is_zip" class_.blobIsZip = class_.blobIsZip :=
    flag_of_none (hfree _ (by decide)) _
  have hload : flag withBlob "load_examples" class_.loadExamples = class_.loadExamples :=
    flag_of_none ((get?_setBlob hblob (by decide)).trans (hfree _ (by decide))) _
  have hkept : ∀ key, key ≠ "session" → key ≠ "examples" → key ≠ "blob" →
      (finished.set "session" (.session name)).get? key = made.get? key := by
    intro key hsession hex hb
    rw [finished.get?_set_of_ne _ hsession.symm, get?_setExamples hexamples hex,
      get?_setBlob hblob hb]
  have hblobKept : (finished.set "session" (.session name)).get? "blob" = withBlob.get? "blob" := by
    rw [finished.get?_set_of_ne _ (by decide), get?_setExamples hexamples (by decide)]
  have hset : ∀ pair ∈ class_.params.zip args, ∃ value, pair.1.parse pair.2 = .ok value ∧
      made.get? pair.1.str = some value := by
    intro pair hpair
    obtain ⟨value, hparse, hmem⟩ :=
      exists_mem_zip_of_forall₂ hpairs (fun pair => pair.1.str) hpair
    have hnodup : ((((class_.params.zip args).map fun pair => pair.1.str).zip values).map
        Prod.fst).Nodup := by
      rw [List.map_fst_zip (by rw [List.length_map, hpairs.length_eq]), hnames]
      exact hnamed.distinct
    refine ⟨value, hparse, ?_⟩
    rw [hmade, Dict.get?_setAll hnodup, (find_eq_some_iff hnodup _ _).mpr hmem]
    rfl
  refine ⟨⟨hlen, fun pair hpair => ?_⟩, ⟨fun hz => ?_, fun hl => ?_⟩, ⟨fun pair hpair => ?_,
    fun hz => ?_, fun hz => ?_, by rw [Dict.get?_set, if_pos rfl]⟩⟩
  · obtain ⟨value, hparse, _⟩ := hset pair hpair
    exact ⟨value, hparse⟩
  · unfold setBlob at hblob
    rw [hzip, if_pos hz] at hblob
    obtain ⟨file, hfile, _⟩ := bind_eq_ok hblob
    exact ⟨file, openZip_eq_ok_iff.mp hfile⟩
  · unfold setExamples at hexamples
    rw [hload, if_pos hl] at hexamples
    obtain ⟨file, hfile, hread⟩ := bind_eq_ok hexamples
    obtain ⟨images, himages, _⟩ := bind_eq_ok hread
    exact ⟨file, openZip_eq_ok_iff.mp hfile, (exists_readExamples_iff lib file _).mp ⟨_, himages⟩⟩
  · obtain ⟨value, hparse, hget⟩ := hset pair hpair
    have hmem := hnamed.free pair.1 (List.of_mem_zip hpair).1
    simp only [reserved, List.mem_cons, List.not_mem_nil, or_false, not_or] at hmem
    exact ⟨value, hparse, (hkept _ hmem.2.2.1 hmem.2.1 hmem.1).trans hget⟩
  · unfold setBlob at hblob
    rw [hzip, hz, if_neg (by decide)] at hblob
    cases hblob
    rw [hblobKept, Dict.get?_set, if_pos rfl]
  · unfold setBlob at hblob
    rw [hzip, if_pos hz] at hblob
    obtain ⟨file, hfile, hblob⟩ := bind_eq_ok hblob
    cases hblob
    refine ⟨file, openZip_eq_ok_iff.mp hfile, ?_⟩
    rw [hblobKept, Dict.get?_set, if_pos rfl]

/-- A constructor that raised had arguments or a blob it cannot use. -/
theorem refused_of_construct (hnamed : class_.Named) {error : StartError}
    (h : construct lib class_ args blob name = .error error) :
    ¬ (Parses class_ args ∧ Opens lib class_ blob) := by
  rintro ⟨⟨hlen, hparses⟩, hzip, hexamples⟩
  rw [construct, if_neg (not_not.mpr hlen)] at h
  rcases bind_eq_error h with hparams | ⟨made, hmade, h⟩
  · rw [setParams_eq] at hparams
    rcases bind_eq_error hparams with hvalues | ⟨values, _, hreturn⟩
    · obtain ⟨pair, hpair, hraised⟩ := exists_of_mapM_error hvalues
      obtain ⟨value, hparse⟩ := hparses pair hpair
      rw [hparse] at hraised
      cases hraised
    · cases hreturn
  rw [setParams_eq] at hmade
  obtain ⟨values, _, hmade⟩ := bind_eq_ok hmade
  have hfree : ∀ key ∈ reserved, made.get? key = none := by
    intro key hkey
    rw [← Except.ok.inj hmade]
    exact get?_setAll_of_free hnamed hlen values hkey
  have hopen : ∀ file, lib.zipFile (blob.getD []) = some file →
      ∀ raised, openZip lib blob ≠ .error raised := by
    intro file hfile raised hraised
    rw [openZip_eq_ok_iff.mpr hfile] at hraised
    cases hraised
  rcases bind_eq_error h with hblob | ⟨withBlob, hblob, h⟩
  · unfold setBlob at hblob
    split at hblob
    · next hflag =>
      rw [flag_of_none (hfree _ (by decide))] at hflag
      obtain ⟨file, hfile⟩ := hzip hflag
      rcases bind_eq_error hblob with hraised | ⟨_, _, hreturn⟩
      · exact hopen file hfile _ hraised
      · cases hreturn
    · cases hblob
  rcases bind_eq_error h with hraised | ⟨finished, _, hreturn⟩
  · unfold setExamples at hraised
    split at hraised
    · next hflag =>
      have hnone := (get?_setBlob hblob (by decide)).trans (hfree "load_examples" (by decide))
      rw [flag_of_none hnone] at hflag
      obtain ⟨file, hfile, hshown⟩ := hexamples hflag
      obtain ⟨images, himages⟩ := (exists_readExamples_iff lib file _).mpr hshown
      rw [openZip_eq_ok_iff.mpr hfile] at hraised
      rcases bind_eq_error hraised with hopened | ⟨other, hother, hraised⟩
      · cases hopened
      · cases hother
        rcases bind_eq_error hraised with hread | ⟨_, _, hreturn⟩
        · rw [himages] at hread
          cases hread
        · cases hreturn
    · cases hraised
  · cases hreturn

end Construct

/-! ## What the worker sees -/

section Worker

variable {m : Murmur} {ε : Type} (svc : Services ε)

/-- The commands with which the worker leaves its loop without an exception: the result of an
object, and the size hint, whose branch ends with `break`. -/
def Command.Ends : Command → Prop
  | .result score => score.isSome
  | .hintLargeAttribute size => size.isSome
  | _ => False

/-- A start that says nothing with which the worker leaves its loop. -/
def Startup.Quiet : Startup σ → Prop
  | .emit cmd next => ¬ Command.Ends cmd ∧ ∀ reply, (next reply).Quiet
  | .ready _ => True
  | .raise _ => True

/-- No other command makes the worker leave its loop. -/
theorem ends_of_handle {st st' : LoopState m ε} {cmd : Command}
    (h : handle svc st cmd = .leave st') : Command.Ends cmd := by
  cases cmd with
  | result score =>
    cases score with
    | none => cases h
    | some score => exact rfl
  | hintLargeAttribute size =>
    cases size with
    | none => cases h
    | some size => exact rfl
  | _ =>
    unfold handle at h
    repeat' first | cases h | split at h
    all_goals contradiction

/-- No result comes out of a round on a filter that has not reported `init-success`, unless it
has said that the object is done. -/
theorem initSuccess_mem_consumed {startup : Startup σ} (h : startup.Quiet)
    {fails : String → Proc σ} {call : σ → Proc σ}
    (hfails : ∀ trace (st : LoopState m ε),
      ∃ failure, (commandLoop svc (fails trace) st).ending = .raised failure)
    (st : LoopState m ε) :
    (∃ failure, (commandLoop svc (startup.proc fails call) st).ending = .raised failure) ∨
      .initSuccess ∈ (commandLoop svc (startup.proc fails call) st).consumed := by
  induction startup generalizing st with
  | emit cmd next ih =>
    obtain ⟨hstays, hnext⟩ := h
    rw [Startup.proc, commandLoop]
    cases hhandle : handle svc st cmd with
    | reply reply st' =>
      rcases ih reply (hnext reply) st' with hraised | hmem
      · exact Or.inl hraised
      · exact Or.inr (List.mem_cons_of_mem cmd hmem)
    | leave st' => exact absurd (ends_of_handle svc hhandle) hstays
    | raise failure => exact Or.inl ⟨failure, rfl⟩
  | ready state => exact Or.inr List.mem_cons_self
  | raise trace => exact Or.inl (hfails trace st)

/-- A round that raised has no result. -/
theorem outcome_of_raised {program : Program σ} {slow : Bool} {obj : Object m} {env : ε}
    {failure : Failure}
    (h : (commandLoop svc program.start ⟨obj, .new, env, false⟩).ending = .raised failure) :
    (evaluate svc program none slow obj env).outcome = .error failure := by
  rw [evaluate, concluded, Option.getD_none]
  split
  · next hfinished => exact absurd (h.symm.trans hfinished) (by simp)
  · next hbroken => exact absurd (h.symm.trans hbroken) (by simp)
  · next hraised =>
    have heq := h.symm.trans hraised
    cases heq
    rfl

/-- A worker takes a result from a new filter that is quiet only after `init-success`. -/
theorem initSuccess_of_ok {startup : Startup σ} (h : startup.Quiet) {fails : String → Proc σ}
    {call : σ → Proc σ}
    (hfails : ∀ trace (st : LoopState m ε),
      ∃ failure, (commandLoop svc (fails trace) st).ending = .raised failure)
    (slow : Bool) (obj : Object m) (env : ε) {result : FilterResult}
    (hok : (evaluate svc ⟨startup.proc fails call, call⟩ none slow obj env).outcome = .ok result) :
    .initSuccess ∈ (evaluate svc ⟨startup.proc fails call, call⟩ none slow obj env).consumed := by
  rcases initSuccess_mem_consumed svc h hfails ⟨obj, .new, env, false⟩ with ⟨failure, hraised⟩ | hmem
  · rw [outcome_of_raised svc hraised] at hok
    cases hok
  · simp only [evaluate, concluded, Option.getD_none]
    split <;> exact hmem

/-- The size hint of a start is taken for the end of the round: the object gets the score zero
of a result that was never sent. -/
theorem zero_of_hint (size : ℤ) (next : Reply → Startup σ) (fails : String → Proc σ)
    (call : σ → Proc σ) (slow : Bool) (obj : Object m) (env : ε) :
    let report := evaluate svc ⟨(Startup.emit (.hintLargeAttribute (some size)) next).proc fails
      call, call⟩ none slow obj env
    report.outcome = .ok { FilterResult.new with cacheOutput := slow } ∧
      report.consumed = [.hintLargeAttribute (some size)] :=
  ⟨rfl, rfl⟩

/-- The process ends without a word. -/
theorem raised_of_exit (st : LoopState m ε) :
    ∃ failure, (commandLoop svc (.exit : Proc σ) st).ending = .raised failure :=
  ⟨_, rfl⟩

/-- The process ends after the traceback. -/
theorem raised_of_failed (name trace : String) (st : LoopState m ε) :
    ∃ failure, (commandLoop svc (failed name trace : Proc σ) st).ending = .raised failure :=
  raised_of_exit svc st

/-- A start that failed is a filter that failed. -/
theorem evaluate_failed (name trace : String) (call : σ → Proc σ) (slow : Bool) (obj : Object m)
    (env : ε) :
    evaluate svc ⟨(Startup.raise trace).proc (failed name) call, call⟩ none slow obj env =
      ⟨none, obj, env, .error .filterExecutionError, [critical name trace]⟩ := rfl

/-- The classes of a program. -/
def Script.all (script : Script ζ ι σ) : List (FilterClass ζ ι σ) :=
  script.cls :: script.classes.getD []

/-- The class is one of the program. -/
theorem mem_all_of_select {script : Script ζ ι σ} {args rest : List String}
    {class_ : FilterClass ζ ι σ} (h : script.select args = .ok (class_, rest)) :
    class_ ∈ script.all := by
  unfold Script.select at h
  split at h
  · cases h
    exact List.mem_cons_self
  · next classes hclasses =>
    split at h
    · cases h
    · split at h
      · next found hfound =>
        cases h
        rw [Script.all, hclasses]
        exact List.mem_cons_of_mem _ (List.mem_of_find?_eq_some hfound)
      · cases h

/-- The program has read its configuration when it starts. -/
theorem start_eq (lib : Library ζ ι) (script : Script ζ ι σ) (config : Config) :
    script.start lib config.bytes =
      (match script.make lib config.init with
        | .error error => .raise (lib.traceback error)
        | .ok (class_, self) => class_.init self : Startup σ).proc
          (failed config.name) script.call := by
  have hread := reads_readInit config []
  rw [List.append_nil] at hread
  have hinit : readInit config.bytes = .ok (config.init, []) := hread
  rw [Script.start, hinit]
  rfl

/-- What a worker gets from a Python filter: one that was made from the arguments and the blob
that were sent, or, where the program cannot use them, the traceback and a failed filter. -/
def PythonStarts (lib : Library ζ ι) (script : Script ζ ι σ) (config : Config) (slow : Bool)
    (obj : Object m) (env : ε) : Prop :=
  let report := evaluate svc (script.program lib config.bytes) none slow obj env
  (∃ class_ args self, script.select config.arguments = .ok (class_, args) ∧
      Parses class_ args ∧ Opens lib class_ (some config.blob) ∧
      Reached lib class_ args (some config.blob) config.name self ∧
      report = evaluate svc ⟨(class_.init self).proc (failed config.name) script.call,
        script.call⟩ none slow obj env ∧
      ((class_.init self).Quiet →
        ∀ result, report.outcome = .ok result → .initSuccess ∈ report.consumed)) ∨
    ((∀ class_ args, script.select config.arguments = .ok (class_, args) →
        ¬ (Parses class_ args ∧ Opens lib class_ (some config.blob))) ∧
      ∃ error, report = ⟨none, obj, env, .error .filterExecutionError,
        [critical config.name (lib.traceback error)]⟩)

/-- What a worker gets from a C filter: `init` on the arguments and the blob that were sent. -/
structure CStarts (strtod : Bytes → Double) (init : CInit → Startup σ) (eval : σ → Proc σ)
    (config : Config) (slow : Bool) (obj : Object m) (env : ε) : Prop where
  /-- `init` gets what was read. -/
  started : evaluate svc (lfProgram strtod init eval config.bytes) none slow obj env =
    evaluate svc ⟨(init config.cInit).proc (fun _ => .exit) eval, eval⟩ none slow obj env
  /-- Strings without a NUL are read as they were sent. -/
  exact : (∀ text ∈ config.name :: config.arguments, (0 : UInt8) ∉ encodeText text) →
    config.cInit = ⟨some (encodeText config.name), config.arguments.map encodeText,
      config.blob.length, config.blob⟩
  /-- No result without `init-success`. -/
  reported : (init config.cInit).Quiet → ∀ result,
    (evaluate svc (lfProgram strtod init eval config.bytes) none slow obj env).outcome = .ok result →
      .initSuccess ∈
        (evaluate svc (lfProgram strtod init eval config.bytes) none slow obj env).consumed

/-- The Python library hands the whole configuration to a class whose names are given, and the first
object meets what the class makes of it. -/
theorem pythonStarts {lib : Library ζ ι} {script : Script ζ ι σ}
    (h : ∀ class_ ∈ script.all, class_.Named) (config : Config) (slow : Bool) (obj : Object m) (env : ε) :
    PythonStarts svc lib script config slow obj env := by
  unfold PythonStarts Script.program
  rw [start_eq]
  cases hselect : script.select config.arguments with
  | error error =>
    have hmake : script.make lib config.init = .error error := by
      rw [Script.make, Config.init, hselect]
      rfl
    refine Or.inr ⟨fun class_ args heq => (nomatch heq), error, ?_⟩
    rw [hmake]
    exact evaluate_failed svc _ _ _ slow obj env
  | ok selected =>
    obtain ⟨class_, args⟩ := selected
    have hmem := mem_all_of_select hselect
    cases hself : construct lib class_ args (some config.blob) config.name with
    | error error =>
      have hmake : script.make lib config.init = .error error := by
        rw [Script.make, Config.init, hselect]
        simp only [bind, Except.bind, hself]
      refine Or.inr ⟨fun other rest heq => ?_, error, ?_⟩
      · cases heq
        exact refused_of_construct (h class_ hmem) hself
      · rw [hmake]
        exact evaluate_failed svc _ _ _ slow obj env
    | ok self =>
      have hmake : script.make lib config.init = .ok (class_, self) := by
        rw [Script.make, Config.init, hselect]
        simp only [bind, Except.bind, hself]
        rfl
      obtain ⟨hparses, hopens, hreached⟩ := reached_of_construct (h class_ hmem) hself
      refine Or.inl ⟨class_, args, self, rfl, hparses, hopens, hreached, ?_,
        fun hquiet result hok => ?_⟩
      · rw [hmake]
      · rw [hmake] at hok ⊢
        exact initSuccess_of_ok svc hquiet (raised_of_failed svc config.name) slow obj env hok

/-- The C library does the same within the limits of its strings and integers. -/
theorem cStarts {strtod : Bytes → Double} (hone : strtod (encodeText "1") = .one)
    (init : CInit → Startup σ) (eval : σ → Proc σ) {config : Config} (h : config.Fits)
    (slow : Bool) (obj : Object m) (env : ε) :
    CStarts svc strtod init eval config slow obj env := by
  have hread := reads_lfReadInit hone h []
  rw [List.append_nil] at hread
  have hinit : lfReadInit strtod config.bytes = .ok (config.cInit, []) := hread
  have hprogram : lfProgram strtod init eval config.bytes =
      ⟨(init config.cInit).proc (fun _ => .exit) eval, eval⟩ := by
    rw [lfProgram, hinit]
  refine ⟨by rw [hprogram], fun hnul => ?_, fun hquiet result hok => ?_⟩
  · have hname := cString_eq (hnul config.name List.mem_cons_self)
    have hargs : config.arguments.map (fun arg => cString (encodeText arg)) =
        config.arguments.map encodeText :=
      List.map_congr_left fun arg harg => cString_eq (hnul arg (List.mem_cons_of_mem _ harg))
    rw [Config.cInit, hname, hargs]
  · rw [hprogram] at hok ⊢
    exact initSuccess_of_ok svc hquiet (fun _ => raised_of_exit svc) slow obj env hok

end Worker

/-! ## A program with two classes -/

/-- Archives without members. -/
def noArchives : Library Unit Unit := ⟨fun _ => none, fun _ => [], fun _ _ => none, fun _ => none,
  fun _ => "Traceback"⟩

/-- A class of filters that score every object one. -/
def scoring (name : String) (params : List Parameter) : FilterClass Unit Unit Unit :=
  ⟨name, params, false, false, fun _ => .ready ()⟩

/-- Two classes, one with a text and a boolean as arguments. -/
def bundled : Script Unit Unit Unit :=
  ⟨scoring "Filter" [], some [scoring "Face" [], scoring "Color" [.string "hue", .boolean "exact"]],
    fun _ => .finish (some .one) ()⟩

/-- The class is named first. -/
def colorConfig : Config := ⟨"RGB", ["Color", "blue", "true"], [1, 10, 2]⟩

/-- `strtod` on the version. -/
def versionStrtod (text : Bytes) : Double := if text = encodeText "1" then .one else .zero

/-- The first object of the search. -/
def webObject : Object hexMurmur := Object.new hexMurmur "host" "http://host/1" none none true

end OpenDiamond.FilterStart
