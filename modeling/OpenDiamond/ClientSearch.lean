import Mathlib.Data.String.Basic
import OpenDiamond.Lib.Ordered
import OpenDiamond.Protocol
import OpenDiamond.Search

/-!
# The uploads of a client

A client names code, blob arguments and objects by the hash of their data. After the setup it
sends the blobs that the server does not have; when the server misses the object of a
reexecution, it tries to send that too. No garbage is collected from the server's blob cache
in the meantime.
-/

namespace OpenDiamond.ClientSearch

open Lib.Binary64 Lib.Ordered Lib.OrderedDict Lib.Splitting Lib.Traversal Lib.Unicode
open FilterSources Search
open DiamondObject (Bytes IsHexDigit)
open ResultKeys (Sha256Hex)

/-! ## The blob cache -/

section Cache

variable (tables : UnicodeTables)

/-- The cache directory: the content of each file. -/
abbrev Store := Dict String Bytes

/-- `BlobCache._path`. -/
def path (sig : String) : String := tables.lower sig

/-- `GC_SUFFIX`. -/
def gcSuffix : String := "-"

/-- `_access`: the directory with the blob in place, `none` for `KeyError`. -/
def access (store : Store) (sig : String) : Option Store :=
  match store.get? (path tables sig) with
  | some _ => some store
  | none =>
    -- the blob is rescued
    (store.get? (path tables sig ++ gcSuffix)).map fun data =>
      (store.erase (path tables sig ++ gcSuffix)).set (path tables sig) data

/-- `__getitem__`. -/
def getitem (store : Store) (sig : String) : Option Bytes :=
  (access tables store sig).bind fun store => store.get? (path tables sig)

/-- `__contains__`. -/
def contains (store : Store) (sig : String) : Bool := (access tables store sig).isSome

/-- `add`. -/
def add (sha256 : Bytes → Sha256Hex) (store : Store) (data : Bytes) : Store :=
  match store.get? (path tables (sha256 data).text) with
  | some _ => store
  | none => store.set (path tables (sha256 data).text) data

end Cache

/-! ## Blobs and filters of the client -/

/-- A `Blob`. -/
structure Blob where
  /-- `data`. -/
  data : Bytes

/-- A `FilterSpec`. -/
structure FilterSpec where
  /-- Name. -/
  name : String
  /-- The code. -/
  code : Blob
  /-- Arguments. -/
  arguments : List String := []
  /-- The blob argument. -/
  blobArgument : Blob := ⟨[]⟩
  /-- Names of the filters that have to run before. -/
  dependencies : List String := []
  /-- Lower threshold: minus infinity unless given. -/
  minScore : Double := ⟨0xfff0000000000000⟩
  /-- Upper threshold: infinity unless given. -/
  maxScore : Double := ⟨0x7ff0000000000000⟩

section Client

variable (hash : Bytes → Sha256Hex)

/-- `Blob.sha256`. -/
def Blob.sha256 (blob : Blob) : String := (hash blob.data).text

/-- `Blob.__str__`. -/
def Blob.str (blob : Blob) : String := "<Blob sha256=" ++ blob.sha256 hash ++ ">"

/-- `_blob_uri`. -/
def blobUri (blob : Blob) : String := "sha256:" ++ blob.sha256 hash

/-- The `XDR_filter_config` of a filter. -/
def FilterSpec.config (f : FilterSpec) : Search.FilterConfig :=
  ⟨f.name, f.arguments, f.dependencies, f.minScore, f.maxScore, blobUri hash f.code,
    blobUri hash f.blobArgument⟩

/-- `uri_data` in `setup`. -/
def uriData (filters : List FilterSpec) : Dict String Bytes :=
  Dict.empty.setAll (filters.flatMap fun f =>
    [(blobUri hash f.code, f.code.data), (blobUri hash f.blobArgument, f.blobArgument.data)])

end Client

/-! ## The server's surroundings -/

/-- What the exchange meets besides the blob cache. -/
structure Surroundings (V : Type) where
  /-- `sha256(·).hexdigest()`. -/
  sha256 : Bytes → Sha256Hex
  /-- The order in which a set is packed. -/
  iterate : Finset String → List String
  /-- Every member is packed, and nothing else. -/
  mem_iterate : ∀ uris uri, uri ∈ iterate uris ↔ uri ∈ uris
  /-- The first hundred characters of code, `none` when it is no text. -/
  firstLine : Bytes → Option String
  /-- The `connect_method` of a configuration, or the text of the exception that reading it
  raised. -/
  dockerConfig : Bytes → Except String String
  /-- What the calls in a row meet. -/
  worlds : ℕ → World V
  /-- `runner.evaluate` in these calls: the attributes, `none` for an exception, and the
  updates of session variables. -/
  evaluateObject : ℕ → List FilterSources.Filter → String → Option (List String) →
    Option (List (String × Bytes)) × List (Dict String V)

variable {δ υ V : Type}

/-- `Filter._resolve_mode`. -/
def resolveMode (s : Surroundings V) (code : Bytes) : Except FilterSources.Raised Unit :=
  match s.firstLine code with
  | none => .error .valueError
  | some line =>
    if "diamond-docker-filter".toList <:+: line.toList then
      match s.dockerConfig code with
      | .error message => .error (.filterDependencyError message)
      | .ok connectMethod =>
        if connectMethod = "default" ∨ connectMethod = "fifo" then .ok ()
        else .error (.filterDependencyError ("Unknown connect_method: " ++ connectMethod))
    else .ok ()

/-- The file that the code of a filter is. -/
def codeFile (tables : UnicodeTables) (store : Store) (uri : String) : Option Bytes :=
  (splitScheme tables uri).bind fun parts => getitem tables store (tables.lower parts.2)

/-- The accesses of `resolve`, with the filters in the order of the stack. -/
def blobs (tables : UnicodeTables) (s : Surroundings V) (store : Store)
    (order : List FilterSources.Filter) : Blobs where
  executablePath _ sig := if contains tables store sig then .found else .missing
  getitem _ sig := if contains tables store sig then .found else .missing
  resolveMode k :=
    match (order[k]?).bind fun filter => codeFile tables store filter.codeSource with
    | some code => resolveMode s code
    | none => .error .external

/-- `ObjectLoader.source_available`. -/
def objectAvailable (tables : UnicodeTables) (cached : String → Bool) (obj : String) :
    Except FilterSources.Raised Bool :=
  match splitScheme tables obj with
  | none => .error .valueError
  | some (scheme, path) =>
    if scheme = "sha256" then
      if '\x00' ∈ path.toList then .error .valueError else .ok (cached path)
    else .ok true

/-- What a call meets: the blob cache gives what it holds. A rescue leaves that as it is. -/
def world (server : Server δ υ) (s : Surroundings V) (n : ℕ) (store : Store)
    (order : List FilterSources.Filter) : World V :=
  { s.worlds n with
    cached := fun _ sig => contains server.tables store sig
    blobs := blobs server.tables s store order
    evaluation := fun filters objectId attrs =>
      match objectAvailable server.tables (contains server.tables store) objectId with
      | .error _ => (.error none, [])
      | .ok false => (.error (some .fCacheMiss), [])
      | .ok true =>
        match s.evaluateObject n filters objectId attrs with
        | (some attrs, updates) => (.ok attrs, updates)
        | (none, updates) => (.error none, updates) }

/-! ## The calls of the client -/

section Calls

variable {server : Server δ υ} [AddCommGroup V]

/-- The blobs of an `XDR_blob_data` as they are read from the channel. -/
def receivedBlobs (message : Bytes) : Option (List Bytes) :=
  match Xdr.decode Protocol.xdrBlobData message with
  | .ok (.struct _ [(_, .list items)]) =>
    items.mapM fun
      | .bytes data => some data
      | _ => none
  | _ => none

/-- `self.control.send_blobs(XDR_blob_data(blobs=·))`: the blobs that arrive, and what the
server makes of them. Without an exception the call completes. -/
def sendBlobs (s : Surroundings V) (n : ℕ) (values : List Xdr.Value)
    (before : Store × State server V) : Option (List Bytes × Store × State server V) := do
  let message ← Xdr.encode Protocol.xdrBlobData [("blobs", .list values)]
  let blobs ← receivedBlobs message
  match handle before.2 ⟨.sendBlobs blobs, world server s n before.1 []⟩ with
  | (.ok .nothing, state) =>
    some (blobs, blobs.foldl (add server.tables s.sha256) before.1, state)
  | _ => none

/-- `_DiamondConnection.setup`: the cache and the search after it has completed. -/
def setup (s : Surroundings V) (cookies : List Text) (filters : List FilterSpec)
    (before : Store × State server V) : Option (Store × State server V) :=
  let request := ⟨cookies, filters.map (FilterSpec.config s.sha256)⟩
  match handle before.2 ⟨.setup request, world server s 0 before.1 []⟩ with
  | (.ok (.blobList missing), state) => do
    let blobs ← (s.iterate missing).mapM (uriData s.sha256 filters).get?
    if blobs = [] then some (before.1, state)
    else
      let sent ← sendBlobs s 1 (blobs.map .bytes) (before.1, state)
      some sent.2
  | _ => none

/-- What `evaluate` saw and did after its setup. -/
structure Evaluation (δ V : Type) where
  /-- The end of the first `reexecute_filters`. -/
  first : Except (Exception δ) (Reply V)
  /-- The blobs sent after a cache miss, if they could be sent. -/
  uploaded : Option (List Bytes)
  /-- The end of the second `reexecute_filters`. -/
  second : Option (Except (Exception δ) (Reply V))

/-- `_DiamondConnection.evaluate` after its setup. -/
def reexecute (s : Surroundings V) (blob : Blob) (attrs : Option (List String))
    (before : Store × State server V) : Evaluation δ V :=
  let request := .reexecuteFilters (blobUri s.sha256 blob) attrs
  let call := fun n (before : Store × State server V) =>
    handle before.2 ⟨request, world server s n before.1 before.2.filters.order⟩
  match call 2 before with
  | (.error (.rpcError .fCacheMiss), state) =>
    -- `blobs=[str(blob)]`
    match sendBlobs s 3 [.text (ofString (blob.str s.sha256))] (before.1, state) with
    | none => ⟨.error (.rpcError .fCacheMiss), none, none⟩
    | some (blobs, after) => ⟨.error (.rpcError .fCacheMiss), some blobs, some (call 4 after).1⟩
  | (result, _) => ⟨result, none, none⟩

/-- `_DiamondConnection.evaluate`. -/
def evaluate (s : Surroundings V) (cookies : List Text) (filters : List FilterSpec) (blob : Blob)
    (attrs : Option (List String)) (before : Store × State server V) :
    Option (Evaluation δ V) :=
  (setup s cookies filters before).map (reexecute s blob attrs)

end Calls

/-! ## URIs of blobs -/

/-- A text of hexadecimal digits has no other character. -/
theorem notMem_of_hex {text : String} (h : ∀ c ∈ text.toList, IsHexDigit c) {c : Char}
    (hc : ¬IsHexDigit c) : c ∉ text.toList :=
  fun hmem => hc (h c hmem)

/-- A text of hexadecimal digits goes on to its end before any other character. -/
theorem takeWhile_of_hex {text : String} (h : ∀ c ∈ text.toList, IsHexDigit c) {stop : Char}
    (hstop : ¬IsHexDigit stop) : text.toList.takeWhile (· ≠ stop) = text.toList := by
  rw [List.takeWhile_eq_self_iff]
  intro c hc
  have hne : c ≠ stop := fun heq => hstop (heq ▸ h c hc)
  simp [hne]

/-- The first colon of a blob's URI is the one behind its scheme. -/
theorem cut_blobUri (text : String) :
    cut [':'] ("sha256:" ++ text).toList = some ("sha256".toList, text.toList) := by
  have happ : ("sha256:" ++ text).toList = "sha256".toList ++ [':'] ++ text.toList := by
    rw [String.toList_append]
    rfl
  rw [happ]
  exact cut_append (by decide) text.toList

/-- A signature is the path of its URI, unless it looks like a port. -/
theorem splitScheme_sha256 (tables : UnicodeTables) {text : String}
    (h : ∀ c ∈ text.toList, IsHexDigit c) (hdigits : ¬∀ c ∈ text.toList, c.isDigit = true) :
    splitScheme tables ("sha256:" ++ text) = some ("sha256", text) := by
  have hany : (text.toList.any fun c => !c.isDigit) = true := by
    rw [List.any_eq_true]
    obtain ⟨c, hc, hdigit⟩ := not_forall₂.mp hdigits
    exact ⟨c, hc, by simpa using hdigit⟩
  have hscheme : urlScheme ("sha256:" ++ text).toList = ("sha256".toList, text.toList) := by
    rw [urlScheme, cut_blobUri]
    simp only [hany, Bool.or_true]
    rfl
  have hslashes : ¬"//".toList <+: text.toList := by
    rintro ⟨rest, hrest⟩
    refine notMem_of_hex h (c := '/') (by decide) ?_
    rw [← hrest]
    exact List.mem_cons_self
  have hpath : (text.toList.takeWhile (· ≠ '#')).takeWhile (· ≠ '?') = text.toList := by
    rw [takeWhile_of_hex h (by decide), takeWhile_of_hex h (by decide)]
  have hnetloc : (unmatchedBrackets [] || badNetloc tables []) = false := rfl
  have hparams : "sha256" ∉ usesParams := by decide
  simp only [splitScheme, hscheme, if_neg hslashes, hpath, hnetloc, String.ofList_toList,
    if_neg hparams]
  rfl

/-- A signature of digits is taken for a port, and its URI has no scheme. -/
theorem splitScheme_port (tables : UnicodeTables) {text : String}
    (hdigits : ∀ c ∈ text.toList, c.isDigit = true) (hne : text.toList ≠ []) :
    ∃ path, splitScheme tables ("sha256:" ++ text) = some ("", path) := by
  have hany : (text.toList.any fun c => !c.isDigit) = false := by
    rw [List.any_eq_false]
    intro c hc
    simp [hdigits c hc]
  have hscheme : urlScheme ("sha256:" ++ text).toList = ([], ("sha256:" ++ text).toList) := by
    rw [urlScheme, cut_blobUri]
    simp only [hany, hne, decide_false, Bool.or_self, Bool.and_false]
    rfl
  have hslashes : ¬"//".toList <+: ("sha256:" ++ text).toList := by
    rw [String.toList_append]
    rintro ⟨rest, hrest⟩
    cases hrest
  simp only [splitScheme, hscheme, if_neg hslashes]
  exact ⟨_, rfl⟩

/-! ## What the cache holds -/

/-- `str.lower` on the digits of a signature. -/
def KeepsHex (tables : UnicodeTables) : Prop :=
  ∀ text, (∀ c ∈ text.toList, IsHexDigit c) → tables.lower text = text

section Lookups

variable {tables : UnicodeTables}

/-- A blob is found under its signature, or waits to be rescued. -/
theorem getitem_eq (store : Store) (sig : String) :
    getitem tables store sig =
      (store.get? (path tables sig)).or (store.get? (path tables sig ++ gcSuffix)) := by
  unfold getitem access
  cases hlive : store.get? (path tables sig) with
  | some data => simp [hlive]
  | none => cases store.get? (path tables sig ++ gcSuffix) <;> simp

/-- A blob is contained exactly when it can be got, since both go through the same access. -/
theorem contains_eq (store : Store) (sig : String) :
    contains tables store sig = (getitem tables store sig).isSome := by
  unfold contains getitem access
  cases hlive : store.get? (path tables sig) with
  | some data => simp [hlive]
  | none => cases store.get? (path tables sig ++ gcSuffix) <;> simp

variable {hash : Bytes → Sha256Hex}

/-- A signature is the name of its own file, as `lower` leaves hexadecimal digits alone. -/
theorem path_sha256 (htables : KeepsHex tables) (sig : Sha256Hex) :
    path tables sig.text = sig.text :=
  htables sig.text sig.hex

/-- No signature is the name of a file that waits for its removal: all signatures have one
length. -/
theorem sha256_ne_waiting (sig other : Sha256Hex) : sig.text ≠ other.text ++ gcSuffix := by
  intro heq
  refine notMem_of_hex sig.hex (c := '-') (by decide) ?_
  rw [heq, String.toList_append]
  exact List.mem_append_right _ List.mem_cons_self

/-- Two signatures with one text are the same. -/
theorem text_inj {sig other : Sha256Hex} : sig.text = other.text ↔ sig = other := by
  rw [Sha256Hex.mk.injEq]

/-- A file that is there stays when further data is added, also under its own name. -/
theorem get?_add_of_some {store : Store} {name : String} {data : Bytes}
    (h : store.get? name = some data) (more : Bytes) :
    (add tables hash store more).get? name = some data := by
  unfold add
  split
  · exact h
  · rename_i hfree
    rw [Dict.get?_set_of_ne _ _ ?_, h]
    rintro rfl
    rw [h] at hfree
    cases hfree

/-- Adding data changes nothing under the signature of other data. -/
theorem getitem_add_of_ne (htables : KeepsHex tables) (store : Store) {data : Bytes}
    {sig : Sha256Hex} (h : hash data ≠ sig) :
    getitem tables (add tables hash store data) sig.text = getitem tables store sig.text := by
  have hlive : (hash data).text ≠ sig.text := fun heq => h (text_inj.mp heq)
  have hwaiting := sha256_ne_waiting (hash data) sig
  rw [getitem_eq, getitem_eq, path_sha256 htables]
  unfold add
  rw [path_sha256 htables]
  split
  · rfl
  · rw [Dict.get?_set_of_ne _ _ hlive, Dict.get?_set_of_ne _ _ hwaiting]

/-- A blob that was not there is found with its data. -/
theorem get?_add_self (htables : KeepsHex tables) {store : Store} {data : Bytes}
    (h : getitem tables store (hash data).text = none) :
    (add tables hash store data).get? (hash data).text = some data := by
  rw [getitem_eq, path_sha256 htables, Option.or_eq_none_iff] at h
  unfold add
  rw [path_sha256 htables, h.1]
  exact Dict.get?_set_self store _ data

/-- A blob with a live file is got without a rescue. -/
theorem getitem_of_live (htables : KeepsHex tables) {store : Store} {sig : Sha256Hex}
    {data : Bytes} (h : store.get? sig.text = some data) :
    getitem tables store sig.text = some data := by
  rw [getitem_eq, path_sha256 htables, h]
  rfl

/-- Blobs with other signatures, however many are added, do not matter for what is got under a
signature. -/
theorem getitem_addAll_of_ne (htables : KeepsHex tables) {blobs : List Bytes} (store : Store)
    {sig : Sha256Hex} (h : ∀ data ∈ blobs, hash data ≠ sig) :
    getitem tables (blobs.foldl (add tables hash) store) sig.text =
      getitem tables store sig.text := by
  induction blobs generalizing store with
  | nil => rfl
  | cons data rest ih =>
    rw [List.foldl_cons, ih _ fun other hother => h other (List.mem_cons_of_mem _ hother),
      getitem_add_of_ne htables store (h data List.mem_cons_self)]

/-- A file that is there is not written again, however many blobs are added. -/
theorem get?_addAll_of_some {store : Store} {name : String} {data : Bytes}
    (h : store.get? name = some data) (blobs : List Bytes) :
    (blobs.foldl (add tables hash) store).get? name = some data := by
  induction blobs generalizing store with
  | nil => exact h
  | cons more rest ih => exact ih (get?_add_of_some h more)

/-- A blob that was not there is found once it has been added. -/
theorem getitem_addAll_of_mem (htables : KeepsHex tables) {blobs : List Bytes} {store : Store}
    {data : Bytes} (hnone : getitem tables store (hash data).text = none) (hmem : data ∈ blobs)
    (hunique : ∀ other ∈ blobs, hash other = hash data → other = data) :
    getitem tables (blobs.foldl (add tables hash) store) (hash data).text = some data := by
  induction blobs generalizing store with
  | nil => cases hmem
  | cons first rest ih =>
    by_cases hfirst : hash first = hash data
    · obtain rfl := hunique first List.mem_cons_self hfirst
      exact getitem_of_live htables (get?_addAll_of_some (get?_add_self htables hnone) rest)
    · refine ih ?_ ?_ fun other hother => hunique other (List.mem_cons_of_mem _ hother)
      · rw [getitem_add_of_ne htables store hfirst, hnone]
      · refine (List.mem_cons.mp hmem).resolve_left ?_
        rintro rfl
        exact hfirst rfl

end Lookups

/-! ## Blobs on the channel -/

/-- Only data of less than `2 ^ 32` bytes can be packed. -/
theorem length_lt_of_pack {data packed : Bytes}
    (h : Xdr.pack .opaqueData (.bytes data) = some packed) : data.length < 2 ^ 32 := by
  by_contra hlong
  have hnone : Xdr.packUint (.int data.length) = none := Xdr.pack_uint_of_ge (not_lt.mp hlong)
  rw [Xdr.pack, Xdr.packOpaqueData, hnone] at h
  cases h

/-- Bytes that are packed are what the other side reads. -/
theorem receivedBlobs_of_encode {blobs : List Bytes} {message : Bytes}
    (h : Xdr.encode Protocol.xdrBlobData [("blobs", .list (blobs.map .bytes))] = some message) :
    receivedBlobs message = some blobs := by
  have hfits : Xdr.Fits Xdr.Encodable Protocol.xdrBlobData.handler
      (.struct Protocol.xdrBlobData.name [("blobs", .list (blobs.map .bytes))]) := by
    have hencode : Xdr.encode Protocol.xdrBlobData [("blobs", .list (blobs.map .bytes))] =
        (Xdr.pack (.array .opaqueData) (.list (blobs.map .bytes))).bind fun part =>
          some (part ++ []) := rfl
    rw [hencode, Xdr.pack] at h
    obtain ⟨part, hpack, -⟩ := Option.bind_eq_some_iff.mp h
    obtain ⟨items, hitems, hpack⟩ := Option.bind_eq_some_iff.mp hpack
    cases hitems
    obtain ⟨length, hlength, hpack⟩ := Option.bind_eq_some_iff.mp hpack
    obtain ⟨parts, hparts, -⟩ := Option.bind_eq_some_iff.mp hpack
    refine ⟨rfl, rfl, ⟨_, rfl, ?_, ?_⟩, trivial⟩
    · by_contra hlong
      have hnone : Xdr.packUint (.int (blobs.map Xdr.Value.bytes).length) = none :=
        Xdr.pack_uint_of_ge (not_lt.mp hlong)
      rw [hnone] at hlength
      cases hlength
    · intro value hvalue
      obtain ⟨data, -, rfl⟩ := List.mem_map.mp hvalue
      have hsome := isSome_mapM_iff.mp (Option.isSome_of_eq_some hparts) _ hvalue
      obtain ⟨packed, hpacked⟩ := Option.isSome_iff_exists.mp hsome
      exact length_lt_of_pack hpacked
  obtain ⟨message', hencode, hdecode, -⟩ := Protocol.encode_roundTrip.2 _ _ hfits
  rw [h] at hencode
  cases hencode
  rw [receivedBlobs, hdecode]
  dsimp only
  rw [List.mapM_map]
  exact (List.mapM_pure (m := Option)).trans (congrArg some (List.map_id blobs))

/-- A string is no opaque data. -/
theorem encode_text (points : Text) :
    Xdr.encode Protocol.xdrBlobData [("blobs", .list [.text points])] = none := rfl

/-! ## The setup -/

section Setup

variable {server : Server δ υ}

/-- What the loop of `setup` over the filters has found: every URI can be looked up, and the
missing ones are those that the cache does not have. -/
structure LookedUp (tables : UnicodeTables) (cached : String → Bool) (configs : List FilterConfig)
    (filters : List FilterSources.Filter) (missing : Finset String) : Prop where
  /-- The filters as they are requested. -/
  filters : filters = configs.map FilterConfig.filter
  /-- Every URI can be looked up. -/
  found : ∀ f ∈ configs, ∀ uri, uri = f.code ∨ uri = f.blob →
    ∃ available, sourceAvailable tables cached uri = .ok available
  /-- The missing URIs. -/
  missing : ∀ uri, uri ∈ missing ↔ ∃ f ∈ configs, (uri = f.code ∨ uri = f.blob) ∧
    sourceAvailable tables cached uri = .ok false

/-- What the loop of the setup returns are the looked up filters, with exactly the URIs that were
not cached. -/
theorem lookedUp_of_setupFilters {cached : String → Bool} {configs : List FilterConfig} {k : ℕ}
    {filters : List FilterSources.Filter} {missing : Finset String}
    (h : setupFilters server (fun _ => cached) k configs = .ok (filters, missing)) :
    LookedUp server.tables cached configs filters missing := by
  induction configs generalizing k filters missing with
  | nil =>
    cases h
    exact ⟨rfl, by simp, by simp⟩
  | cons f rest ih =>
    unfold setupFilters at h
    split at h
    · rename_i code blob hcode hblob
      cases hrest : setupFilters server (fun _ => cached) (k + 1) rest with
      | error raised =>
        rw [hrest] at h
        cases h
      | ok found =>
        rw [hrest] at h
        cases h
        obtain ⟨hfilters, hfound, hmissing⟩ := ih hrest
        refine ⟨by rw [hfilters]; rfl, ?_, ?_⟩
        · intro g hg uri huri
          rcases List.mem_cons.mp hg with rfl | hg
          · rcases huri with rfl | rfl
            · exact ⟨code, hcode⟩
            · exact ⟨blob, hblob⟩
          · exact hfound g hg uri huri
        · intro uri
          rw [Finset.mem_union, Finset.mem_union, hmissing, List.exists_mem_cons_iff]
          refine or_congr ?_ Iff.rfl
          rw [or_and_right]
          refine or_congr ?_ ?_
          · cases code with
            | true =>
              refine iff_of_false (Finset.notMem_empty uri) ?_
              rintro ⟨rfl, hfalse⟩
              rw [hcode] at hfalse
              cases hfalse
            | false =>
              refine Finset.mem_singleton.trans ⟨?_, fun hu => hu.1⟩
              rintro rfl
              exact ⟨rfl, hcode⟩
          · cases blob with
            | true =>
              refine iff_of_false (Finset.notMem_empty uri) ?_
              rintro ⟨rfl, hfalse⟩
              rw [hblob] at hfalse
              cases hfalse
            | false =>
              refine Finset.mem_singleton.trans ⟨?_, fun hu => hu.1⟩
              rintro rfl
              exact ⟨rfl, hblob⟩
    all_goals cases h

/-- A setup that returned has committed its filters. -/
theorem of_setup_ok {params : SetupParams} {world : World V} {state after : State server V}
    {missing : Finset String} (h : Search.setup params world state = (.ok (.blobList missing), after)) :
    ∃ filters stack cookies, setupFilters server world.cached 0 params.filters = .ok (filters, missing) ∧
      FilterStack.new filters = .ok stack ∧
      after = { state with scope := some cookies, filters := stack } := by
  unfold Search.setup at h
  split at h
  · cases h
  rename_i filters missing' hfilters
  split at h
  · cases h
  rename_i stack hstack
  split at h
  · cases h
  rename_i cookies hcookies
  cases h
  exact ⟨filters, stack, cookies, hfilters, hstack, rfl⟩

end Setup

/-- The blobs that the filters consist of. -/
def blobsOf (filters : List FilterSpec) : List Blob :=
  filters.flatMap fun f => [f.code, f.blobArgument]

/-- The blobs of some filters are their codes and their blob arguments. -/
theorem mem_blobsOf {filters : List FilterSpec} {blob : Blob} :
    blob ∈ blobsOf filters ↔ ∃ f ∈ filters, blob = f.code ∨ blob = f.blobArgument := by
  simp [blobsOf]

section Uris

variable {hash : Bytes → Sha256Hex} {filters : List FilterSpec}

/-- Two blobs have one URI exactly when their data has one hash. -/
theorem blobUri_inj {blob blob' : Blob} :
    blobUri hash blob = blobUri hash blob' ↔ hash blob.data = hash blob'.data := by
  rw [blobUri, blobUri, String.append_right_inj, Blob.sha256, Blob.sha256, text_inj]

/-- The dictionary holds the data of each blob under its URI. -/
theorem uriData_eq_some {uri : String} {data : Bytes}
    (h : (uriData hash filters).get? uri = some data) :
    ∃ blob ∈ blobsOf filters, uri = blobUri hash blob ∧ blob.data = data := by
  have hentry := (Dict.mem_of_get?_setAll h).resolve_right (by simp)
  obtain ⟨f, hf, hpair⟩ := List.mem_flatMap.mp hentry
  simp only [List.mem_cons, List.not_mem_nil, or_false, Prod.mk.injEq] at hpair
  rcases hpair with ⟨rfl, rfl⟩ | ⟨rfl, rfl⟩
  · exact ⟨f.code, mem_blobsOf.mpr ⟨f, hf, Or.inl rfl⟩, rfl, rfl⟩
  · exact ⟨f.blobArgument, mem_blobsOf.mpr ⟨f, hf, Or.inr rfl⟩, rfl, rfl⟩

/-- The client finds the data of each of its own blobs under the URI that it sent. -/
theorem isSome_uriData {blob : Blob} (h : blob ∈ blobsOf filters) :
    ((uriData hash filters).get? (blobUri hash blob)).isSome := by
  obtain ⟨f, hf, hblob⟩ := mem_blobsOf.mp h
  refine Dict.isSome_get?_setAll (Or.inl ?_)
  rw [List.mem_map]
  rcases hblob with rfl | rfl
  · exact ⟨_, List.mem_flatMap.mpr ⟨f, hf, List.mem_cons_self⟩, rfl⟩
  · exact ⟨_, List.mem_flatMap.mpr ⟨f, hf, List.mem_cons_of_mem _ List.mem_cons_self⟩, rfl⟩

end Uris

section Completed

variable {server : Server δ υ} {s : Surroundings V}

/-- A signature that is taken for a port. -/
def Port (sig : String) : Prop := ∀ c ∈ sig.toList, c.isDigit = true

/-- The blobs that the client sends are the data of the missing URIs, in whatever order the set of
them is packed. -/
theorem mem_sent_iff {filters : List FilterSpec} {missing : Finset String} {sent : List Bytes}
    (h : (s.iterate missing).mapM (uriData s.sha256 filters).get? = some sent) (data : Bytes) :
    data ∈ sent ↔ ∃ uri ∈ missing, (uriData s.sha256 filters).get? uri = some data := by
  have hall := forall₂_of_mapM_some h
  constructor
  · intro hdata
    obtain ⟨uri, huri, hget⟩ := exists_of_mem_forall₂ hall hdata
    exact ⟨uri, (s.mem_iterate missing uri).mp huri, hget⟩
  · rintro ⟨uri, huri, hget⟩
    have hmem := (s.mem_iterate missing uri).mpr huri
    obtain ⟨other, hother, hsome⟩ := exists_of_mem_forall₂ hall.flip hmem
    rw [hget] at hsome
    cases hsome
    exact hother

/-- The search and the cache after a setup that has completed. -/
structure SetUp (s : Surroundings V) (filters : List FilterSpec)
    (before after : Store × State server V) : Prop where
  /-- The search does not run. -/
  running : after.2.running = false
  /-- There is a scope. -/
  scope : after.2.scope.isSome
  /-- The context is the one before. -/
  context : after.2.context = before.2.context
  /-- The filters have been installed. -/
  stack : FilterStack.new (filters.map fun f => (f.config s.sha256).filter) = .ok after.2.filters
  /-- No signature of a filter's blob is taken for a port. -/
  noPort : ∀ blob ∈ blobsOf filters, ¬Port (blob.sha256 s.sha256)
  /-- What was not in the cache comes from the client. -/
  holds : ∀ sig : Sha256Hex, getitem server.tables after.1 sig.text =
    (getitem server.tables before.1 sig.text).or
      ((uriData s.sha256 filters).get? ("sha256:" ++ sig.text))

/-- The server looks for a blob under its signature, unless the signature looks like a port. -/
theorem sourceAvailable_blobUri (tables : UnicodeTables) {hash : Bytes → Sha256Hex} {blob : Blob}
    (h : ¬Port (blob.sha256 hash)) (cached : String → Bool) :
    sourceAvailable tables cached (blobUri hash blob) = .ok (cached (blob.sha256 hash)) := by
  have hhex : ∀ c ∈ (blob.sha256 hash).toList, IsHexDigit c := (hash blob.data).hex
  rw [sourceAvailable, blobUri, splitScheme_sha256 tables hhex h]
  simp only [if_true, if_neg (notMem_of_hex hhex (c := '\x00') (by decide))]

/-- The text of a hash is not empty. -/
theorem sha256_ne_nil (hash : Bytes → Sha256Hex) (blob : Blob) :
    (blob.sha256 hash).toList ≠ [] := by
  intro hempty
  have hlength := (hash blob.data).length
  rw [← Blob.sha256, hempty] at hlength
  cases hlength

/-- A signature of digits alone is taken for a port; its URI then has no scheme, and its source is
not supported. -/
theorem port_unsupported (tables : UnicodeTables) {hash : Bytes → Sha256Hex} {blob : Blob}
    (h : Port (blob.sha256 hash)) (cached : String → Bool) :
    sourceAvailable tables cached (blobUri hash blob) = .error .filterUnsupportedSource := by
  obtain ⟨path, hsplit⟩ := splitScheme_port tables h (sha256_ne_nil hash blob)
  rw [sourceAvailable, blobUri, hsplit]
  rfl

/-- The URIs of a lookup that went well. -/
theorem LookedUp.noPort {tables : UnicodeTables} {hash : Bytes → Sha256Hex} {cached : String → Bool}
    {specs : List FilterSpec} {filters : List FilterSources.Filter} {missing : Finset String}
    (h : LookedUp tables cached (specs.map (FilterSpec.config hash)) filters missing) {blob : Blob}
    (hblob : blob ∈ blobsOf specs) : ¬Port (blob.sha256 hash) := by
  intro hport
  obtain ⟨f, hf, hpart⟩ := mem_blobsOf.mp hblob
  have huri : blobUri hash blob = (f.config hash).code ∨ blobUri hash blob = (f.config hash).blob := by
    rcases hpart with rfl | rfl
    · exact Or.inl rfl
    · exact Or.inr rfl
  obtain ⟨available, hfound⟩ := h.found _ (List.mem_map_of_mem hf) _ huri
  rw [port_unsupported tables hport] at hfound
  cases hfound

/-- The missing URIs are those of the blobs that the cache does not have. -/
theorem LookedUp.mem_missing_iff {tables : UnicodeTables} {hash : Bytes → Sha256Hex}
    {cached : String → Bool} {specs : List FilterSpec} {filters : List FilterSources.Filter}
    {missing : Finset String}
    (h : LookedUp tables cached (specs.map (FilterSpec.config hash)) filters missing)
    (uri : String) :
    uri ∈ missing ↔
      ∃ blob ∈ blobsOf specs, uri = blobUri hash blob ∧ cached (blob.sha256 hash) = false := by
  rw [h.missing]
  constructor
  · rintro ⟨config, hconfig, huri, hfalse⟩
    obtain ⟨f, hf, rfl⟩ := List.mem_map.mp hconfig
    have hblob : ∃ blob ∈ blobsOf specs, uri = blobUri hash blob := by
      rcases huri with rfl | rfl
      · exact ⟨f.code, mem_blobsOf.mpr ⟨f, hf, Or.inl rfl⟩, rfl⟩
      · exact ⟨f.blobArgument, mem_blobsOf.mpr ⟨f, hf, Or.inr rfl⟩, rfl⟩
    obtain ⟨blob, hblob, rfl⟩ := hblob
    rw [sourceAvailable_blobUri tables (h.noPort hblob)] at hfalse
    exact ⟨blob, hblob, rfl, Except.ok.inj hfalse⟩
  · rintro ⟨blob, hblob, rfl, hfalse⟩
    obtain ⟨f, hf, hpart⟩ := mem_blobsOf.mp hblob
    refine ⟨f.config hash, List.mem_map_of_mem hf, ?_, ?_⟩
    · rcases hpart with rfl | rfl
      · exact Or.inl rfl
      · exact Or.inr rfl
    · rw [sourceAvailable_blobUri tables (h.noPort hblob), hfalse]

/-- Sending the missing blobs completes the cache: all codes and blob arguments of the filters are
in it. -/
theorem holds_of_sent (htables : KeepsHex server.tables) {store : Store}
    {filters : List FilterSpec} {requested : List FilterSources.Filter} {missing : Finset String}
    (hlooked : LookedUp server.tables (contains server.tables store)
      (filters.map (FilterSpec.config s.sha256)) requested missing) {sent : List Bytes}
    (hsent : (s.iterate missing).mapM (uriData s.sha256 filters).get? = some sent)
    (sig : Sha256Hex) :
    getitem server.tables (sent.foldl (add server.tables s.sha256) store) sig.text =
      (getitem server.tables store sig.text).or
        ((uriData s.sha256 filters).get? ("sha256:" ++ sig.text)) := by
  -- what is sent under the signature is the client's data for it, and was missing
  have hsame : ∀ data ∈ sent, s.sha256 data = sig →
      getitem server.tables store sig.text = none ∧
        (uriData s.sha256 filters).get? ("sha256:" ++ sig.text) = some data := by
    rintro data hdata rfl
    obtain ⟨uri, huri, hget⟩ := (mem_sent_iff hsent data).mp hdata
    obtain ⟨blob, -, rfl, rfl⟩ := uriData_eq_some hget
    obtain ⟨other, -, heq, hfalse⟩ := (hlooked.mem_missing_iff _).mp huri
    rw [Blob.sha256, ← blobUri_inj.mp heq, contains_eq] at hfalse
    exact ⟨Option.isSome_eq_false_iff.mp hfalse |> Option.isNone_iff_eq_none.mp, hget⟩
  by_cases hcached : getitem server.tables store sig.text = none
  · rw [hcached, Option.none_or]
    cases hget : (uriData s.sha256 filters).get? ("sha256:" ++ sig.text) with
    | none =>
      rw [getitem_addAll_of_ne htables, hcached]
      intro data hdata heq
      rw [(hsame data hdata heq).2] at hget
      cases hget
    | some data =>
      obtain ⟨blob, hblob, huri, rfl⟩ := uriData_eq_some hget
      have hsig : s.sha256 blob.data = sig :=
        text_inj.mp (String.append_right_inj _ |>.mp huri).symm
      subst hsig
      refine getitem_addAll_of_mem htables hcached ?_ ?_
      · refine (mem_sent_iff hsent blob.data).mpr ⟨_, ?_, hget⟩
        refine (hlooked.mem_missing_iff _).mpr ⟨blob, hblob, rfl, ?_⟩
        rw [Blob.sha256, contains_eq, hcached]
        rfl
      · intro other hother heq
        have hother := (hsame other hother heq).2
        rw [hget] at hother
        exact (Option.some.inj hother).symm
  · rw [getitem_addAll_of_ne htables, Option.or_of_isSome (Option.isSome_iff_ne_none.mpr hcached)]
    intro data hdata heq
    exact hcached (hsame data hdata heq).1

variable [AddCommGroup V]

/-- Blobs that are sent arrive unchanged, are added to the cache one by one, and are counted by the
search. -/
theorem sendBlobs_spec {n : ℕ} {sent : List Bytes} {before : Store × State server V}
    {result : List Bytes × Store × State server V}
    (h : sendBlobs s n (sent.map .bytes) before = some result)
    (hrunning : before.2.running = false) :
    result = (sent, sent.foldl (add server.tables s.sha256) before.1,
      { before.2 with blobs := before.2.blobs ++ sent }) := by
  obtain ⟨message, hmessage, h⟩ := Option.bind_eq_some_iff.mp h
  rw [receivedBlobs_of_encode hmessage] at h
  simp only [handle, running_available hrunning, Search.sendBlobs, Option.bind_eq_bind,
    Option.bind_some] at h
  cases hfails : (world server s n before.1 []).addFails with
  | none =>
    rw [hfails] at h
    exact (Option.some.inj h).symm
  | some count =>
    rw [hfails] at h
    cases h

/-- A setup that completes installs the filters and leaves every blob of theirs in the cache. -/
theorem setUp_of_setup (htables : KeepsHex server.tables) {cookies : List Text}
    {filters : List FilterSpec} {before after : Store × State server V}
    (h : setup s cookies filters before = some after) : SetUp s filters before after := by
  unfold setup at h
  dsimp only at h
  split at h
  case h_2 => cases h
  rename_i missing state hhandle
  have hrunning : before.2.running = false := by
    by_contra hne
    rw [Bool.not_eq_false] at hne
    have hunavailable : ∀ params w, handle before.2 ⟨.setup params, w⟩ =
        (.error (.rpcError .procedureUnavailable), before.2) :=
      fun params w => handle_beforeStart trivial hne
    rw [hunavailable] at hhandle
    cases hhandle
  simp only [handle, running_available hrunning] at hhandle
  obtain ⟨requested, stack, scope, hfilters, hstack, rfl⟩ := of_setup_ok hhandle
  have hlooked := lookedUp_of_setupFilters hfilters
  obtain ⟨sent, hsent, h⟩ := Option.bind_eq_some_iff.mp h
  have hholds := holds_of_sent htables hlooked hsent
  have hstack' : FilterStack.new (filters.map fun f => (f.config s.sha256).filter) = .ok stack := by
    rw [← hstack, hlooked.filters, List.map_map]
    rfl
  split at h
  · rename_i hempty
    cases h
    rw [hempty] at hholds
    exact ⟨hrunning, rfl, rfl, hstack', fun _ => hlooked.noPort, hholds⟩
  · obtain ⟨result, hresult, h⟩ := Option.bind_eq_some_iff.mp h
    cases h
    rw [sendBlobs_spec hresult hrunning]
    exact ⟨hrunning, rfl, rfl, hstack', fun _ => hlooked.noPort, hholds⟩

end Completed

/-! ## The condition -/

section Condition

variable (server : Server δ υ) (s : Surroundings V) (filters : List FilterSpec)

/-- The filters in the order of the stack. -/
def stackOrder : List FilterSources.Filter :=
  match FilterStack.new (filters.map fun f => (f.config s.sha256).filter) with
  | .ok stack => stack.order
  | .error _ => []

/-- The code that a URI stands for: what is cached, else the client's data. -/
def codeOf (store : Store) (uri : String) : Bytes :=
  ((codeFile server.tables store uri).or ((uriData s.sha256 filters).get? uri)).getD []

/-- The modes of all filters, up to the first exception. -/
def modes (store : Store) : Except FilterSources.Raised Unit :=
  (stackOrder s filters).forM fun filter =>
    resolveMode s (codeOf server s filters store filter.codeSource)

/-- The blob of an object is cached before the setup, or is one of the filters' blobs, or its
signature is taken for a port. -/
def ObjectThere (blob : Blob) (store : Store) : Prop :=
  contains server.tables store (blob.sha256 s.sha256) = true ∨
    (∃ other ∈ blobsOf filters, other.sha256 s.sha256 = blob.sha256 s.sha256) ∨
    Port (blob.sha256 s.sha256)

/-- When nothing is missed: no configuration of a filter is bad, up to another exception of a
filter's code, and a reexecution that comes as far as to the object finds it. -/
structure Uploadable {server : Server δ υ} (s : Surroundings V) (filters : List FilterSpec)
    (blob : Blob) (before : Store × State server V) : Prop where
  /-- No configuration is bad. -/
  configured : ∀ message, modes server s filters before.1 ≠ .error (.filterDependencyError message)
  /-- The object is there. -/
  object : modes server s filters before.1 = .ok () →
    (before.2.context || (s.worlds 2).contextCreated) = true →
      ObjectThere server s filters blob before.1

end Condition

/-! ## Resolving and optimizing -/

section Resolving

variable {tables : UnicodeTables} {m : DiamondObject.Murmur} {blobs : Blobs}

/-- A filter whose code and blob argument are found gets its digest, and then its mode is read from
the code. -/
theorem resolve_of_found {filter : FilterSources.Filter} {k : ℕ} {code blob : String}
    (hnone : filter.cacheDigest = none) (hcode : filter.resolveCode tables blobs k = .ok code)
    (hblob : filter.resolveBlob tables blobs k = .ok blob) :
    ∃ data, filter.resolve tables m blobs k =
      (blobs.resolveMode k, { filter with cacheDigest := some (m.hash data) }) := by
  refine ⟨DiamondObject.encodeText
    (" ".intercalate ([code, filter.name] ++ filter.arguments ++ [blob])), ?_⟩
  rw [Filter.resolve, hnone, hcode, hblob]
  rfl

/-- A filter whose sources are found. -/
structure Found (tables : UnicodeTables) (blobs : Blobs) (k : ℕ) (filter : FilterSources.Filter) :
    Prop where
  /-- It has not been resolved. -/
  unresolved : filter.cacheDigest = none
  /-- The code is found. -/
  code : ∃ sig, filter.resolveCode tables blobs k = .ok sig
  /-- The blob argument is found. -/
  blob : ∃ sig, filter.resolveBlob tables blobs k = .ok sig

/-- When all sources are found, resolving the filters is resolving their modes. -/
theorem resolveAll_of_found {mode : FilterSources.Filter → Except FilterSources.Raised Unit}
    {filters : List FilterSources.Filter} {k : ℕ}
    (h : ∀ i filter, filters[i]? = some filter →
      Found tables blobs (k + i) filter ∧ blobs.resolveMode (k + i) = mode filter) :
    (resolveAll tables m blobs k filters).1 = filters.forM mode ∧
      (filters.forM mode = .ok () → ∀ filter ∈ (resolveAll tables m blobs k filters).2,
        ∃ data, filter.cacheDigest = some (m.hash data)) := by
  induction filters generalizing k with
  | nil => exact ⟨rfl, fun _ filter hfilter => by cases hfilter⟩
  | cons filter rest ih =>
    obtain ⟨⟨hnone, ⟨code, hcode⟩, blob, hblob⟩, hmode⟩ := h 0 filter rfl
    obtain ⟨data, hresolve⟩ := resolve_of_found (m := m) hnone hcode hblob
    rw [Nat.add_zero] at hmode hresolve
    have hrest := ih (k := k + 1) fun i other hother => by
      have hnext := h (i + 1) other hother
      rwa [← Nat.add_assoc, Nat.add_right_comm] at hnext
    have hcons : (filter :: rest).forM mode = mode filter >>= fun _ => rest.forM mode := rfl
    rw [resolveAll, hresolve, hmode, hcons]
    cases hresult : mode filter with
    | error raised => exact ⟨rfl, fun hok => by cases hok⟩
    | ok value =>
      refine ⟨hrest.1, ?_⟩
      intro hok other hother
      rcases List.mem_cons.mp hother with rfl | hother
      · exact ⟨data, rfl⟩
      · exact hrest.2 hok other hother

/-- The loop of `optimize` ends well for filters that all have a digest. -/
theorem exists_removeSeen {filters : List FilterSources.Filter}
    (h : ∀ filter ∈ filters, ∃ digest, filter.cacheDigest = some digest ∧ digest ≠ "")
    (seen : Finset String) : ∃ order, removeSeen filters seen = .ok order := by
  induction filters generalizing seen with
  | nil => exact ⟨[], rfl⟩
  | cons filter rest ih =>
    obtain ⟨digest, hdigest, hne⟩ := h filter List.mem_cons_self
    have hrest := ih fun other hother => h other (List.mem_cons_of_mem filter hother)
    rw [removeSeen, hdigest]
    simp only [if_neg hne]
    split
    · exact hrest seen
    · obtain ⟨order, horder⟩ := hrest (insert digest seen)
      rw [horder]
      exact ⟨_, rfl⟩

/-- A stack whose filters have digests can be optimized. -/
theorem exists_optimize {stack : FilterStack}
    (h : ∀ filter ∈ stack.order, ∃ digest, filter.cacheDigest = some digest ∧ digest ≠ "") :
    ∃ optimized, stack.optimize = .ok optimized := by
  unfold FilterStack.optimize
  split
  · exact ⟨_, rfl⟩
  · obtain ⟨order, horder⟩ := exists_removeSeen h ∅
    rw [horder]
    exact ⟨_, rfl⟩

/-- The filters of a stack are those it was built from; the sorting adds none. -/
theorem mem_of_new {filters : List FilterSources.Filter} {stack : FilterStack}
    (h : FilterStack.new filters = .ok stack) {filter : FilterSources.Filter}
    (hfilter : filter ∈ stack.order) : filter ∈ filters := by
  unfold FilterStack.new at h
  split at h
  · cases h
  · cases h
    obtain ⟨i, -, hi⟩ := List.mem_filterMap.mp hfilter
    exact List.mem_of_getElem? hi

end Resolving

/-! ## After the setup -/

section After

variable {server : Server δ υ} {s : Surroundings V} {filters : List FilterSpec}
  {before after : Store × State server V}

/-- A blob that the cache has is resolved to its signature. -/
theorem resolveSource_blobUri {tables : UnicodeTables} (htables : KeepsHex tables)
    {hash : Bytes → Sha256Hex} {store : Store} {blob : Blob} (hport : ¬Port (blob.sha256 hash))
    (hthere : contains tables store (blob.sha256 hash) = true) (missing : String) :
    resolveSource tables (fun sig => if contains tables store sig then .found else .missing) missing
      (blobUri hash blob) = .ok (blob.sha256 hash) := by
  have hhex : ∀ c ∈ (blob.sha256 hash).toList, IsHexDigit c := (hash blob.data).hex
  unfold resolveSource
  rw [blobUri, splitScheme_sha256 tables hhex hport]
  simp only [if_true]
  rw [htables _ hhex, if_pos hthere]

/-- The code of a filter is the file that the cache has under its signature. -/
theorem codeFile_blobUri {tables : UnicodeTables} (htables : KeepsHex tables)
    {hash : Bytes → Sha256Hex} {blob : Blob} (hport : ¬Port (blob.sha256 hash)) (store : Store) :
    codeFile tables store (blobUri hash blob) = getitem tables store (blob.sha256 hash) := by
  have hhex : ∀ c ∈ (blob.sha256 hash).toList, IsHexDigit c := (hash blob.data).hex
  rw [codeFile, blobUri, splitScheme_sha256 tables hhex hport, Option.bind_some, htables _ hhex]

/-- Every blob of a filter is there. -/
theorem SetUp.contains (h : SetUp s filters before after) {blob : Blob}
    (hblob : blob ∈ blobsOf filters) :
    contains server.tables after.1 (blob.sha256 s.sha256) = true := by
  rw [contains_eq, Blob.sha256, h.holds, Option.isSome_or, Bool.or_eq_true]
  exact Or.inr (isSome_uriData hblob)

/-- The filters of the stack are found, and their code is the cached one or the client's. -/
theorem SetUp.found (htables : KeepsHex server.tables) (h : SetUp s filters before after) {k : ℕ}
    {filter : FilterSources.Filter} (hfilter : after.2.filters.order[k]? = some filter) :
    Found server.tables (blobs server.tables s after.1 after.2.filters.order) k filter ∧
      (blobs server.tables s after.1 after.2.filters.order).resolveMode k =
        resolveMode s (codeOf server s filters before.1 filter.codeSource) := by
  obtain ⟨f, hf, rfl⟩ := List.mem_map.mp (mem_of_new h.stack (List.mem_of_getElem? hfilter))
  have hcode : f.code ∈ blobsOf filters := mem_blobsOf.mpr ⟨f, hf, Or.inl rfl⟩
  have hblob : f.blobArgument ∈ blobsOf filters := mem_blobsOf.mpr ⟨f, hf, Or.inr rfl⟩
  constructor
  · exact ⟨rfl, ⟨_, resolveSource_blobUri htables (h.noPort _ hcode) (h.contains hcode) _⟩,
      ⟨_, resolveSource_blobUri htables (h.noPort _ hblob) (h.contains hblob) _⟩⟩
  · have hsource : (f.config s.sha256).filter.codeSource = blobUri s.sha256 f.code := rfl
    have hthere := h.contains hcode
    rw [contains_eq, Blob.sha256, h.holds] at hthere
    obtain ⟨file, hfile⟩ := Option.isSome_iff_exists.mp hthere
    simp only [blobs, hfilter, Option.bind_some, hsource, codeOf,
      codeFile_blobUri htables (h.noPort _ hcode)]
    rw [Blob.sha256, h.holds, hfile, blobUri, Blob.sha256, hfile]
    rfl

/-- After the setup the modes are read from the client's own codes, in the order of the stack. -/
theorem SetUp.modes_eq (h : SetUp s filters before after) :
    modes server s filters before.1 = after.2.filters.order.forM fun filter =>
      resolveMode s (codeOf server s filters before.1 filter.codeSource) := by
  rw [modes, stackOrder, h.stack]

/-- The check ends as the modes of the filters do. -/
theorem SetUp.checkRunnable_eq (htables : KeepsHex server.tables)
    (h : SetUp s filters before after) (n : ℕ) :
    ∃ order, checkRunnable (world server s n after.1 after.2.filters.order) after.2 =
        ((match modes server s filters before.1 with
          | .ok () => .ok ()
          | .error (.filterDependencyError _) => .error (.rpcError .fCacheMiss)
          | .error raised => .error (.filter raised)),
          { after.2 with filters := { after.2.filters with order := order } }) ∧
      (modes server s filters before.1 = .ok () → ∀ filter ∈ order,
        ∃ data, filter.cacheDigest = some (server.murmur.hash data)) := by
  have hall : ∀ i filter, after.2.filters.order[i]? = some filter →
      Found server.tables (blobs server.tables s after.1 after.2.filters.order) (0 + i) filter ∧
        (blobs server.tables s after.1 after.2.filters.order).resolveMode (0 + i) =
          resolveMode s (codeOf server s filters before.1 filter.codeSource) := by
    intro i filter hfilter
    rw [Nat.zero_add]
    exact h.found htables hfilter
  obtain ⟨hresult, hdigests⟩ := resolveAll_of_found (m := server.murmur) hall
  rw [← h.modes_eq] at hresult hdigests
  have hworld : (world server s n after.1 after.2.filters.order).blobs =
      blobs server.tables s after.1 after.2.filters.order := rfl
  unfold checkRunnable
  split
  · rename_i hnone
    have hscope := h.scope
    rw [hnone] at hscope
    cases hscope
  · rw [hworld]
    split
    · rename_i order hresolve
      rw [hresolve] at hresult hdigests
      refine ⟨order, ?_, hdigests⟩
      rw [← hresult]
    · rename_i raised order hresolve
      rw [hresolve] at hresult hdigests
      refine ⟨order, ?_, hdigests⟩
      rw [← hresult]
      cases raised <;> rfl

/-- After the setup the server reports a cache miss exactly for a code whose configuration it
refuses: all files are there, and that error is the one that `check_runnable` takes for a missing
file. -/
theorem SetUp.runnable_iff (htables : KeepsHex server.tables) (h : SetUp s filters before after)
    (n : ℕ) :
    (checkRunnable (world server s n after.1 after.2.filters.order) after.2).1 =
        .error (.rpcError .fCacheMiss) ↔
      ∃ message, modes server s filters before.1 = .error (.filterDependencyError message) := by
  obtain ⟨order, hcheck, -⟩ := h.checkRunnable_eq htables n
  rw [hcheck]
  cases modes server s filters before.1 with
  | ok value => simp
  | error raised => cases raised <;> simp

/-- The object is found exactly where the condition says so: it was in the cache before, or the
setup has sent it. -/
theorem SetUp.objectAvailable_iff (h : SetUp s filters before after) (blob : Blob) :
    ∃ available, objectAvailable server.tables (ClientSearch.contains server.tables after.1)
        (blobUri s.sha256 blob) = .ok available ∧
      (available = true ↔ ObjectThere server s filters blob before.1) := by
  have hhex : ∀ c ∈ (blob.sha256 s.sha256).toList, IsHexDigit c := (s.sha256 blob.data).hex
  by_cases hport : Port (blob.sha256 s.sha256)
  · obtain ⟨path, hsplit⟩ := splitScheme_port server.tables hport (sha256_ne_nil s.sha256 blob)
    refine ⟨true, ?_, iff_of_true rfl (Or.inr (Or.inr hport))⟩
    unfold objectAvailable
    rw [blobUri, hsplit]
    rfl
  · refine ⟨ClientSearch.contains server.tables after.1 (blob.sha256 s.sha256), ?_, ?_⟩
    · unfold objectAvailable
      rw [blobUri, splitScheme_sha256 server.tables hhex hport]
      simp only [if_true, if_neg (notMem_of_hex hhex (c := '\x00') (by decide))]
    · rw [contains_eq, Blob.sha256, h.holds, Option.isSome_or, Bool.or_eq_true, ← contains_eq,
        ObjectThere, or_iff_left hport]
      refine or_congr Iff.rfl ⟨?_, ?_⟩
      · intro hdata
        obtain ⟨data, hdata⟩ := Option.isSome_iff_exists.mp hdata
        obtain ⟨other, hother, huri, -⟩ := uriData_eq_some hdata
        exact ⟨other, hother, ((String.append_right_inj _).mp huri).symm⟩
      · rintro ⟨other, hother, heq⟩
        have hthere : ((uriData s.sha256 filters).get? (blobUri s.sha256 other)).isSome :=
          isSome_uriData hother
        rwa [blobUri, heq] at hthere

/-- The evaluation of an object that is there does not miss it. -/
theorem evaluation_of_available (s : Surroundings V) {store : Store} {objectId : String}
    (h : objectAvailable server.tables (ClientSearch.contains server.tables store) objectId = .ok true)
    (n : ℕ) (order filters : List FilterSources.Filter) (attrs : Option (List String)) :
    ∃ result updates, (world server s n store order).evaluation filters objectId attrs =
      (result, updates) ∧ result ≠ .error (some .fCacheMiss) := by
  simp only [world, h]
  rcases s.evaluateObject n filters objectId attrs with ⟨_ | attrs, updates⟩
  · exact ⟨_, _, rfl, by simp⟩
  · exact ⟨_, _, rfl, by simp⟩

variable [AddCommGroup V]

/-- A reexecution after the setup misses exactly when the condition fails. -/
theorem SetUp.misses_iff (htables : KeepsHex server.tables)
    (hmurmur : ∀ data, server.murmur.hash data ≠ "") (h : SetUp s filters before after)
    (blob : Blob) (attrs : Option (List String)) (n : ℕ) :
    (handle after.2 ⟨.reexecuteFilters (blobUri s.sha256 blob) attrs,
        world server s n after.1 after.2.filters.order⟩).1 = .error (.rpcError .fCacheMiss) ↔
      (∃ message, modes server s filters before.1 = .error (.filterDependencyError message)) ∨
        modes server s filters before.1 = .ok () ∧
          (before.2.context || (s.worlds n).contextCreated) = true ∧
          ¬ObjectThere server s filters blob before.1 := by
  obtain ⟨order, hcheck, hdigests⟩ := h.checkRunnable_eq htables n
  simp only [handle, reexecuteFilters, prepare, hcheck]
  cases hmodes : modes server s filters before.1 with
  | error raised => cases raised <;> simp
  | ok value =>
    have hresolved : ∀ filter ∈ ({ after.2.filters with order := order } : FilterStack).order,
        ∃ digest, filter.cacheDigest = some digest ∧ digest ≠ "" := by
      intro filter hfilter
      obtain ⟨data, hdata⟩ := hdigests hmodes filter hfilter
      exact ⟨_, hdata, hmurmur data⟩
    obtain ⟨optimized, hoptimize⟩ := exists_optimize hresolved
    obtain ⟨available, havailable, hthere⟩ := h.objectAvailable_iff blob
    have hcreated : (world server s n after.1 after.2.filters.order).contextCreated =
      (s.worlds n).contextCreated := rfl
    simp only [hoptimize, h.context, hcreated]
    by_cases hcontext : (before.2.context || (s.worlds n).contextCreated) = true
    · simp only [if_pos hcontext]
      cases available with
      | false =>
        have hmissing : (world server s n after.1 after.2.filters.order).evaluation optimized.order
            (blobUri s.sha256 blob) attrs = (.error (some .fCacheMiss), []) := by
          simp only [world, havailable]
        simp [hmissing, hcontext, ← hthere]
      | true =>
        obtain ⟨result, updates, hevaluation, hne⟩ := evaluation_of_available s havailable
          n after.2.filters.order optimized.order attrs
        simp only [hevaluation]
        rcases result with ⟨_ | error⟩ | attrs
        · simp [← hthere]
        · simpa [← hthere] using hne
        · simp [← hthere]
    · simp only [if_neg hcontext]
      simp [hcontext]

end After

/-! ## Uploads -/

section Uploads

variable {server : Server δ υ} [AddCommGroup V]

/-- The uploads satisfy what the server asked for. -/
structure Satisfied (s : Surroundings V) (cookies : List Text) (filters : List FilterSpec)
    (blob : Blob) (attrs : Option (List String)) (before : Store × State server V) : Prop where
  /-- After the setup the check of the server misses nothing. -/
  runnable : ∀ after, setup s cookies filters before = some after → ∀ n,
    (checkRunnable (world server s n after.1 after.2.filters.order) after.2).1 ≠
      .error (.rpcError .fCacheMiss)
  /-- An object that is missed is sent, and not missed again. -/
  retried : ∀ evaluation, evaluate s cookies filters blob attrs before = some evaluation →
    evaluation.first = .error (.rpcError .fCacheMiss) →
      (∃ data, evaluation.uploaded = some [data] ∧
        (s.sha256 data).text = blob.sha256 s.sha256) ∧
      ∃ result, evaluation.second = some result ∧ result ≠ .error (.rpcError .fCacheMiss)

variable {s : Surroundings V} {filters : List FilterSpec} {before after : Store × State server V}

/-- Nothing can be sent in place of an object that is missed: its text is no data. -/
theorem reexecute_of_miss {blob : Blob} {attrs : Option (List String)}
    (h : (reexecute s blob attrs after).first = .error (.rpcError .fCacheMiss)) :
    (reexecute s blob attrs after).uploaded = none ∧
      (handle after.2 ⟨.reexecuteFilters (blobUri s.sha256 blob) attrs,
        world server s 2 after.1 after.2.filters.order⟩).1 = .error (.rpcError .fCacheMiss) := by
  have hsend : ∀ state : State server V,
      sendBlobs s 3 [.text (ofString (blob.str s.sha256))] (after.1, state) = none := by
    intro state
    rw [sendBlobs, encode_text]
    rfl
  unfold reexecute at h ⊢
  dsimp only at h ⊢
  split at h
  · rename_i state hhandle
    rw [hhandle, hsend]
    exact ⟨rfl, rfl⟩
  · rename_i result state hne hhandle
    exact absurd h hne

/-- The first end of a reexecution that misses is the miss itself, whatever becomes of the
upload. -/
theorem reexecute_first_of_miss {blob : Blob} {attrs : Option (List String)}
    (h : (handle after.2 ⟨.reexecuteFilters (blobUri s.sha256 blob) attrs,
      world server s 2 after.1 after.2.filters.order⟩).1 = .error (.rpcError .fCacheMiss)) :
    (reexecute s blob attrs after).first = .error (.rpcError .fCacheMiss) := by
  unfold reexecute
  dsimp only
  split
  · split <;> rfl
  · rename_i result state hne hhandle
    rw [hhandle] at h
    exact h

/-- Once the setup has completed, the uploads satisfy the server exactly when no filter's code is
a bad configuration and the object is not missed. -/
theorem uploads_satisfy_iff (htables : KeepsHex server.tables)
    (hmurmur : ∀ data, server.murmur.hash data ≠ "") {cookies : List Text}
    (hsetup : (setup s cookies filters before).isSome) (blob : Blob)
    (attrs : Option (List String)) :
    Satisfied s cookies filters blob attrs before ↔ Uploadable s filters blob before := by
  obtain ⟨after, hafter⟩ := Option.isSome_iff_exists.mp hsetup
  have h := setUp_of_setup htables hafter
  have hevaluate : evaluate s cookies filters blob attrs before =
      some (reexecute s blob attrs after) := by
    rw [evaluate, hafter]
    rfl
  have hmisses := h.misses_iff htables hmurmur blob attrs 2
  constructor
  · rintro ⟨hrunnable, hretried⟩
    have hfirst : (reexecute s blob attrs after).first ≠ .error (.rpcError .fCacheMiss) := by
      intro hmiss
      obtain ⟨⟨data, hdata, -⟩, -⟩ := hretried _ hevaluate hmiss
      rw [(reexecute_of_miss hmiss).1] at hdata
      cases hdata
    have hno := fun hor => hfirst (reexecute_first_of_miss (hmisses.mpr hor))
    constructor
    · intro message hmessage
      exact hno (Or.inl ⟨message, hmessage⟩)
    · intro hmodes hcontext
      by_contra hthere
      exact hno (Or.inr ⟨hmodes, hcontext, hthere⟩)
  · rintro ⟨hconfigured, hobject⟩
    constructor
    · intro other hother n hmiss
      cases hafter.symm.trans hother
      obtain ⟨message, hmessage⟩ := (h.runnable_iff htables n).mp hmiss
      exact hconfigured message hmessage
    · intro evaluation hevaluation hmiss
      cases hevaluate.symm.trans hevaluation
      rcases hmisses.mp (reexecute_of_miss hmiss).2 with ⟨message, hmessage⟩ | ⟨hmodes, hcontext, hthere⟩
      · exact absurd hmessage (hconfigured message)
      · exact absurd (hobject hmodes hcontext) hthere

end Uploads

/-- A hash of a single digit behind 63 others. -/
def digitSha256 (c : Char) (h : IsHexDigit c) : Sha256Hex where
  text := String.ofList (List.replicate 63 'a' ++ [c])
  length := by rw [String.toList_ofList]; rfl
  hex := by
    intro d hd
    rw [String.toList_ofList] at hd
    rcases List.mem_append.mp hd with hd | hd
    · rw [List.eq_of_mem_replicate hd]
      decide
    · rwa [List.mem_singleton.mp hd]

/-- A hash that tells some short data apart. -/
def shortSha256 : Bytes → Sha256Hex
  | [] => digitSha256 '0' (by decide)
  | [1] => digitSha256 '1' (by decide)
  | [2] => digitSha256 '2' (by decide)
  | [3] => digitSha256 '3' (by decide)
  | _ => digitSha256 'f' (by decide)

/-- A server whose digests are not empty. -/
def plainServer : Server Unit Unit :=
  { sampleServer with murmur := ⟨fun data => "0" ++ DiamondObject.hexMurmur.hash data, by
      intro data c hc
      rw [String.toList_append] at hc
      rcases List.mem_append.mp hc with hzero | hdigit
      · rw [List.mem_singleton.mp hzero]
        decide
      · exact DiamondObject.hexMurmur.hex data c hdigit⟩ }

/-- Code without a configuration, and runners that give no attributes. -/
def plainSurroundings : Surroundings ℤ where
  sha256 := shortSha256
  iterate := inOrder
  mem_iterate _ _ := mem_inOrder
  firstLine _ := some ""
  dockerConfig _ := .error ""
  worlds _ := sampleWorld
  evaluateObject _ _ _ _ := (some [], [])

/-- Two filters with the same blob argument, and a third without data that the first needs. -/
def plainSpecs : List FilterSpec :=
  [⟨"f", ⟨[1]⟩, [], ⟨[3]⟩, ["h"], .zero, .one⟩, ⟨"g", ⟨[2]⟩, [], ⟨[3]⟩, [], .zero, .one⟩,
    ⟨"h", ⟨[]⟩, [], ⟨[]⟩, [], .zero, .one⟩]

/-- Nothing is cached, and the search is new. -/
def atFirst : Store × State plainServer ℤ := (Dict.empty, .new plainServer ℤ)

/-- The setup sends four blobs, each of them once. -/
theorem setup_plainSpecs :
    (setup plainSurroundings [] plainSpecs atFirst).map (fun after => after.1.keys.length) =
      some 4 := by
  decide +kernel

/-- The digests of the sample server are not empty, so that `optimize` takes them for resolved
filters. -/
theorem hash_plainServer_ne (data : Bytes) : plainServer.murmur.hash data ≠ "" := by
  intro hempty
  have hlist := congrArg String.toList hempty
  rw [plainServer, String.toList_append] at hlist
  cases hlist

/-- None of the three sample codes is a configuration. -/
theorem modes_plainSpecs :
    modes plainServer plainSurroundings plainSpecs atFirst.1 = .ok () := rfl

/-- The setup of the three filters completes. -/
theorem isSome_setup_plainSpecs :
    (setup plainSurroundings [] plainSpecs atFirst).isSome := by
  have hsetup := setup_plainSpecs
  cases h : setup plainSurroundings [] plainSpecs atFirst with
  | none =>
    rw [h] at hsetup
    cases hsetup
  | some after => rfl

/-- The setup sends four missing blobs; one of them is the blob argument of two filters, and also
the object that is then evaluated. -/
theorem uploads_satisfy_plainSpecs :
    Satisfied plainSurroundings [] plainSpecs ⟨[3]⟩ none atFirst := by
  refine (uploads_satisfy_iff (fun _ _ => rfl) hash_plainServer_ne isSome_setup_plainSpecs ⟨[3]⟩
    none).mpr ⟨?_, ?_⟩
  · intro message h
    rw [modes_plainSpecs] at h
    cases h
  · intro _ _
    exact Or.inr (Or.inl ⟨⟨[3]⟩, List.mem_cons_of_mem _ List.mem_cons_self, rfl⟩)

/-- The search after a setup without filters. -/
def unfiltered : Store × State plainServer ℤ :=
  (Dict.empty, { State.new plainServer ℤ with scope := some [] })

/-- Without filters there is nothing to send, and the setup commits a scope without cookies. -/
theorem setup_unfiltered : setup plainSurroundings [] [] atFirst = some unfiltered := by
  have hiterate : plainSurroundings.iterate ∅ = [] := rfl
  have hhandle : handle atFirst.2 ⟨.setup ⟨[], []⟩,
      world plainServer plainSurroundings 0 atFirst.1 []⟩ = (.ok (.blobList ∅), unfiltered.2) := rfl
  simp only [setup, List.map_nil, hhandle, hiterate]
  rfl

/-- Without filters nothing is sent during the setup. The object is missed, and instead of its
data its text is packed, which raises an exception. -/
theorem object_not_uploaded :
    (setup plainSurroundings [] [] atFirst).isSome ∧
      ¬Satisfied plainSurroundings [] [] ⟨[]⟩ none atFirst := by
  refine ⟨by rw [setup_unfiltered]; rfl, ?_⟩
  intro h
  have hevaluate : evaluate plainSurroundings [] [] ⟨[]⟩ none atFirst =
      some (reexecute plainSurroundings ⟨[]⟩ none unfiltered) := by
    rw [evaluate, setup_unfiltered]
    rfl
  obtain ⟨⟨data, hdata, -⟩, -⟩ := h.retried _ hevaluate rfl
  cases hdata

end OpenDiamond.ClientSearch
