import OpenDiamond.FilterSources

/-!
# Resolving filters

A filter takes its code and its blob argument from the blob cache, commits them together with
the digest, and only then reads the code file to learn how to connect. The mode is not learnt
again, because a filter with a code path counts as resolved.
-/

namespace OpenDiamond.FilterResolution

open Lib.OrderedDict DiamondObject
open FilterSources (UnicodeTables splitScheme Raised)

/-- What a lookup in the blob cache comes to. -/
inductive Lookup (α : Type) where
  /-- A value. -/
  | found (value : α)
  /-- `KeyError`. -/
  | missing
  /-- Another exception. -/
  | failed

/-- A value in the configuration of a docker filter. -/
inductive Setting where
  /-- A string. -/
  | text (value : String)
  /-- Another value and what it is formatted to, none where formatting raises. -/
  | other (formatted : Option String)

/-- A code file, as far as it can be read. -/
structure CodeFile where
  /-- Its first hundred characters, none where opening or decoding raises. -/
  head : Option (List Char)
  /-- Its YAML document, or the text of the exception if it is not a mapping that can be read. -/
  config : Except String (Dict String Setting)

/-- What `resolve` reads of its surroundings. -/
structure Environment where
  /-- `blob_cache.executable_path`. -/
  executablePath : String → Lookup String
  /-- `blob_cache[·]`. -/
  getitem : String → Lookup Bytes
  /-- The file at a path. -/
  codeFile : String → CodeFile

/-- The mode of a filter. -/
inductive Mode where
  /-- An executable. -/
  | default
  /-- A container. -/
  | docker
deriving DecidableEq

/-- A wrapper that `_resolve_mode` returns. -/
inductive Connector where
  /-- Run the code. -/
  | process
  /-- A container that listens on a port. -/
  | socat (image command : Setting)
  /-- A container that is connected by named pipes. -/
  | fifo (image command : Setting)

/-- The mode that a wrapper is for. -/
def Connector.mode : Connector → Mode
  | process => .default
  | socat _ _ => .docker
  | fifo _ _ => .docker

/-- A `Filter` with all that `resolve` sets. -/
structure Filter extends FilterSources.Filter where
  /-- Path of the code. -/
  codePath : Option String
  /-- Signature of the code. -/
  signature : Option String
  /-- The blob argument. -/
  blob : Option Bytes
  /-- The mode. -/
  mode : Option Mode
  /-- `connect`, none for the method of the class that raises. -/
  connect : Option Connector

/-- The arguments of the constructor. -/
structure Config where
  /-- Name. -/
  name : String
  /-- URI of the code. -/
  codeSource : String
  /-- URI of the blob argument. -/
  blobSource : String
  /-- Lower threshold. -/
  minScore : Lib.Binary64.Double
  /-- Upper threshold. -/
  maxScore : Lib.Binary64.Double
  /-- Arguments. -/
  arguments : List String
  /-- Names of the filters that have to run before. -/
  dependencies : List String

/-- `Filter.__init__`. -/
def Filter.new (config : Config) : Filter where
  name := config.name
  codeSource := config.codeSource
  blobSource := config.blobSource
  minScore := config.minScore
  maxScore := config.maxScore
  arguments := config.arguments
  dependencies := config.dependencies
  cacheDigest := none
  codePath := none
  signature := none
  blob := none
  mode := none
  connect := none

/-- `_resolve_code` and `_resolve_blob`: the value and the signature. -/
def resolveSource {α : Type} (tables : UnicodeTables) (lookup : String → Lookup α)
    (missing uri : String) : Except Raised (α × String) :=
  match splitScheme tables uri with
  | none => .error .valueError
  | some (scheme, path) =>
    if scheme = "sha256" then
      match lookup (tables.lower path) with
      | .found value => .ok (value, tables.lower path)
      | .missing => .error (.filterDependencyError missing)
      | .failed => .error .external
    else .error .filterUnsupportedSource

/-- `Filter._resolve_code`. -/
def Filter.resolveCode (tables : UnicodeTables) (env : Environment) (filter : Filter) :
    Except Raised (String × String) :=
  resolveSource tables env.executablePath ("Missing code for filter " ++ filter.name)
    filter.codeSource

/-- `Filter._resolve_blob`. -/
def Filter.resolveBlob (tables : UnicodeTables) (env : Environment) (filter : Filter) :
    Except Raised (Bytes × String) :=
  resolveSource tables env.getitem ("Missing blob for filter " ++ filter.name) filter.blobSource

/-- `scan_mode`. -/
def scanMode (file : CodeFile) : Option Mode :=
  file.head.map fun first =>
    if "diamond-docker-filter".toList <:+: first then .docker else .default

/-- The wrapper for a `connect_method`. -/
def connectBy (image command : Setting) : Setting → Except Raised Connector
  | .text method =>
    if method = "default" then .ok (.socat image command)
    else if method = "fifo" then .ok (.fifo image command)
    else .error (.filterDependencyError ("Unknown connect_method: " ++ method))
  | .other (some formatted) =>
    .error (.filterDependencyError ("Unknown connect_method: " ++ formatted))
  | .other none => .error .external

/-- The part of `_resolve_mode` after the mode is set. -/
def connector (file : CodeFile) : Mode → Except Raised Connector
  | .default => .ok .process
  | .docker =>
    match file.config with
    | .error text => .error (.filterDependencyError text)
    | .ok config =>
      match config.get? "docker_image" with
      | none => .error (.filterDependencyError "'docker_image'")
      | some image =>
        match config.get? "filter_command" with
        | none => .error (.filterDependencyError "'filter_command'")
        | some command =>
          connectBy image command ((config.get? "connect_method").getD (.text "default"))

/-- `Filter._resolve_mode`. -/
def Filter.resolveMode (env : Environment) (codePath : String) (filter : Filter) :
    Except Raised Connector × Filter :=
  match scanMode (env.codeFile codePath) with
  | none => (.error .external, filter)
  | some mode => (connector (env.codeFile codePath) mode, { filter with mode := some mode })

/-- The fields that `resolve` commits. -/
def Filter.commit (m : Murmur) (codePath codeSignature blobSignature : String) (blob : Bytes)
    (filter : Filter) : Filter :=
  let summary := [codeSignature, filter.name] ++ filter.arguments ++ [blobSignature]
  { filter with
    codePath := some codePath
    signature := some codeSignature
    blob := some blob
    cacheDigest := some (m.hash (encodeText (" ".intercalate summary))) }

/-- `Filter.resolve`. -/
def Filter.resolve (tables : UnicodeTables) (m : Murmur) (env : Environment) (filter : Filter) :
    Except Raised Unit × Filter :=
  if filter.codePath.isSome then (.ok (), filter)
  else
    match filter.resolveCode tables env with
    | .error raised => (.error raised, filter)
    | .ok (codePath, codeSignature) =>
      match filter.resolveBlob tables env with
      | .error raised => (.error raised, filter)
      | .ok (blob, blobSignature) =>
        match (filter.commit m codePath codeSignature blobSignature blob).resolveMode env codePath with
        | (.error raised, filter) => (.error raised, filter)
        | (.ok connector, filter) => (.ok (), { filter with connect := some connector })

/-- The loop of `_check_runnable`, with the surroundings of each call. -/
def resolveAll (tables : UnicodeTables) (m : Murmur) (start : ℕ → Environment) :
    ℕ → List Filter → Except Raised Unit × List Filter
  | _, [] => (.ok (), [])
  | k, filter :: rest =>
    match filter.resolve tables m (start k) with
    | (.error raised, filter) => (.error raised, filter :: rest)
    | (.ok (), filter) =>
      let (result, rest) := resolveAll tables m start (k + 1) rest
      (result, filter :: rest)

/-- The filters after some starts. -/
def filtersAfter (tables : UnicodeTables) (m : Murmur) (starts : List (ℕ → Environment))
    (filters : List Filter) : List Filter :=
  starts.foldl (fun filters start => (resolveAll tables m start 0 filters).2) filters

/-! ## What one call does -/

/-- `connect` is bound to a wrapper for the mode of the filter. -/
def Filter.Bound (filter : Filter) : Prop :=
  ∃ connector, filter.connect = some connector ∧ filter.mode = some connector.mode

/-- The code, at a path, and the blob argument are available. -/
structure Found (tables : UnicodeTables) (env : Environment) (filter : Filter)
    (codePath : String) : Prop where
  /-- The code. -/
  code : ∃ signature, filter.resolveCode tables env = .ok (codePath, signature)
  /-- The blob argument. -/
  blob : ∃ value, filter.resolveBlob tables env = .ok value

/-- The code file can be read, and it is no docker configuration or a complete one with a known
method. -/
def CodeFile.Usable (file : CodeFile) : Prop :=
  ∃ mode wrapper, scanMode file = some mode ∧ connector file mode = .ok wrapper

/-- A connector that is read from a configuration runs its filter in a container. -/
theorem mode_of_connectBy {image command method : Setting} {wrapper : Connector}
    (h : connectBy image command method = .ok wrapper) : wrapper.mode = .docker := by
  unfold connectBy at h
  split at h
  · split_ifs at h
    · cases h
      rfl
    · cases h
      rfl
  · cases h
  · cases h

/-- A wrapper is for the mode that was found. -/
theorem mode_of_connector {file : CodeFile} {mode : Mode} {wrapper : Connector}
    (h : connector file mode = .ok wrapper) : wrapper.mode = mode := by
  cases mode with
  | default =>
    cases h
    rfl
  | docker =>
    simp only [connector] at h
    split at h
    · cases h
    · split at h
      · cases h
      · split at h
        · cases h
        · exact mode_of_connectBy h

section Calls

variable {tables : UnicodeTables} {m : Murmur} {env : Environment} {filter : Filter}

/-- A filter that was resolved before is left as it is. -/
theorem resolve_of_isSome (h : filter.codePath.isSome) :
    filter.resolve tables m env = (.ok (), filter) := by
  rw [Filter.resolve, if_pos h]

/-- A filter whose code or blob argument is not available stays as it is. -/
theorem resolve_of_not_found (h : filter.codePath = none)
    (hfound : ∀ codePath, ¬Found tables env filter codePath) :
    ∃ raised, filter.resolve tables m env = (.error raised, filter) := by
  unfold Filter.resolve
  rw [h]
  cases hcode : filter.resolveCode tables env with
  | error raised => exact ⟨raised, rfl⟩
  | ok code =>
    cases hblob : filter.resolveBlob tables env with
    | error raised => exact ⟨raised, rfl⟩
    | ok blob => exact absurd ⟨⟨code.2, hcode⟩, ⟨blob, hblob⟩⟩ (hfound code.1)

/-- A filter that is found is committed before its mode is known. -/
theorem resolve_of_found {codePath : String} (h : filter.codePath = none)
    (hfound : Found tables env filter codePath) :
    ∃ committed : Filter, committed.codePath = some codePath ∧
      (∀ raised read, committed.resolveMode env codePath = (.error raised, read) →
        filter.resolve tables m env = (.error raised, read)) ∧
      ∀ wrapper read, committed.resolveMode env codePath = (.ok wrapper, read) →
        filter.resolve tables m env = (.ok (), { read with connect := some wrapper }) := by
  obtain ⟨⟨signature, hcode⟩, ⟨blob, hblob⟩⟩ := hfound
  have hnone : ¬filter.codePath.isSome := by
    rw [h]
    exact Bool.false_ne_true
  refine ⟨filter.commit m codePath signature blob.2 blob.1, rfl, ?_, ?_⟩
  · intro raised read hread
    simp only [Filter.resolve, if_neg hnone, hcode, hblob, hread]
  · intro wrapper read hread
    simp only [Filter.resolve, if_neg hnone, hcode, hblob, hread]

/-- A filter with a usable code file is bound. -/
theorem resolve_of_usable {codePath : String} (h : filter.codePath = none)
    (hfound : Found tables env filter codePath) (husable : (env.codeFile codePath).Usable) :
    ∃ filter', filter.resolve tables m env = (.ok (), filter') ∧ filter'.Bound := by
  obtain ⟨committed, _, _, hresolve⟩ := resolve_of_found (m := m) h hfound
  obtain ⟨mode, wrapper, hmode, hwrapper⟩ := husable
  have hread : committed.resolveMode env codePath =
      (.ok wrapper, { committed with mode := some mode }) := by
    simp only [Filter.resolveMode, hmode, hwrapper]
  exact ⟨_, hresolve _ _ hread, wrapper, rfl, congrArg some (mode_of_connector hwrapper).symm⟩

/-- A filter with another code file is committed and not bound. -/
theorem resolve_of_not_usable {codePath : String} (h : filter.codePath = none)
    (hfound : Found tables env filter codePath) (husable : ¬(env.codeFile codePath).Usable) :
    ∃ raised filter', filter.resolve tables m env = (.error raised, filter') ∧
      filter'.codePath = some codePath := by
  obtain ⟨committed, hpath, hresolve, _⟩ := resolve_of_found (m := m) h hfound
  cases hmode : scanMode (env.codeFile codePath) with
  | none =>
    have hread : committed.resolveMode env codePath = (.error .external, committed) := by
      simp only [Filter.resolveMode, hmode]
    exact ⟨_, _, hresolve _ _ hread, hpath⟩
  | some mode =>
    cases hwrapper : connector (env.codeFile codePath) mode with
    | ok wrapper => exact absurd ⟨mode, wrapper, hmode, hwrapper⟩ husable
    | error raised =>
      have hread : committed.resolveMode env codePath =
          (.error raised, { committed with mode := some mode }) := by
        simp only [Filter.resolveMode, hmode, hwrapper]
      exact ⟨_, _, hresolve _ _ hread, hpath⟩

/-- If this filter is to be read now, it can be. -/
def SoundCall (tables : UnicodeTables) (env : Environment) (filter : Filter) : Prop :=
  filter.codePath = none → ∀ codePath, Found tables env filter codePath →
    (env.codeFile codePath).Usable

/-- The filter is not resolved, or it is bound. -/
def Filter.Consistent (filter : Filter) : Prop := filter.codePath = none ∨ filter.Bound

/-- A sound call leaves the filter as it is and raises, or returns with the filter bound. -/
theorem resolve_of_sound (hsound : SoundCall tables env filter) (h : filter.Consistent) :
    (∃ raised, filter.resolve tables m env = (.error raised, filter)) ∨
      ∃ filter', filter.resolve tables m env = (.ok (), filter') ∧ filter'.Bound := by
  cases hpath : filter.codePath with
  | some path =>
    have hsome : filter.codePath.isSome := by
      rw [hpath]
      rfl
    have hbound : filter.Bound := by
      rcases h with hnone | hbound
      · rw [hpath] at hnone
        cases hnone
      · exact hbound
    exact Or.inr ⟨filter, resolve_of_isSome hsome, hbound⟩
  | none =>
    by_cases hfound : ∃ codePath, Found tables env filter codePath
    · obtain ⟨codePath, hfound⟩ := hfound
      exact Or.inr (resolve_of_usable hpath hfound (hsound hpath codePath hfound))
    · exact Or.inl (resolve_of_not_found hpath fun codePath hat => hfound ⟨codePath, hat⟩)

/-- A call that raises and leaves the filter as it is is sound. -/
theorem sound_of_unchanged
    (h : ∀ raised filter', filter.resolve tables m env = (.error raised, filter') →
      filter' = filter) : SoundCall tables env filter := by
  intro hpath codePath hfound
  by_contra husable
  obtain ⟨raised, filter', hresolve, hcommitted⟩ :=
    resolve_of_not_usable (m := m) hpath hfound husable
  rw [h raised filter' hresolve, hpath] at hcommitted
  cases hcommitted

end Calls

/-! ## The coarser model -/

section Coarse

variable {tables : UnicodeTables} {m : Murmur} {env : Environment} {filter : Filter}

/-- How a lookup ends, without its value. -/
def Lookup.access {α : Type} : Lookup α → FilterSources.Access
  | found _ => .found
  | missing => .missing
  | failed => .failed

/-- The surroundings of a call, as the model of filter sources has them. -/
def Environment.blobs (tables : UnicodeTables) (env : Environment) (filter : Filter) :
    FilterSources.Blobs where
  executablePath _ sig := (env.executablePath sig).access
  getitem _ sig := (env.getitem sig).access
  resolveMode _ :=
    match filter.resolveCode tables env with
    | .error _ => .ok ()
    | .ok (codePath, _) => (filter.resolveMode env codePath).1.map fun _ => ()

/-- Looking a source up gives its content and its name; the model without contents gives the
name. -/
theorem resolveSource_access {α : Type} (lookup : String → Lookup α) (missing uri : String) :
    FilterSources.resolveSource tables (fun sig => (lookup sig).access) missing uri =
      (resolveSource tables lookup missing uri).map Prod.snd := by
  unfold FilterSources.resolveSource resolveSource
  cases splitScheme tables uri with
  | none => rfl
  | some parts =>
    by_cases hscheme : parts.1 = "sha256"
    · simp only [if_pos hscheme]
      cases lookup (tables.lower parts.2) <;> rfl
    · simp only [if_neg hscheme]
      rfl

/-- The mode is read from the code alone, so that it does not matter what was stored before. -/
theorem resolveMode_commit (m : Murmur) (env : Environment) (filter : Filter)
    (codePath codePath' codeSignature blobSignature : String) (blob : Bytes) :
    ((filter.commit m codePath' codeSignature blobSignature blob).resolveMode env codePath).1 =
      (filter.resolveMode env codePath).1 := by
  unfold Filter.resolveMode
  cases scanMode (env.codeFile codePath) <;> rfl

/-- Reading the mode changes nothing that the stack looks at. -/
theorem toFilter_resolveMode (env : Environment) (filter : Filter) (codePath : String) :
    (filter.resolveMode env codePath).2.toFilter = filter.toFilter := by
  unfold Filter.resolveMode
  cases scanMode (env.codeFile codePath) <;> rfl

/-- A call does to the digest what the model of filter sources says. -/
theorem resolve_toFilter (k : ℕ) (h : filter.codePath.isSome = filter.cacheDigest.isSome) :
    filter.toFilter.resolve tables m (env.blobs tables filter) k =
      ((filter.resolve tables m env).1, (filter.resolve tables m env).2.toFilter) := by
  unfold FilterSources.Filter.resolve Filter.resolve
  rw [← h]
  by_cases hsome : filter.codePath.isSome
  · rw [if_pos hsome, if_pos hsome]
  · rw [if_neg hsome, if_neg hsome]
    have hcode : filter.toFilter.resolveCode tables (env.blobs tables filter) k =
        (filter.resolveCode tables env).map Prod.snd := resolveSource_access _ _ _
    have hblob : filter.toFilter.resolveBlob tables (env.blobs tables filter) k =
        (filter.resolveBlob tables env).map Prod.snd := resolveSource_access _ _ _
    rw [hcode, hblob]
    cases hfound : filter.resolveCode tables env with
    | error raised => rfl
    | ok code =>
      cases filter.resolveBlob tables env with
      | error raised => rfl
      | ok blob =>
        have hmode : (env.blobs tables filter).resolveMode k =
            (filter.resolveMode env code.1).1.map fun _ => () := by
          simp only [Environment.blobs, hfound]
        have hcommit := resolveMode_commit m env filter code.1 code.1 code.2 blob.2 blob.1
        have hkeep := toFilter_resolveMode env
          (filter.commit m code.1 code.2 blob.2 blob.1) code.1
        simp only [Except.map]
        rw [hmode, ← hcommit]
        cases hread : (filter.commit m code.1 code.2 blob.2 blob.1).resolveMode env code.1 with
        | mk result read =>
          rw [hread] at hkeep
          cases result with
          | error raised => exact Prod.ext rfl hkeep.symm
          | ok wrapper => exact Prod.ext rfl hkeep.symm

end Coarse

/-! ## Histories of starts -/

section Histories

variable {tables : UnicodeTables} {m : Murmur}

/-- In a sound loop over the filters, every filter stays consistent, and all of them are bound
if it returns. -/
theorem resolveAll_of_sound {start : ℕ → Environment} {k : ℕ} {filters : List Filter}
    (h : ∀ filter ∈ filters, filter.Consistent)
    (hsound : ∀ front filter back, filters = front ++ filter :: back →
      (resolveAll tables m start k front).1 = .ok () →
        SoundCall tables (start (k + front.length)) filter) :
    (∀ filter ∈ (resolveAll tables m start k filters).2, filter.Consistent) ∧
      ((resolveAll tables m start k filters).1 = .ok () →
        ∀ filter ∈ (resolveAll tables m start k filters).2, filter.Bound) := by
  induction filters generalizing k with
  | nil =>
    exact ⟨fun _ hmem => absurd hmem List.not_mem_nil,
      fun _ _ hmem => absurd hmem List.not_mem_nil⟩
  | cons filter rest ih =>
    have hrest : ∀ other ∈ rest, other.Consistent :=
      fun other hother => h other (List.mem_cons_of_mem _ hother)
    have hfirst : SoundCall tables (start k) filter := hsound [] filter rest rfl rfl
    rcases resolve_of_sound (m := m) hfirst (h filter List.mem_cons_self) with
      ⟨raised, hresolve⟩ | ⟨filter', hresolve, hbound⟩
    · have hloop : resolveAll tables m start k (filter :: rest) =
          (.error raised, filter :: rest) := by
        simp only [resolveAll, hresolve]
      rw [hloop]
      exact ⟨h, by rintro ⟨⟩⟩
    · have hloop : ∀ others, resolveAll tables m start k (filter :: others) =
          ((resolveAll tables m start (k + 1) others).1,
            filter' :: (resolveAll tables m start (k + 1) others).2) := by
        intro others
        simp only [resolveAll, hresolve]
      obtain ⟨hconsistent, hall⟩ := ih (k := k + 1) hrest (by
        intro front other back heq hfront
        have hcall := hsound (filter :: front) other back (congrArg (filter :: ·) heq) (by
          rw [hloop]
          exact hfront)
        rw [List.length_cons, Nat.add_comm front.length 1, ← Nat.add_assoc] at hcall
        exact hcall)
      rw [hloop]
      constructor
      · intro other hother
        rcases List.mem_cons.mp hother with rfl | hother
        · exact Or.inr hbound
        · exact hconsistent other hother
      · intro hok other hother
        rcases List.mem_cons.mp hother with rfl | hother
        · exact hbound
        · exact hall hok other hother

/-- The filters of a search as they are configured. -/
def configured (configs : List Config) : List Filter := configs.map Filter.new

/-- In some start the loop over the filters calls `resolve` on a filter. -/
def Called (tables : UnicodeTables) (m : Murmur) (configs : List Config)
    (starts : List (ℕ → Environment)) (filter : Filter) (env : Environment) : Prop :=
  ∃ before start after front back, starts = before ++ start :: after ∧
    filtersAfter tables m before (configured configs) = front ++ filter :: back ∧
    (resolveAll tables m start 0 front).1 = .ok () ∧ env = start front.length

/-- Resolution is atomic in a history of starts. -/
structure Atomic (tables : UnicodeTables) (m : Murmur) (configs : List Config)
    (starts : List (ℕ → Environment)) : Prop where
  /-- A call that raises leaves all fields as they were. -/
  unchanged : ∀ filter env raised filter', Called tables m configs starts filter env →
    filter.resolve tables m env = (.error raised, filter') → filter' = filter
  /-- After a call that returns, `connect` is bound to the wrapper for the mode. -/
  bound : ∀ filter env filter', Called tables m configs starts filter env →
    filter.resolve tables m env = (.ok (), filter') → filter'.Bound
  /-- After a start that failed for a missing dependency, no start succeeds with a filter that is
  not bound. -/
  runnable : ∀ before failed middle start after message,
    starts = before ++ failed :: (middle ++ start :: after) →
    (resolveAll tables m failed 0 (filtersAfter tables m before (configured configs))).1 =
      .error (.filterDependencyError message) →
    (resolveAll tables m start 0
      (filtersAfter tables m (before ++ failed :: middle) (configured configs))).1 = .ok () →
    ∀ filter ∈ (resolveAll tables m start 0
      (filtersAfter tables m (before ++ failed :: middle) (configured configs))).2, filter.Bound

/-- Whenever a filter without a code path is resolved while its code and its blob argument are
available, its code file can be used. -/
def Sound (tables : UnicodeTables) (m : Murmur) (configs : List Config)
    (starts : List (ℕ → Environment)) : Prop :=
  ∀ filter env, Called tables m configs starts filter env → SoundCall tables env filter

/-- The filters are consistent after every part of a sound history. -/
theorem Sound.consistent {configs : List Config} {starts before after : List (ℕ → Environment)}
    (h : Sound tables m configs starts) (heq : starts = before ++ after) :
    ∀ filter ∈ filtersAfter tables m before (configured configs), filter.Consistent := by
  induction before using List.reverseRecOn generalizing after with
  | nil =>
    intro filter hfilter
    obtain ⟨config, _, rfl⟩ := List.mem_map.mp hfilter
    exact Or.inl rfl
  | append_singleton before start ih =>
    have hbefore : starts = before ++ start :: after := by
      rw [heq, List.append_assoc, List.singleton_append]
    have hlast : filtersAfter tables m (before ++ [start]) (configured configs) =
        (resolveAll tables m start 0 (filtersAfter tables m before (configured configs))).2 := by
      rw [filtersAfter, List.foldl_append]
      rfl
    rw [hlast]
    refine (resolveAll_of_sound (ih hbefore) ?_).1
    intro front filter back hsplit hfront
    rw [Nat.zero_add]
    exact h filter _ ⟨before, start, after, front, back, hbefore, hsplit, hfront, rfl⟩

/-- A filter that is called in a sound history is consistent. -/
theorem Sound.consistent_of_called {configs : List Config} {starts : List (ℕ → Environment)}
    {filter : Filter} {env : Environment} (h : Sound tables m configs starts)
    (hcalled : Called tables m configs starts filter env) : filter.Consistent := by
  obtain ⟨before, start, after, front, back, heq, hsplit, _, _⟩ := hcalled
  refine h.consistent heq filter ?_
  rw [hsplit]
  exact List.mem_append_right front List.mem_cons_self

/-- Resolution is atomic exactly in the sound histories: whenever a filter without a code path is
resolved while its code and its blob argument are available, its code file can be used. -/
theorem atomic_iff_sound (tables : UnicodeTables) (m : Murmur) (configs : List Config)
    (starts : List (ℕ → Environment)) :
    Atomic tables m configs starts ↔ Sound tables m configs starts := by
  constructor
  · intro h filter env hcalled
    exact sound_of_unchanged fun raised filter' => h.unchanged filter env raised filter' hcalled
  · intro h
    constructor
    · intro filter env raised filter' hcalled hraised
      rcases resolve_of_sound (m := m) (h filter env hcalled) (h.consistent_of_called hcalled) with
        ⟨_, hresolve⟩ | ⟨_, hresolve, _⟩
      · rw [hresolve] at hraised
        cases hraised
        rfl
      · rw [hresolve] at hraised
        cases hraised
    · intro filter env filter' hcalled hreturned
      rcases resolve_of_sound (m := m) (h filter env hcalled) (h.consistent_of_called hcalled) with
        ⟨_, hresolve⟩ | ⟨_, hresolve, hbound⟩
      · rw [hresolve] at hreturned
        cases hreturned
      · rw [hresolve] at hreturned
        cases hreturned
        exact hbound
    · intro before failed middle start after _ heq _ hok
      have hsplit : starts = (before ++ failed :: middle) ++ start :: after := by
        rw [heq, List.append_assoc, List.cons_append]
      refine (resolveAll_of_sound (h.consistent hsplit) ?_).2 hok
      intro front filter back hfilters hfront
      rw [Nat.zero_add]
      exact h filter _ ⟨_, start, after, front, back, hsplit, hfilters, hfront, rfl⟩

end Histories

/-- A signature that the cache knows is resolved to what the cache has. -/
theorem resolveSource_eq_ok {α : Type} {tables : UnicodeTables} {lookup : String → Lookup α}
    {missing uri path : String} {value : α} (hsplit : splitScheme tables uri = some ("sha256", path))
    (hlookup : lookup (tables.lower path) = .found value) :
    resolveSource tables lookup missing uri = .ok (value, tables.lower path) := by
  simp only [resolveSource, hsplit, if_true, hlookup]

/-- Tables for text that is normal and in lower case. -/
def plainTables : UnicodeTables := ⟨id, id⟩

/-- A filter without arguments. -/
def plainConfig : Config := ⟨"f", "sha256:c0de", "sha256:b10b", .zero, .one, [], []⟩

/-- A cache with all blobs, whose code file is a docker configuration without an image. -/
def imageless : Environment where
  executablePath _ := .found "/tmp/code"
  getitem _ := .found []
  codeFile _ := ⟨some "# diamond-docker-filter".toList, .ok Dict.empty⟩

/-- The two URIs of the sample filter are signatures. -/
theorem split_plainConfig :
    splitScheme plainTables "sha256:c0de" = some ("sha256", "c0de") ∧
      splitScheme plainTables "sha256:b10b" = some ("sha256", "b10b") := by
  decide

/-- The first start fails for the missing image, after the filter has got its code path; the second
one takes the filter for resolved, and succeeds with one that cannot be connected. -/
theorem imageless_not_atomic :
    ¬Atomic plainTables hexMurmur [plainConfig] [fun _ => imageless, fun _ => imageless] := by
  intro h
  have hcalled : Called plainTables hexMurmur [plainConfig]
      [fun _ => imageless, fun _ => imageless] (Filter.new plainConfig) imageless :=
    ⟨[], _, _, [], [], rfl, rfl, rfl, rfl⟩
  have hsound := sound_of_unchanged fun raised filter' =>
    h.unchanged (Filter.new plainConfig) imageless raised filter' hcalled
  have hfound : Found plainTables imageless (Filter.new plainConfig) "/tmp/code" := by
    exact ⟨⟨"c0de", resolveSource_eq_ok split_plainConfig.1 rfl⟩,
      ⟨_, resolveSource_eq_ok split_plainConfig.2 rfl⟩⟩
  obtain ⟨mode, wrapper, hmode, hwrapper⟩ := hsound rfl "/tmp/code" hfound
  have hdocker : scanMode (imageless.codeFile "/tmp/code") = some .docker := by decide
  rw [hdocker, Option.some.injEq] at hmode
  subst hmode
  cases hwrapper

end OpenDiamond.FilterResolution
