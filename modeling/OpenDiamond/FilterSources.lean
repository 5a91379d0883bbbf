import Mathlib.Data.List.DropRight
import OpenDiamond.FilterDependencies
import OpenDiamond.Lib.Splitting

/-!
# Filters by the sources of their code

A filter names its code and its blob argument by URIs, which have to carry the signature of
a blob in the cache. `resolve` turns them into signatures and the cache digest; a stack of
resolved filters can be optimized.
-/

namespace OpenDiamond.FilterSources

open Lib.Binary64 Lib.Splitting DiamondObject ResultKeys FilterOrder FilterDependencies

/-! ## URIs -/

/-- The tables of Unicode that the code depends on. -/
structure UnicodeTables where
  /-- `unicodedata.normalize('NFKC', ·)`. -/
  normalize : List Char → List Char
  /-- `str.lower`. -/
  lower : String → String

/-- A character of `scheme_chars`. -/
def schemeChar (c : Char) : Bool := c.isAlphanum || c ∈ ['+', '-', '.']

/-- The schemes of `uses_params`. -/
def usesParams : List String :=
  ["", "ftp", "hdl", "prospero", "http", "imap", "https", "shttp", "rtsp", "rtspu", "sip", "sips",
    "mms", "sftp", "tel"]

/-- The scheme of a URL and the rest: digits after the colon are taken for a port. -/
def urlScheme (url : List Char) : List Char × List Char :=
  match cut [':'] url with
  | none => ([], url)
  | some (front, rest) =>
    if front = [] then ([], url)
    else if front = "http".toList then (front, rest)
    else if front.all schemeChar && (rest = [] || rest.any fun c => !c.isDigit) then
      (front.map Char.toLower, rest)
    else ([], url)

/-- One kind of bracket without the other. -/
def unmatchedBrackets (netloc : List Char) : Bool :=
  ('[' ∈ netloc ∧ ']' ∉ netloc) ∨ (']' ∈ netloc ∧ '[' ∉ netloc)

/-- `_checknetloc` raises: normalization brings separators in. -/
def badNetloc (tables : UnicodeTables) (netloc : List Char) : Bool :=
  let plain := netloc.filter fun c => c ∉ "@:#?".toList
  let normalized := tables.normalize plain
  !netloc.all (fun c => c.toNat < 128) && plain ≠ normalized &&
    "/?#@:".toList.any fun c => c ∈ normalized

/-- `_splitparams` without the parameters. -/
def dropParams (path : List Char) : List Char :=
  path.rdropWhile (· ≠ '/') ++ (path.rtakeWhile (· ≠ '/')).takeWhile (· ≠ ';')

/-- `split_scheme`: the scheme and the path of `urlparse`, `none` for its `ValueError`. -/
def splitScheme (tables : UnicodeTables) (url : String) : Option (String × String) :=
  let (scheme, rest) := urlScheme url.toList
  let (netloc, rest) :=
    if "//".toList <+: rest then
      ((rest.drop 2).takeWhile fun c => c ∉ "/?#".toList,
        (rest.drop 2).dropWhile fun c => c ∉ "/?#".toList)
    else ([], rest)
  if unmatchedBrackets netloc || badNetloc tables netloc then none
  else
    let path := (rest.takeWhile (· ≠ '#')).takeWhile (· ≠ '?')
    let path := if String.ofList scheme ∈ usesParams then dropParams path else path
    some (String.ofList scheme, String.ofList path)

/-! ## Filters -/

/-- The exceptions of the filter code. -/
inductive Raised where
  /-- `FilterDependencyError` with its text. -/
  | filterDependencyError (message : String)
  /-- `FilterUnsupportedSource`. -/
  | filterUnsupportedSource
  /-- `ValueError`. -/
  | valueError
  /-- An exception of the operating system or of another package. -/
  | external
  deriving DecidableEq

/-- A `Filter`. -/
structure Filter where
  /-- Name. -/
  name : String
  /-- URI of the code. -/
  codeSource : String
  /-- URI of the blob argument. -/
  blobSource : String
  /-- Lower threshold. -/
  minScore : Double
  /-- Upper threshold. -/
  maxScore : Double
  /-- Arguments. -/
  arguments : List String
  /-- Names of the filters that have to run before. -/
  dependencies : List String
  /-- `cache_digest`, which `resolve` sets together with `code_path`. -/
  cacheDigest : Option String
  deriving DecidableEq

/-- `Filter.source_available`; a path with a null character cannot be looked up. -/
def sourceAvailable (tables : UnicodeTables) (cached : String → Bool) (uri : String) :
    Except Raised Bool :=
  match splitScheme tables uri with
  | none => .error .valueError
  | some (scheme, path) =>
    if scheme = "sha256" then
      if '\x00' ∈ path.toList then .error .valueError else .ok (cached path)
    else .error .filterUnsupportedSource

/-- A URI that cannot be split or looked up. -/
def Malformed (tables : UnicodeTables) (uri : String) : Prop :=
  splitScheme tables uri = none ∨
    ∃ path, splitScheme tables uri = some ("sha256", path) ∧ '\x00' ∈ path.toList

/-- A URI with a scheme other than `sha256`. -/
def Unsupported (tables : UnicodeTables) (uri : String) : Prop :=
  ∃ scheme path, splitScheme tables uri = some (scheme, path) ∧ scheme ≠ "sha256"

/-- A URI with a scheme and a path is not malformed, unless it names a blob with a NUL in its
signature. -/
theorem not_malformed_of_split {tables : UnicodeTables} {uri scheme path : String}
    (hsplit : splitScheme tables uri = some (scheme, path))
    (h : scheme = "sha256" → '\x00' ∉ path.toList) : ¬Malformed tables uri := by
  rintro (hnone | ⟨other, hother, hnull⟩)
  · simp [hsplit] at hnone
  · simp only [hsplit, Option.some.injEq, Prod.mk.injEq] at hother
    obtain ⟨hscheme, rfl⟩ := hother
    exact h hscheme hnull

/-- The three ways in which a lookup ends, whatever is in the cache. -/
theorem sourceAvailable_cases (tables : UnicodeTables) (uri : String) :
    (Malformed tables uri ∧ ∀ cached, sourceAvailable tables cached uri = .error .valueError) ∨
    (¬Malformed tables uri ∧ Unsupported tables uri ∧
      ∀ cached, sourceAvailable tables cached uri = .error .filterUnsupportedSource) ∨
    (¬Malformed tables uri ∧ ¬Unsupported tables uri ∧
      ∃ path, ∀ cached, sourceAvailable tables cached uri = .ok (cached path)) := by
  cases hsplit : splitScheme tables uri with
  | none =>
    left
    refine ⟨Or.inl hsplit, ?_⟩
    intro cached
    simp only [sourceAvailable, hsplit]
  | some parts =>
    rcases parts with ⟨scheme, path⟩
    by_cases hscheme : scheme = "sha256"
    · subst hscheme
      by_cases hnull : '\x00' ∈ path.toList
      · left
        refine ⟨Or.inr ⟨path, hsplit, hnull⟩, ?_⟩
        intro cached
        simp only [sourceAvailable, hsplit, if_true, if_pos hnull]
      · right
        right
        refine ⟨not_malformed_of_split hsplit fun _ => hnull, ?_, path, ?_⟩
        · rintro ⟨other, _, hother, hne⟩
          simp only [hsplit, Option.some.injEq, Prod.mk.injEq] at hother
          exact hne hother.1.symm
        · intro cached
          simp only [sourceAvailable, hsplit, if_true, if_neg hnull]
    · right
      left
      have hmalformed := not_malformed_of_split hsplit fun heq => absurd heq hscheme
      refine ⟨hmalformed, ⟨scheme, path, hsplit, hscheme⟩, ?_⟩
      intro cached
      simp only [sourceAvailable, hsplit, if_neg hscheme]

/-- What an access to a blob or to a file made of it leads to. -/
inductive Access where
  | found
  /-- `KeyError`. -/
  | missing
  /-- Another exception. -/
  | failed
  deriving DecidableEq

/-- What `resolve` reads of its surroundings, for each filter in the order of resolution. -/
structure Blobs where
  /-- `blob_cache.executable_path`. -/
  executablePath : ℕ → String → Access
  /-- `blob_cache[·]`. -/
  getitem : ℕ → String → Access
  /-- How `_resolve_mode` ends on the code. -/
  resolveMode : ℕ → Except Raised Unit

/-- `_resolve_code` and `_resolve_blob`: the signature. -/
def resolveSource (tables : UnicodeTables) (access : String → Access) (missing uri : String) :
    Except Raised String :=
  match splitScheme tables uri with
  | none => .error .valueError
  | some (scheme, path) =>
    if scheme = "sha256" then
      match access (tables.lower path) with
      | .found => .ok (tables.lower path)
      | .missing => .error (.filterDependencyError missing)
      | .failed => .error .external
    else .error .filterUnsupportedSource

/-- `Filter._resolve_code`. -/
def Filter.resolveCode (tables : UnicodeTables) (blobs : Blobs) (k : ℕ) (filter : Filter) :
    Except Raised String :=
  resolveSource tables (blobs.executablePath k) ("Missing code for filter " ++ filter.name)
    filter.codeSource

/-- `Filter._resolve_blob`. -/
def Filter.resolveBlob (tables : UnicodeTables) (blobs : Blobs) (k : ℕ) (filter : Filter) :
    Except Raised String :=
  resolveSource tables (blobs.getitem k) ("Missing blob for filter " ++ filter.name)
    filter.blobSource

/-- `Filter.resolve`. The digest is committed before the mode is known. -/
def Filter.resolve (tables : UnicodeTables) (m : Murmur) (blobs : Blobs) (k : ℕ)
    (filter : Filter) : Except Raised Unit × Filter :=
  if filter.cacheDigest.isSome then (.ok (), filter)
  else
    match filter.resolveCode tables blobs k with
    | .error raised => (.error raised, filter)
    | .ok codeSignature =>
      match filter.resolveBlob tables blobs k with
      | .error raised => (.error raised, filter)
      | .ok blobSignature =>
        let summary := [codeSignature, filter.name] ++ filter.arguments ++ [blobSignature]
        (blobs.resolveMode k,
          { filter with cacheDigest := some (m.hash (encodeText (" ".intercalate summary))) })

/-- The loop of `_check_runnable` over the filters. -/
def resolveAll (tables : UnicodeTables) (m : Murmur) (blobs : Blobs) :
    ℕ → List Filter → Except Raised Unit × List Filter
  | _, [] => (.ok (), [])
  | k, filter :: rest =>
    match filter.resolve tables m blobs k with
    | (.error raised, filter) => (.error raised, filter :: rest)
    | (.ok (), filter) =>
      let (result, rest) := resolveAll tables m blobs (k + 1) rest
      (result, filter :: rest)

/-! ## Stacks -/

/-- A `FilterStack`. -/
structure FilterStack where
  /-- `_order`. -/
  order : List Filter
  /-- `_optimized`. -/
  optimized : Bool

/-- What the order of the filters depends on: nothing that `resolve` sets. -/
def Filter.declaration (filter : Filter) : FilterStackRunner.Filter :=
  ⟨⟨zeroSignature, filter.name, filter.arguments, zeroSignature⟩, filter.minScore,
    filter.maxScore, filter.dependencies⟩

/-- `FilterStack.__init__`. -/
def FilterStack.new (filters : List Filter) : Except Raised FilterStack :=
  match resolveFilters (filters.map Filter.declaration) (List.range filters.length) ⟨[], ∅⟩ with
  | .error error => .error (.filterDependencyError error.message)
  | .ok sorting => .ok ⟨sorting.order.filterMap (filters[·]?), false⟩

/-- The loop of `optimize`. -/
def removeSeen : List Filter → Finset String → Except Raised (List Filter)
  | [], _ => .ok []
  | filter :: rest, seen =>
    match filter.cacheDigest with
    | none => .error (.filterDependencyError
        "Should not optimize filter stack before resolving the filters. Report to the developer.")
    | some digest =>
      if digest = "" then .error (.filterDependencyError
        "Should not optimize filter stack before resolving the filters. Report to the developer.")
      else if digest ∈ seen then removeSeen rest seen
      else (removeSeen rest (insert digest seen)).map (filter :: ·)

/-- `FilterStack.optimize`. -/
def FilterStack.optimize (stack : FilterStack) : Except Raised FilterStack :=
  if stack.optimized then .ok stack
  else (removeSeen stack.order ∅).map fun order => ⟨order, true⟩

/-- The filters of a stack have been resolved. -/
def FilterStack.Resolved (stack : FilterStack) : Prop :=
  ∀ filter ∈ stack.order, filter.cacheDigest.isSome

/-- A filter with a digest is not resolved again. -/
theorem Filter.resolve_of_isSome {tables : UnicodeTables} {m : Murmur} {blobs : Blobs} {k : ℕ}
    {filter : Filter} (h : filter.cacheDigest.isSome) :
    filter.resolve tables m blobs k = (.ok (), filter) := by
  rw [Filter.resolve, if_pos h]

/-- Resolving resolved filters does nothing. -/
theorem resolveAll_of_resolved {tables : UnicodeTables} {m : Murmur} {blobs : Blobs} {k : ℕ}
    {filters : List Filter} (h : ∀ filter ∈ filters, filter.cacheDigest.isSome) :
    resolveAll tables m blobs k filters = (.ok (), filters) := by
  induction filters generalizing k with
  | nil => rfl
  | cons filter rest ih =>
    have hrest : resolveAll tables m blobs (k + 1) rest = (.ok (), rest) :=
      ih fun other hother => h other (List.mem_cons_of_mem _ hother)
    simp only [resolveAll, Filter.resolve_of_isSome (h filter List.mem_cons_self), hrest]

/-- A filter that was resolved without an exception has its digest. -/
theorem Filter.isSome_of_resolve {tables : UnicodeTables} {m : Murmur} {blobs : Blobs} {k : ℕ}
    {filter filter' : Filter} (h : filter.resolve tables m blobs k = (.ok (), filter')) :
    filter'.cacheDigest.isSome := by
  unfold Filter.resolve at h
  split at h
  · rename_i hsome
    cases h
    exact hsome
  · split at h
    · cases h
    · split at h
      · cases h
      · have hfilter := (Prod.mk.inj h).2
        rw [← hfilter]
        rfl

/-- After the loop has ended well every filter has its digest. -/
theorem resolved_of_resolveAll {tables : UnicodeTables} {m : Murmur} {blobs : Blobs} {k : ℕ}
    {filters filters' : List Filter}
    (h : resolveAll tables m blobs k filters = (.ok (), filters')) :
    ∀ filter ∈ filters', filter.cacheDigest.isSome := by
  induction filters generalizing k filters' with
  | nil =>
    cases h
    simp
  | cons filter rest ih =>
    rw [resolveAll] at h
    split at h
    · cases h
    · rename_i resolved hresolved
      obtain ⟨hresult, rfl⟩ := Prod.mk.inj h
      have hrest := ih (Prod.ext hresult rfl)
      intro other hother
      rcases List.mem_cons.mp hother with rfl | hother
      · exact Filter.isSome_of_resolve hresolved
      · exact hrest other hother

/-- The loop of `optimize` keeps no filter that was not there. -/
theorem subset_of_removeSeen {filters filters' : List Filter} {seen : Finset String}
    (h : removeSeen filters seen = .ok filters') : filters' ⊆ filters := by
  induction filters generalizing seen filters' with
  | nil =>
    cases h
    exact List.Subset.refl _
  | cons filter rest ih =>
    rw [removeSeen] at h
    split at h
    · cases h
    · split at h
      · cases h
      · split at h
        · exact List.subset_cons_of_subset _ (ih h)
        · cases hrest : removeSeen rest (insert _ seen) with
          | error raised =>
            rw [hrest] at h
            cases h
          | ok others =>
            rw [hrest] at h
            cases h
            exact List.cons_subset_cons _ (ih hrest)

/-- An optimized stack is marked as such and has no new filters. -/
theorem FilterStack.optimize_ok {stack stack' : FilterStack} (h : stack.optimize = .ok stack') :
    stack'.optimized = true ∧ stack'.order ⊆ stack.order := by
  unfold FilterStack.optimize at h
  split at h
  · rename_i hoptimized
    cases h
    exact ⟨hoptimized, List.Subset.refl _⟩
  · cases hseen : removeSeen stack.order ∅ with
    | error raised =>
      rw [hseen] at h
      cases h
    | ok order =>
      rw [hseen] at h
      cases h
      exact ⟨rfl, subset_of_removeSeen hseen⟩

/-- A stack is optimized once. -/
theorem FilterStack.optimize_of_optimized {stack : FilterStack} (h : stack.optimized = true) :
    stack.optimize = .ok stack := by
  rw [FilterStack.optimize, if_pos h]

/-- A stack is built exactly from filters without unknown dependencies and cycles. -/
theorem FilterStack.new_ok_iff (filters : List Filter) :
    (∃ stack, FilterStack.new filters = .ok stack) ↔
      Resolvable (filters.map Filter.declaration) := by
  rw [← resolveFilters_ok_iff, List.length_map, FilterStack.new]
  cases resolveFilters (filters.map Filter.declaration) (List.range filters.length) ⟨[], ∅⟩ with
  | error error => simp
  | ok sorting => simp

end OpenDiamond.FilterSources
