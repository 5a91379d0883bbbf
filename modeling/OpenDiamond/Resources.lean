import OpenDiamond.Lib.Words
import OpenDiamond.DiamondObject

/-!
# Resource contexts

A context creates a resource on its first request and returns the handle that it keeps in a
catalogue afterwards. The catalogue is written while the creation goes on, under the hash of the
request's strings one after the other, so an entry may be left by a creation that failed, and may
answer another request.
-/

namespace OpenDiamond.Resources

open Lib.OrderedDict Lib.Unicode Lib.Words Lib.Traversal DiamondObject

variable {ν : Type}

/-- The arguments of `ensure_resource`. -/
structure Request (ν : Type) where
  /-- The type of the resource. -/
  rtype : Text
  /-- Positional arguments. -/
  args : List Text
  /-- Keyword arguments, in the order of the call. -/
  kargs : List (Text × ν)
  /-- No keyword is given twice. -/
  nodup : (kargs.map Prod.fst).Nodup

/-- A handle: what a resource class tells of a resource. -/
abbrev Handle := Dict Text Text

/-- The exceptions of `ensure_resource`. -/
inductive Raised where
  /-- `ResourceTypeError`. -/
  | resourceTypeError (rtype : Text)
  /-- `ResourceCreationError`. -/
  | resourceCreationError (message : Text)
  /-- The strings have no encoding to hash. -/
  | unicodeEncodeError
  /-- `KeyError`. -/
  | keyError
  /-- Another exception of a resource class. -/
  | other

/-- A run of a generator that yields handles: the handles, and the exception if it ends in
one. -/
structure Creation where
  /-- What it yields, in order. -/
  handles : List Handle
  /-- How it ends. -/
  raised : Option Raised

/-- The resource classes by their types. -/
def registry : List Text := [ofString "docker", ofString "nvidia-docker"]

/-- The string that `get_signature` hashes. -/
def Request.text (str : ν → Text) (request : Request ν) : Text :=
  request.rtype ++ request.args.flatten ++ (request.kargs.map Prod.fst).flatten ++
    (request.kargs.map fun karg => str karg.2).flatten

/-- `_ResourceFactory.get_signature`. -/
def getSignature (m : Murmur) (str : ν → Text) (request : Request ν) : Option String :=
  (encodeUtf8 (request.text str)).map m.hash

/-- `_ResourceFactory.create`, given what the class of the type does. -/
def create (rtype : Text) (resourceClass : Creation) : Creation :=
  if registry.contains rtype then
    ⟨resourceClass.handles.map fun handle => handle.set (ofString "_rtype") rtype,
      match resourceClass.raised with
      | some .keyError => some (.resourceTypeError rtype)
      | raised => raised⟩
  else ⟨[], some (.resourceTypeError rtype)⟩

/-- A call of `ensure_resource` and what the class of its type does if it is asked for a
resource. -/
structure Call (ν : Type) where
  /-- The arguments. -/
  request : Request ν
  /-- The run of the generator of the class. -/
  resourceClass : Creation

/-- The creation for a call. -/
def Call.creation (call : Call ν) : Creation := create call.request.rtype call.resourceClass

/-- The resource signatures and their handles. -/
abbrev Catalog := Dict String Handle

/-- `ResourceContext.ensure_resource`. -/
def ensureResource (m : Murmur) (str : ν → Text) (catalog : Catalog) (call : Call ν) :
    Except Raised Handle × Catalog :=
  match getSignature m str call.request with
  | none => (.error .unicodeEncodeError, catalog)
  | some sig =>
    match catalog.get? sig with
    | some handle => (.ok handle, catalog)
    | none =>
      let catalog := call.creation.handles.foldl (fun catalog h => catalog.set sig h) catalog
      match call.creation.raised with
      | some raised => (.error raised, catalog)
      | none =>
        match catalog.get? sig with
        | some handle => (.ok handle, catalog)
        | none => (.error .keyError, catalog)

/-- The catalogue after some calls. -/
def catalogAfter (m : Murmur) (str : ν → Text) (calls : List (Call ν)) : Catalog :=
  calls.foldl (fun catalog call => (ensureResource m str catalog call).2) Dict.empty

/-! ## Docker containers -/

/-- What `containers.run` and the reloads after it come to. -/
inductive Started where
  /-- A container with a name and an address. -/
  | container (name ipAddress : Text)
  /-- `ImageNotFound`. -/
  | imageNotFound
  /-- Another `APIError`. -/
  | apiError
  /-- Another exception, such as that of `shlex.split`. -/
  | raised

/-- What a creation asks of the Docker daemon, and its fresh identifier. -/
structure Docker (ν : Type) where
  /-- The text of `uuid4`. -/
  uuid4 : Text
  /-- `images.pull` succeeds. -/
  pull : Text → Bool
  /-- Run a command in an image, with a name for the container. -/
  run : Text → Text → Text → List (Text × ν) → Started

/-- The image with a tag. -/
def tagged (image : Text) : Text :=
  if 58 ∈ strip image ∨ ofString "@sha256" <:+: strip image then strip image
  else strip image ++ ofString ":latest"

/-- `_Docker.create`. -/
def dockerCreate (docker : Docker ν) (image command : Text) (kargs : List (Text × ν)) : Creation :=
  let image := tagged image
  let name := ofString "diamond-resource-" ++ docker.uuid4
  let first := Dict.empty.set (ofString "name") name
  if docker.pull image then
    match docker.run image command name kargs with
    | .container name ipAddress =>
      ⟨[first, (Dict.empty.set (ofString "name") name).set (ofString "IPAddress") ipAddress], none⟩
    | .imageNotFound =>
      ⟨[first], some (.resourceCreationError (ofString "Docker image not found " ++ image))⟩
    | .apiError =>
      ⟨[first], some (.resourceCreationError (ofString "Unable to run Docker container image=" ++
        image ++ ofString ", command=" ++ command))⟩
    | .raised => ⟨[first], some .other⟩
  else ⟨[first], some (.resourceCreationError (ofString "Unable to pull Docker image " ++ image))⟩

/-! ## The catalogue over a history of calls -/

variable {m : Murmur} {str : ν → Text}

/-- The call goes through a creation. -/
def Attempts (m : Murmur) (str : ν → Text) (catalog : Catalog) (call : Call ν) : Prop :=
  ∃ sig, getSignature m str call.request = some sig ∧ catalog.get? sig = none

/-- The creation for the call completes, and this is its final handle. -/
structure Call.CompletedWith (call : Call ν) (handle : Handle) : Prop where
  /-- No exception. -/
  completes : call.creation.raised = none
  /-- The last handle. -/
  final : call.creation.handles.getLast? = some handle

/-- What an attempt for a signature leaves in the catalogue. -/
def Call.made (m : Murmur) (str : ν → Text) (call : Call ν) (sig : String) : Option Handle :=
  if getSignature m str call.request = some sig then call.creation.handles.getLast? else none

/-- A resource has the handle that was registered last under its signature. -/
theorem get?_foldl_set (handles : List Handle) (catalog : Catalog) (sig key : String) :
    (handles.foldl (fun catalog h => catalog.set sig h) catalog).get? key =
      if sig = key then handles.getLast?.or (catalog.get? key) else catalog.get? key := by
  induction handles using List.reverseRecOn with
  | nil =>
    rw [List.foldl_nil, List.getLast?_nil, Option.none_or, ite_self]
  | append_singleton handles handle ih =>
    rw [List.foldl_append, List.foldl_cons, List.foldl_nil, Dict.get?_set, List.getLast?_concat,
      Option.some_or]
    by_cases hkey : sig = key
    · rw [if_pos hkey, if_pos hkey]
    · rw [if_neg hkey, if_neg hkey, ih, if_neg hkey]

/-- A request that is not in the catalogue is attempted, and what the attempt made is registered
under its signature, also when it raised in the end. -/
theorem ensureResource_of_none {catalog : Catalog} {call : Call ν} {sig : String}
    (hsig : getSignature m str call.request = some sig) (hnone : catalog.get? sig = none) :
    (ensureResource m str catalog call).2 =
        call.creation.handles.foldl (fun catalog h => catalog.set sig h) catalog ∧
      ∀ handle, (ensureResource m str catalog call).1 = .ok handle ↔ call.CompletedWith handle := by
  have hlast := get?_foldl_set call.creation.handles catalog sig sig
  rw [if_pos rfl, hnone, Option.or_none] at hlast
  unfold ensureResource
  simp only [hsig, hnone, hlast]
  cases hraised : call.creation.raised with
  | some raised =>
    refine ⟨rfl, fun handle => ⟨by rintro ⟨⟩, fun h => ?_⟩⟩
    have hcompletes := h.completes
    rw [hraised] at hcompletes
    cases hcompletes
  | none =>
    cases hfinal : call.creation.handles.getLast? with
    | none =>
      refine ⟨rfl, fun handle => ⟨by rintro ⟨⟩, fun h => ?_⟩⟩
      have hhandle := h.final
      rw [hfinal] at hhandle
      cases hhandle
    | some last =>
      refine ⟨rfl, fun handle => ⟨fun h => ?_, fun h => ?_⟩⟩
      · cases h
        exact ⟨hraised, hfinal⟩
      · have hhandle := h.final
        rw [hfinal] at hhandle
        cases hhandle
        rfl

/-- A request that is in the catalogue is answered from there, without another attempt. -/
theorem ensureResource_of_some {catalog : Catalog} {call : Call ν} {sig : String} {handle : Handle}
    (hsig : getSignature m str call.request = some sig) (hsome : catalog.get? sig = some handle) :
    ensureResource m str catalog call = (.ok handle, catalog) := by
  unfold ensureResource
  simp only [hsig, hsome]

/-- A call fills the missing entry of its signature and leaves the others. -/
theorem get?_ensureResource (catalog : Catalog) (call : Call ν) (key : String) :
    (ensureResource m str catalog call).2.get? key =
      (catalog.get? key).or (call.made m str key) := by
  cases hsig : getSignature m str call.request with
  | none =>
    have hmade : call.made m str key = none := by
      rw [Call.made, hsig, if_neg (Option.some_ne_none key).symm]
    have hsame : (ensureResource m str catalog call).2 = catalog := by
      unfold ensureResource
      simp only [hsig]
    rw [hmade, Option.or_none, hsame]
  | some sig =>
    have hmade : call.made m str key =
        if sig = key then call.creation.handles.getLast? else none := by
      rw [Call.made, hsig]
      simp only [Option.some.injEq]
    rw [hmade]
    cases hold : catalog.get? sig with
    | some handle =>
      rw [ensureResource_of_some hsig hold]
      by_cases hkey : sig = key
      · subst hkey
        rw [hold, Option.some_or]
      · rw [if_neg hkey, Option.or_none]
    | none =>
      rw [(ensureResource_of_none hsig hold).1, get?_foldl_set]
      by_cases hkey : sig = key
      · subst hkey
        rw [if_pos rfl, if_pos rfl, hold, Option.none_or, Option.or_none]
      · rw [if_neg hkey, if_neg hkey, Option.or_none]

/-- The catalogue holds what the first call with a handle for a signature left. -/
theorem get?_catalogAfter (calls : List (Call ν)) (sig : String) :
    (catalogAfter m str calls).get? sig = calls.findSome? fun call => call.made m str sig := by
  have hstep : ∀ (catalog : Catalog) (call : Call ν) key,
      (ensureResource m str catalog call).2.get? key =
        (catalog.get? key).or (call.made m str key) := get?_ensureResource
  have hfirst := foldl_firstCome hstep calls Dict.empty sig
  rw [Dict.get?_empty, Option.none_or] at hfirst
  exact hfirst

/-! ## Handles of completed, identical requests -/

/-- Every handle belongs to a completed creation for the same request, and a creation that has
failed is attempted again. -/
structure Meets (m : Murmur) (str : ν → Text) (calls : List (Call ν)) : Prop where
  /-- A handle that a call returns is the final one of a creation for the same arguments. -/
  owned : ∀ before call after handle, calls = before ++ call :: after →
    (ensureResource m str (catalogAfter m str before) call).1 = .ok handle →
      ∃ front maker back, before ++ [call] = front ++ maker :: back ∧
        maker.request = call.request ∧ Attempts m str (catalogAfter m str front) maker ∧
          maker.CompletedWith handle
  /-- After a creation that has failed, the next call with the same arguments goes through a
  creation. -/
  retried : ∀ before failed middle retry after raised,
    calls = before ++ failed :: (middle ++ retry :: after) →
      Attempts m str (catalogAfter m str before) failed →
      (ensureResource m str (catalogAfter m str before) failed).1 = .error raised →
      retry.request = failed.request → (∀ other ∈ middle, other.request ≠ failed.request) →
        Attempts m str (catalogAfter m str (before ++ failed :: middle)) retry

/-- The first creation with a handle among those whose strings, put together, are those of a call
is for the same arguments and completes. -/
def Separated (str : ν → Text) (calls : List (Call ν)) : Prop :=
  ∀ front maker middle call after, calls = front ++ maker :: (middle ++ call :: after) →
    maker.request.text str = call.request.text str → (encodeUtf8 (call.request.text str)).isSome →
    maker.creation.handles ≠ [] →
    (∀ earlier ∈ front, earlier.request.text str = call.request.text str →
      earlier.creation.handles = []) →
    maker.request = call.request ∧ maker.creation.raised = none

/-- Where something was registered, there is a last handle. -/
theorem getLast?_eq_some {handles : List Handle} (h : handles ≠ []) :
    ∃ handle, handles.getLast? = some handle :=
  ⟨_, List.getLast?_eq_some_getLast h⟩

/-- What a call has made it has made under its own signature. -/
theorem Call.made_eq_some {call : Call ν} {sig : String} {handle : Handle} :
    call.made m str sig = some handle ↔
      getSignature m str call.request = some sig ∧
        call.creation.handles.getLast? = some handle := by
  rw [Call.made, Option.ite_none_right_eq_some]

/-- A request with a signature has a text that can be encoded. -/
theorem getSignature_eq_some {request : Request ν} {sig : String}
    (h : getSignature m str request = some sig) : (encodeUtf8 (request.text str)).isSome := by
  rw [← Option.isSome_map (f := m.hash)]
  exact Option.isSome_iff_exists.mpr ⟨sig, h⟩

/-- Without collisions a signature tells the strings put together apart, though not where one ends
and the next begins. -/
theorem text_eq_of_getSignature (hinj : Function.Injective m.hash) {request request' : Request ν}
    {sig : String} (h : getSignature m str request = some sig)
    (h' : getSignature m str request' = some sig) : request.text str = request'.text str := by
  obtain ⟨bytes, hbytes, hhash⟩ := Option.map_eq_some_iff.mp h
  obtain ⟨bytes', hbytes', hhash'⟩ := Option.map_eq_some_iff.mp h'
  have heq : bytes = bytes' := hinj (hhash.trans hhash'.symm)
  subst heq
  have hdecode := decodeUtf8_encodeUtf8 hbytes
  rw [decodeUtf8_encodeUtf8 hbytes'] at hdecode
  exact (Option.some.inj hdecode).symm

/-- The signature looks at nothing but the text of a request. -/
theorem getSignature_congr {request request' : Request ν} (h : request.text str = request'.text str) :
    getSignature m str request = getSignature m str request' := by
  rw [getSignature, getSignature, h]

/-- The entry that a call meets was made by the first call with a handle for it. -/
theorem exists_maker {calls : List (Call ν)} {sig : String} {handle : Handle}
    (h : (catalogAfter m str calls).get? sig = some handle) :
    ∃ front maker back, calls = front ++ maker :: back ∧
      getSignature m str maker.request = some sig ∧
        maker.creation.handles.getLast? = some handle ∧
          (catalogAfter m str front).get? sig = none := by
  rw [get?_catalogAfter] at h
  obtain ⟨front, maker, back, hcalls, hmade, hfirst⟩ := List.findSome?_eq_some_iff.mp h
  obtain ⟨hsig, hfinal⟩ := Call.made_eq_some.mp hmade
  refine ⟨front, maker, back, hcalls, hsig, hfinal, ?_⟩
  rw [get?_catalogAfter]
  exact List.findSome?_eq_none_iff.mpr hfirst

/-- A call with a handle for a signature leaves an entry for it. -/
theorem isSome_get?_catalogAfter {calls : List (Call ν)} {maker : Call ν} {sig : String}
    (hmem : maker ∈ calls) (hsig : getSignature m str maker.request = some sig)
    (hhandles : maker.creation.handles ≠ []) : ((catalogAfter m str calls).get? sig).isSome := by
  obtain ⟨handle, hhandle⟩ := getLast?_eq_some hhandles
  rw [get?_catalogAfter, List.findSome?_isSome_iff]
  exact ⟨maker, hmem, Option.isSome_iff_exists.mpr ⟨handle, Call.made_eq_some.mpr ⟨hsig, hhandle⟩⟩⟩

/-- Two members of a list stand in one of two orders or are the same. -/
theorem position {α : Type} {front front' back back' : List α} {a a' : α}
    (h : front ++ a :: back = front' ++ a' :: back') :
    (front = front' ∧ a = a') ∨ a ∈ front' ∨ a' ∈ front := by
  rcases List.append_eq_append_iff.mp h with ⟨between, hfront, hback⟩ | ⟨between, hfront, hback⟩
  · cases between with
    | nil =>
      rw [List.append_nil] at hfront
      exact Or.inl ⟨hfront.symm, (List.cons.inj hback).1⟩
    | cons first between =>
      right
      left
      rw [hfront, (List.cons.inj hback).1]
      exact List.mem_append_right front List.mem_cons_self
  · cases between with
    | nil =>
      rw [List.append_nil] at hfront
      exact Or.inl ⟨hfront, (List.cons.inj hback).1.symm⟩
    | cons first between =>
      right
      right
      rw [hfront, (List.cons.inj hback).1]
      exact List.mem_append_right front' List.mem_cons_self

/-- The owner of a handle from the catalogue is the first call with a handle for it. -/
theorem separated_of_meets {calls : List (Call ν)} (h : Meets m str calls) : Separated str calls := by
  intro front maker middle call after hcalls htext hencodable hhandles hfirst
  obtain ⟨bytes, hbytes⟩ := Option.isSome_iff_exists.mp hencodable
  have hsig : getSignature m str call.request = some (m.hash bytes) := by
    rw [getSignature, hbytes, Option.map_some]
  have hmaker := (getSignature_congr htext).trans hsig
  obtain ⟨handle, hhandle⟩ := Option.isSome_iff_exists.mp
    (isSome_get?_catalogAfter (List.mem_append_right front List.mem_cons_self :
      maker ∈ front ++ maker :: middle) hmaker hhandles)
  have hbefore : calls = (front ++ maker :: middle) ++ call :: after := by
    rw [hcalls, List.append_assoc, List.cons_append]
  have hreturned : (ensureResource m str (catalogAfter m str (front ++ maker :: middle)) call).1 =
      .ok handle := by
    rw [ensureResource_of_some hsig hhandle]
  obtain ⟨front', owner, back, hsplit, hrequest, ⟨sig, hown, hnone⟩, hcompleted⟩ :=
    h.owned _ call after handle hbefore hreturned
  rw [hrequest, hsig, Option.some.injEq] at hown
  subst hown
  rw [List.append_assoc, List.cons_append] at hsplit
  rcases position hsplit with ⟨_, rfl⟩ | hlater | hearlier
  · exact ⟨hrequest, hcompleted.completes⟩
  · have hsome := isSome_get?_catalogAfter hlater hmaker hhandles
    rw [hnone] at hsome
    cases hsome
  · have hempty := hfirst owner hearlier (congrArg (Request.text str) hrequest)
    have hfinal := hcompleted.final
    rw [hempty] at hfinal
    cases hfinal

/-- In a separated history the entry that a call meets is from a completed creation for its own
arguments. -/
theorem Separated.exists_owner (hinj : Function.Injective m.hash) {before after : List (Call ν)}
    {call : Call ν} (h : Separated str (before ++ call :: after)) {sig : String} {handle : Handle}
    (hsig : getSignature m str call.request = some sig)
    (hentry : (catalogAfter m str before).get? sig = some handle) :
    ∃ front maker middle, before = front ++ maker :: middle ∧ maker.request = call.request ∧
      (catalogAfter m str front).get? sig = none ∧ maker.CompletedWith handle := by
  obtain ⟨front, maker, middle, hbefore, hmaker, hfinal, hnone⟩ := exists_maker hentry
  have htext := text_eq_of_getSignature hinj hmaker hsig
  have hhandles : maker.creation.handles ≠ [] := by
    intro hempty
    rw [hempty] at hfinal
    cases hfinal
  have hfirst : ∀ earlier ∈ front, earlier.request.text str = call.request.text str →
      earlier.creation.handles = [] := by
    intro earlier hearlier hsame
    by_contra hne
    have hsome := isSome_get?_catalogAfter hearlier ((getSignature_congr hsame).trans hsig) hne
    rw [hnone] at hsome
    cases hsome
  have hcalls : before ++ call :: after = front ++ maker :: (middle ++ call :: after) := by
    rw [hbefore, List.append_assoc, List.cons_append]
  obtain ⟨hrequest, hraised⟩ := h front maker middle call after hcalls htext
    (getSignature_eq_some hsig) hhandles hfirst
  exact ⟨front, maker, middle, hbefore, hrequest, hnone, hraised, hfinal⟩

/-- Without collisions, calls that are told apart by their texts meet only handles of their own. -/
theorem meets_of_separated (hinj : Function.Injective m.hash) {calls : List (Call ν)}
    (h : Separated str calls) : Meets m str calls := by
  constructor
  · intro before call after handle hcalls hreturned
    subst hcalls
    cases hsig : getSignature m str call.request with
    | none =>
      unfold ensureResource at hreturned
      simp only [hsig] at hreturned
      cases hreturned
    | some sig =>
      cases hentry : (catalogAfter m str before).get? sig with
      | none =>
        have hcompleted := ((ensureResource_of_none hsig hentry).2 handle).mp hreturned
        exact ⟨before, call, [], rfl, rfl, ⟨sig, hsig, hentry⟩, hcompleted⟩
      | some entry =>
        obtain ⟨front, maker, middle, hbefore, hrequest, hnone, hcompleted⟩ :=
          h.exists_owner hinj hsig hentry
        rw [ensureResource_of_some hsig hentry] at hreturned
        cases hreturned
        refine ⟨front, maker, middle ++ [call], ?_, hrequest, ⟨sig, ?_, hnone⟩, hcompleted⟩
        · rw [hbefore, List.append_assoc, List.cons_append]
        · rw [hrequest, hsig]
  · intro before failed middle retry after raised hcalls hattempts hraised hrequest hmiddle
    obtain ⟨sig, hsig, hnone⟩ := hattempts
    have hretry : getSignature m str retry.request = some sig := by rw [hrequest, hsig]
    refine ⟨sig, hretry, Option.eq_none_iff_forall_ne_some.mpr fun handle hentry => ?_⟩
    have hcalls' : calls = (before ++ failed :: middle) ++ retry :: after := by
      rw [hcalls, List.append_assoc, List.cons_append]
    subst hcalls'
    obtain ⟨front, maker, back, hbefore, hmaker, hfirst, hcompleted⟩ :=
      h.exists_owner hinj hretry hentry
    have hown : getSignature m str maker.request = some sig := by rw [hmaker, hretry]
    have hhandles : maker.creation.handles ≠ [] := by
      intro hempty
      have hfinal := hcompleted.final
      rw [hempty] at hfinal
      cases hfinal
    rcases List.append_eq_append_iff.mp hbefore with ⟨between, hfront, hback⟩ |
      ⟨between, hfront, hback⟩
    · cases between with
      | nil =>
        -- The call that has failed would have returned the handle.
        obtain ⟨rfl, _⟩ := List.cons.inj hback
        have hreturned := ((ensureResource_of_none hsig hnone).2 handle).mpr hcompleted
        rw [hreturned] at hraised
        cases hraised
      | cons first between =>
        obtain ⟨_, hrest⟩ := List.cons.inj hback
        refine hmiddle maker ?_ (hmaker.trans hrequest)
        rw [hrest]
        exact List.mem_append_right between List.mem_cons_self
    · have hmem : maker ∈ before ∨ maker = failed := by
        cases between with
        | nil => exact Or.inr (List.cons.inj hback).1
        | cons first between =>
          rw [hfront, (List.cons.inj hback).1]
          exact Or.inl (List.mem_append_right front List.mem_cons_self)
      rcases hmem with hearlier | rfl
      · have hsome := isSome_get?_catalogAfter hearlier hown hhandles
        rw [hnone] at hsome
        cases hsome
      · have hreturned := ((ensureResource_of_none hsig hnone).2 handle).mpr hcompleted
        rw [hreturned] at hraised
        cases hraised

/-- Handles belong to completed, identical requests exactly in the separated histories: of the
requests with the same letters, the first that makes a handle is the same request and completes. -/
theorem meets_iff_separated (hinj : Function.Injective m.hash) (calls : List (Call ν)) :
    Meets m str calls ↔ Separated str calls :=
  ⟨separated_of_meets, meets_of_separated hinj⟩

/-- A request for a container that runs a command in an image. -/
def container (image command : String) : Request Text :=
  ⟨ofString "docker", [ofString image, ofString command], [], List.nodup_nil⟩

/-- A daemon that starts a container, if it can pull the image. -/
def daemon (pulls : Bool) : Docker Text :=
  ⟨ofString "7a2b", fun _ => pulls, fun _ _ name _ => .container name (ofString "172.17.0.2")⟩

/-- A call for a container, with what the daemon does. -/
def containerCall (image command : String) (pulls : Bool) : Call Text :=
  ⟨container image command, dockerCreate (daemon pulls) (ofString image) (ofString command) []⟩

/-- The same call made twice meets its own handle the second time. -/
theorem meets_iff_separated_repeated :
    Meets hexMurmur id [containerCall "a" "b" true, containerCall "a" "b" true] := by
  refine (meets_iff_separated hexMurmur_injective _).mpr ?_
  intro front maker middle call after hcalls _ _ _ _
  have hsame : ∀ other ∈ front ++ maker :: (middle ++ call :: after),
      other = containerCall "a" "b" true := by
    intro other hother
    rw [← hcalls] at hother
    simpa using hother
  have hmaker := hsame maker (List.mem_append_right _ List.mem_cons_self)
  have hcall := hsame call (List.mem_append_right _ (List.mem_cons_of_mem _
    (List.mem_append_right _ List.mem_cons_self)))
  rw [hmaker, hcall]
  exact ⟨rfl, rfl⟩

/-- The text of the sample request can be encoded. -/
theorem encodable_docker : (encodeUtf8 (ofString "dockerabc")).isSome := by
  rw [isSome_encodeUtf8_iff]
  have hall : ((ofString "dockerabc").all fun point => (character point).isSome) = true := by decide
  exact List.all_eq_true.mp hall

/-- After a failed pull the same request is answered with the handle of no container, and another
request with the same letters is answered with the container of the first. -/
theorem failedPull_answers :
    ¬Meets hexMurmur id [containerCall "a" "bc" false, containerCall "a" "bc" true] ∧
      ¬Meets hexMurmur id [containerCall "a" "bc" true, containerCall "ab" "c" true] := by
  have hfirst : ∀ second : Request Text, ∀ earlier ∈ ([] : List (Call Text)),
      earlier.request.text id = second.text id → earlier.creation.handles = [] :=
    fun _ _ hearlier => absurd hearlier List.not_mem_nil
  constructor
  · intro h
    have hraised := (separated_of_meets h [] _ [] _ [] rfl rfl encodable_docker
      (List.cons_ne_nil _ _) (hfirst _)).2
    cases hraised
  · intro h
    have hrequest := (separated_of_meets h [] _ [] _ [] rfl rfl encodable_docker
      (List.cons_ne_nil _ _) (hfirst _)).1
    have hargs := congrArg Request.args hrequest
    exact absurd hargs (by decide)

end OpenDiamond.Resources
