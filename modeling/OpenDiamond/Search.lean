import OpenDiamond.FilterSources
import OpenDiamond.Scope
import OpenDiamond.SessionVars

/-!
# The life of a search

The handlers of the control channel over the state of a `Search`. A search is set up as often
as the client likes, then started once; the decorator `running` decides which handlers are
available before and which after. What a call meets outside the search (the blob cache, the
clock, other processes) is given with the call.
-/

namespace OpenDiamond.Search

open Lib.OrderedDict Lib.Unicode Lib.Traversal Scope FilterSources SessionVars
open DiamondObject (Murmur)

/-! ## State and calls -/

/-- The configuration of a server, with the packages it uses. -/
structure Server (δ υ : Type) where
  /-- Dates and serial numbers. -/
  formats : Formats δ υ
  /-- `X509.load_cert_string`. -/
  loadCert : Text → Option Certificate
  /-- `murmur`. -/
  murmur : Murmur
  /-- Unicode. -/
  tables : UnicodeTables
  /-- `serverids`. -/
  serverids : List Text
  /-- `certdata`. -/
  certdata : Text
  /-- `security_cookie_no_verify`. -/
  securityCookieNoVerify : Bool

/-- The `RPCError`s that the handlers raise. -/
inductive RpcError where
  | procedureUnavailable
  | failure
  | fCacheMiss
  | cookieExpired
  | schemeNotSupported
  deriving DecidableEq, Repr

/-- The exception that ends a handler. -/
inductive Exception (δ : Type) where
  /-- An `RPCError`, which `dispatch` answers. -/
  | rpcError (error : RpcError)
  /-- An exception of the filter code, which ends the process. -/
  | filter (raised : FilterSources.Raised)
  /-- An exception of the scope code that is no `ScopeError`, which ends the process. -/
  | scope (raised : Scope.Raised δ)

/-- `XDR_filter_config`. -/
structure FilterConfig where
  /-- Name. -/
  name : String
  /-- Arguments. -/
  arguments : List String
  /-- Dependencies. -/
  dependencies : List String
  /-- Lower threshold. -/
  minScore : Lib.Binary64.Double
  /-- Upper threshold. -/
  maxScore : Lib.Binary64.Double
  /-- URI of the code. -/
  code : String
  /-- URI of the blob argument. -/
  blob : String

/-- A filter of a setup request. -/
def FilterConfig.filter (f : FilterConfig) : FilterSources.Filter :=
  ⟨f.name, f.code, f.blob, f.minScore, f.maxScore, f.arguments, f.dependencies, none⟩

variable {δ υ V : Type}

/-- A cookie as `setup` has parsed it. -/
abbrev Cookie (server : Server δ υ) := ScopeCookie server.formats υ

/-- A `Search`. -/
structure State (server : Server δ υ) (V : Type) where
  /-- `_running`. -/
  running : Bool
  /-- `_scope`: the cookies of the `ScopeListLoader`. -/
  scope : Option (List (Cookie server))
  /-- `_filters`. -/
  filters : FilterStack
  /-- `session_vars`. -/
  sessionVars : SessionVariables V
  /-- The blobs handed to the blob cache. -/
  blobs : List Bytes
  /-- `blast`: the push attributes, `none` for all. -/
  blast : Option (Option (List String))
  /-- `context` exists. -/
  context : Bool
  /-- `_workers` exist. -/
  workers : Bool

/-- `Search.__init__`. -/
def State.new (server : Server δ υ) (V : Type) : State server V :=
  ⟨false, none, ⟨[], false⟩, .new, [], none, false, false⟩

/-- `XDR_setup`. -/
structure SetupParams where
  /-- Encoded cookies. -/
  cookies : List Text
  /-- Filters. -/
  filters : List FilterConfig

/-- The calls on the control channel. -/
inductive Rpc (V : Type) where
  | setup (params : SetupParams)
  | sendBlobs (blobs : List Bytes)
  | start (attrs : Option (List String))
  | reexecuteFilters (objectId : String) (attrs : Option (List String))
  | requestStats
  | sessionVariablesGet
  | sessionVariablesSet (vars : List (String × V))

/-- What a handler returns. -/
inductive Reply (V : Type) where
  | nothing
  | blobList (uris : Finset String)
  | attributeList (attrs : List (String × Bytes))
  /-- The objects in scope and the filters whose statistics follow. -/
  | searchStats (count : ℤ) (filters : List String)
  | sessionVars (vars : List (String × V))

/-- What a call meets outside the search. -/
structure World (V : Type) where
  /-- `in blob_cache`, by the number of the access. -/
  cached : ℕ → String → Bool
  /-- `datetime.now`, by the number of the cookie. -/
  clock : ℕ → ℤ
  /-- The accesses of `resolve`. -/
  blobs : Blobs
  /-- The blobs of a call after which `blob_cache.add` raises, if it does. -/
  addFails : Option ℕ
  /-- The manager and the resource context can be created. -/
  contextCreated : Bool
  /-- The workers can be started. -/
  workersStarted : Bool
  /-- The objects in scope. -/
  count : ℤ
  /-- The end of a reexecution: what it gives, and the updates of session variables that
  the filters made. -/
  evaluation : List FilterSources.Filter → String → Option (List String) →
    Except (Option RpcError) (List (String × Bytes)) × List (Dict String V)

/-- A call with its surroundings. -/
structure Call (V : Type) where
  /-- The call. -/
  rpc : Rpc V
  /-- The surroundings. -/
  world : World V

/-! ## Handlers -/

section Handlers

variable {server : Server δ υ} [AddCommGroup V]

/-- How a handler ends. -/
abbrev Result (server : Server δ υ) (V : Type) := Except (Exception δ) (Reply V) × State server V

/-- The decorator `running`. -/
def running (shouldBeRunning : Bool) (func : State server V → Result server V)
    (state : State server V) : Result server V :=
  if state.running ≠ shouldBeRunning then (.error (.rpcError .procedureUnavailable), state)
  else func state

/-- The loop of `setup` over the filters: the filters, and the missing URIs. -/
def setupFilters (server : Server δ υ) (cached : ℕ → String → Bool) :
    ℕ → List FilterConfig → Except (Exception δ) (List FilterSources.Filter × Finset String)
  | _, [] => .ok ([], ∅)
  | k, f :: rest =>
    match sourceAvailable server.tables (cached (2 * k)) f.code,
        sourceAvailable server.tables (cached (2 * k + 1)) f.blob with
    | .ok code, .ok blob =>
      (setupFilters server cached (k + 1) rest).map fun found =>
        (f.filter :: found.1,
          (if code then ∅ else {f.code}) ∪ (if blob then ∅ else {f.blob}) ∪ found.2)
    | .error .valueError, _ => .error (.filter .valueError)
    | _, .error .valueError => .error (.filter .valueError)
    | _, _ => .error (.rpcError .schemeNotSupported)

/-- The loop of `setup` that verifies the cookies. -/
def verifyAll (server : Server δ υ) (clock : ℕ → ℤ) :
    ℕ → List (Cookie server) → Except (Scope.Raised δ) Unit
  | _, [] => .ok ()
  | k, cookie :: rest =>
    if server.securityCookieNoVerify then verifyAll server clock (k + 1) rest
    else
      match cookie.verify server.loadCert (clock k) server.serverids server.certdata with
      | .error raised => .error raised
      | .ok () => verifyAll server clock (k + 1) rest

/-- The cookies of a request, parsed and verified. -/
def setupCookies (server : Server δ υ) (clock : ℕ → ℤ) (cookies : List Text) :
    Except (Scope.Raised δ) (List (Cookie server)) := do
  let cookies ← cookies.mapM (parse server.formats)
  verifyAll server clock 0 cookies
  return cookies

/-- The handlers of `setup` for the exceptions of the scope code. -/
def scopeException : Scope.Raised δ → Exception δ
  | .scopeCookieExpired _ => .rpcError .cookieExpired
  | .scopeError _ => .rpcError .failure
  | raised => .scope raised

/-- The body of `Search.setup`. -/
def setup (params : SetupParams) (world : World V) (state : State server V) :
    Result server V :=
  match setupFilters server world.cached 0 params.filters with
  | .error exception => (.error exception, state)
  | .ok (filters, missing) =>
    match FilterStack.new filters with
    | .error raised => (.error (.filter raised), state)
    | .ok filterstack =>
      match setupCookies server world.clock params.cookies with
      | .error raised => (.error (scopeException raised), state)
      | .ok cookies =>
        (.ok (.blobList missing), { state with scope := some cookies, filters := filterstack })

/-- The body of `Search.send_blobs`. -/
def sendBlobs (blobs : List Bytes) (world : World V) (state : State server V) :
    Result server V :=
  match world.addFails with
  | none => (.ok .nothing, { state with blobs := state.blobs ++ blobs })
  | some count =>
    (.error (.filter .external), { state with blobs := state.blobs ++ blobs.take count })

/-- `_check_runnable`. -/
def checkRunnable (world : World V) (state : State server V) :
    Except (Exception δ) Unit × State server V :=
  match state.scope with
  | none => (.error (.rpcError .failure), state)
  | some _ =>
    match resolveAll server.tables server.murmur world.blobs 0 state.filters.order with
    | (.ok (), order) => (.ok (), { state with filters := { state.filters with order := order } })
    | (.error raised, order) =>
      let exception := match raised with
        | .filterDependencyError _ => .rpcError .fCacheMiss
        | raised => .filter raised
      (.error exception, { state with filters := { state.filters with order := order } })

/-- The filters are checked and optimized. -/
def prepare (world : World V) (state : State server V) :
    Except (Exception δ) Unit × State server V :=
  match checkRunnable world state with
  | (.error exception, state) => (.error exception, state)
  | (.ok (), state) =>
    match state.filters.optimize with
    | .error raised => (.error (.filter raised), state)
    | .ok filters => (.ok (), { state with filters := filters })

/-- The body of `Search.start`. -/
def start (attrs : Option (List String)) (world : World V) (state : State server V) :
    Result server V :=
  match prepare world state with
  | (.error exception, state) => (.error exception, state)
  | (.ok (), state) =>
    let state := { state with blast := some attrs }
    if state.context || world.contextCreated then
      let state := { state with context := true, running := true }
      if world.workersStarted then (.ok .nothing, { state with workers := true })
      else (.error (.filter .external), state)
    else (.error (.filter .external), state)

/-- The body of `Search.reexecute_filters`. -/
def reexecuteFilters (objectId : String) (attrs : Option (List String)) (world : World V)
    (state : State server V) : Result server V :=
  match prepare world state with
  | (.error exception, state) => (.error exception, state)
  | (.ok (), state) =>
    if state.context || world.contextCreated then
      let (result, updates) := world.evaluation state.filters.order objectId attrs
      let state := { state with
        context := true
        sessionVars := updates.foldl SessionVariables.filterUpdate state.sessionVars }
      match result with
      | .ok attrs => (.ok (.attributeList attrs), state)
      | .error (some error) => (.error (.rpcError error), state)
      | .error none => (.error (.filter .external), state)
    else (.error (.filter .external), state)

/-- The body of `Search.request_stats`. -/
def requestStats (world : World V) (state : State server V) : Result server V :=
  (.ok (.searchStats world.count (state.filters.order.map FilterSources.Filter.name)), state)

/-- The body of `Search.session_variables_get`. -/
def sessionVariablesGet (state : State server V) : Result server V :=
  (.ok (.sessionVars state.sessionVars.clientGet.1.entries),
    { state with sessionVars := state.sessionVars.clientGet.2 })

/-- The body of `Search.session_variables_set`. -/
def sessionVariablesSet (vars : List (String × V)) (state : State server V) : Result server V :=
  (.ok .nothing,
    { state with sessionVars := state.sessionVars.clientSet (Dict.empty.setAll vars) })

/-- The handler of a call. -/
def handle (state : State server V) (call : Call V) : Result server V :=
  match call.rpc with
  | .setup params => running false (setup params call.world) state
  | .sendBlobs blobs => running false (sendBlobs blobs call.world) state
  | .start attrs => running false (start attrs call.world) state
  | .reexecuteFilters objectId attrs => reexecuteFilters objectId attrs call.world state
  | .requestStats => running true (requestStats call.world) state
  | .sessionVariablesGet => running true sessionVariablesGet state
  | .sessionVariablesSet vars => running true (sessionVariablesSet vars) state

/-- The search after calls in a row. -/
def run (server : Server δ υ) (calls : List (Call V)) : State server V :=
  calls.foldl (fun state call => (handle state call).2) (.new server V)

end Handlers

/-! ## What a call can do -/

section Steps

variable {server : Server δ υ} {state : State server V}

/-- The search is ready to run: there is a scope, and its filters are resolved and
optimized. -/
structure State.Ready (state : State server V) : Prop where
  /-- A scope has been installed. -/
  scope : state.scope.isSome
  /-- The filters have been resolved. -/
  resolved : state.filters.Resolved
  /-- The filters have been optimized. -/
  optimized : state.filters.optimized = true

/-- Whether a search is ready is decided by its scope and its filters. -/
theorem State.Ready.congr {next : State server V} (h : state.Ready)
    (hscope : next.scope = state.scope) (hfilters : next.filters = state.filters) :
    next.Ready := by
  constructor
  · rw [hscope]
    exact h.scope
  · rw [hfilters]
    exact h.resolved
  · rw [hfilters]
    exact h.optimized

/-- The check changes nothing but the filters, and a successful one leaves them resolved. -/
theorem checkRunnable_spec (world : World V) (state : State server V) :
    ∃ result filters, checkRunnable world state = (result, { state with filters := filters }) ∧
      (result = .ok () → state.scope.isSome ∧ filters.Resolved) := by
  rcases state with ⟨run, scope, filters, vars, blobs, blast, context, workers⟩
  cases scope with
  | none =>
    refine ⟨_, filters, rfl, ?_⟩
    intro h
    cases h
  | some cookies =>
    simp only [checkRunnable]
    generalize hresolve :
      resolveAll server.tables server.murmur world.blobs 0 filters.order = resolved
    rcases resolved with ⟨result, order⟩
    cases result with
    | error raised =>
      refine ⟨_, _, rfl, ?_⟩
      intro h
      cases h
    | ok value =>
      refine ⟨_, _, rfl, ?_⟩
      intro _
      exact ⟨rfl, resolved_of_resolveAll hresolve⟩

/-- The preparation changes nothing but the filters, and a successful one leaves the search
ready. -/
theorem prepare_spec (world : World V) (state : State server V) :
    ∃ result filters, prepare world state = (result, { state with filters := filters }) ∧
      (result = .ok () → ({ state with filters := filters } : State server V).Ready) := by
  obtain ⟨result, filters, hcheck, hok⟩ := checkRunnable_spec world state
  unfold prepare
  rw [hcheck]
  cases result with
  | error exception =>
    refine ⟨_, _, rfl, ?_⟩
    intro h
    cases h
  | ok value =>
    obtain ⟨hscope, hresolved⟩ := hok rfl
    cases hoptimize : filters.optimize with
    | error raised =>
      refine ⟨.error (.filter raised), filters, ?_, ?_⟩
      · simp only [hoptimize]
      · intro h
        cases h
    | ok optimized =>
      obtain ⟨hflag, hsubset⟩ := FilterStack.optimize_ok hoptimize
      refine ⟨.ok (), optimized, ?_, ?_⟩
      · simp only [hoptimize]
      · intro _
        exact ⟨hscope, fun filter hfilter => hresolved filter (hsubset hfilter), hflag⟩

/-- A search that is ready is left as it is. -/
theorem State.Ready.prepare_eq (h : state.Ready) (world : World V) :
    prepare world state = (.ok (), state) := by
  rcases state with ⟨run, scope, filters, vars, blobs, blast, context, workers⟩
  obtain ⟨cookies, rfl⟩ := Option.isSome_iff_exists.mp h.scope
  have hresolve : resolveAll server.tables server.murmur world.blobs 0 filters.order =
      (.ok (), filters.order) := resolveAll_of_resolved h.resolved
  have hoptimize : filters.optimize = .ok filters := FilterStack.optimize_of_optimized h.optimized
  simp only [prepare, checkRunnable, hresolve, hoptimize]

/-- The start changes the filters, and runs only a search that is ready. -/
theorem start_spec (attrs : Option (List String)) (world : World V) (state : State server V) :
    (start attrs world state).2.scope = state.scope ∧
      ((start attrs world state).2.running = state.running ∨
        (start attrs world state).2.Ready) := by
  obtain ⟨result, filters, hprepare, hready⟩ := prepare_spec world state
  unfold start
  rw [hprepare]
  cases result with
  | error exception => exact ⟨rfl, Or.inl rfl⟩
  | ok value =>
    have hready := hready rfl
    dsimp only
    split
    · split
      · exact ⟨rfl, Or.inr (hready.congr rfl rfl)⟩
      · exact ⟨rfl, Or.inr (hready.congr rfl rfl)⟩
    · exact ⟨rfl, Or.inl rfl⟩

/-- The setup either commits what it has built, with all cookies verified, or changes nothing. -/
theorem setup_spec (params : SetupParams) (world : World V) (state : State server V) :
    (∃ missing cookies filters,
      setupCookies server world.clock params.cookies = .ok cookies ∧
      setup params world state = (.ok (.blobList missing),
        { state with scope := some cookies, filters := filters })) ∨
    ∃ exception, setup params world state = (.error exception, state) := by
  unfold setup
  split
  · exact Or.inr ⟨_, rfl⟩
  split
  · exact Or.inr ⟨_, rfl⟩
  split
  · exact Or.inr ⟨_, rfl⟩
  · rename_i cookies hcookies
    exact Or.inl ⟨_, cookies, _, hcookies, rfl⟩

/-- The wrapper `running` refuses a call in the wrong phase and changes nothing. -/
theorem running_unavailable {shouldBeRunning : Bool} {func : State server V → Result server V}
    (h : state.running ≠ shouldBeRunning) :
    running shouldBeRunning func state = (.error (.rpcError .procedureUnavailable), state) := by
  rw [running, if_pos h]

/-- In the right phase the wrapper is not noticed. -/
theorem running_available {shouldBeRunning : Bool} {func : State server V → Result server V}
    (h : state.running = shouldBeRunning) : running shouldBeRunning func state = func state := by
  rw [running, if_neg (by simp [h])]

variable [AddCommGroup V]

/-- Reexecution changes neither the scope nor whether the search runs, and the filters only
of a search that is not ready. -/
theorem reexecuteFilters_spec (objectId : String) (attrs : Option (List String)) (world : World V)
    (state : State server V) :
    (reexecuteFilters objectId attrs world state).2.running = state.running ∧
      (reexecuteFilters objectId attrs world state).2.scope = state.scope ∧
      (state.Ready → (reexecuteFilters objectId attrs world state).2.filters = state.filters) := by
  obtain ⟨result, filters, hprepare, _⟩ := prepare_spec world state
  have hkept : state.Ready → filters = state.filters := by
    intro hready
    have heq := hprepare.symm.trans (hready.prepare_eq world)
    exact congrArg State.filters (Prod.mk.inj heq).2
  unfold reexecuteFilters
  rw [hprepare]
  cases result with
  | error exception => exact ⟨rfl, rfl, hkept⟩
  | ok value =>
    dsimp only
    split
    · split <;> exact ⟨rfl, rfl, hkept⟩
    · exact ⟨rfl, rfl, hkept⟩

end Steps

/-! ## Whole runs -/

/-- A server without certificates, and the tables for ASCII in lower case. -/
def sampleServer : Server Unit Unit where
  formats := sampleFormats
  loadCert _ := none
  murmur := DiamondObject.hexMurmur
  tables := ⟨id, id⟩
  serverids := [ofString "localhost"]
  certdata := []
  securityCookieNoVerify := false

/-- An empty blob cache. -/
def sampleWorld : World ℤ where
  cached _ _ := false
  clock _ := 0
  blobs := ⟨fun _ _ => .missing, fun _ _ => .missing, fun _ => .ok ()⟩
  addFails := none
  contextCreated := true
  workersStarted := true
  count := 0
  evaluation _ _ _ := (.ok [], [])

section Runs

variable {server : Server δ υ} [AddCommGroup V] {state : State server V}

/-- A call that is available before the start only. -/
def Rpc.BeforeStart : Rpc V → Prop
  | .setup _ | .sendBlobs _ | .start _ => True
  | _ => False

/-- A call that is available after the start only. -/
def Rpc.AfterStart : Rpc V → Prop
  | .requestStats | .sessionVariablesGet | .sessionVariablesSet _ => True
  | _ => False

/-- The calls that prepare a search are refused once it runs. -/
theorem handle_beforeStart {call : Call V} (h : call.rpc.BeforeStart)
    (hrunning : state.running = true) :
    handle state call = (.error (.rpcError .procedureUnavailable), state) := by
  have hne : state.running ≠ false := by simp [hrunning]
  rcases call with ⟨rpc, world⟩
  cases rpc with
  | setup params => exact running_unavailable hne
  | sendBlobs blobs => exact running_unavailable hne
  | start attrs => exact running_unavailable hne
  | _ => cases h

/-- The calls that look at a running search are refused before it runs. -/
theorem handle_afterStart {call : Call V} (h : call.rpc.AfterStart)
    (hrunning : state.running = false) :
    handle state call = (.error (.rpcError .procedureUnavailable), state) := by
  have hne : state.running ≠ true := by simp [hrunning]
  rcases call with ⟨rpc, world⟩
  cases rpc with
  | requestStats => exact running_unavailable hne
  | sessionVariablesGet => exact running_unavailable hne
  | sessionVariablesSet vars => exact running_unavailable hne
  | _ => cases h

/-- A running search keeps running with the scope and the filters it has, whatever is called. -/
theorem handle_of_running (hrunning : state.running = true) (hready : state.Ready)
    (call : Call V) :
    (handle state call).2.running = true ∧ (handle state call).2.scope = state.scope ∧
      (handle state call).2.filters = state.filters := by
  by_cases hbefore : call.rpc.BeforeStart
  · rw [handle_beforeStart hbefore hrunning]
    exact ⟨hrunning, rfl, rfl⟩
  rcases call with ⟨rpc, world⟩
  cases rpc with
  | setup params => exact absurd trivial hbefore
  | sendBlobs blobs => exact absurd trivial hbefore
  | start attrs => exact absurd trivial hbefore
  | reexecuteFilters objectId attrs =>
    obtain ⟨hkeep, hscope, hfilters⟩ := reexecuteFilters_spec objectId attrs world state
    exact ⟨hkeep.trans hrunning, hscope, hfilters hready⟩
  | requestStats =>
    simp only [handle, running_available hrunning]
    exact ⟨hrunning, rfl, rfl⟩
  | sessionVariablesGet =>
    simp only [handle, running_available hrunning]
    exact ⟨hrunning, rfl, rfl⟩
  | sessionVariablesSet vars =>
    simp only [handle, running_available hrunning]
    exact ⟨hrunning, rfl, rfl⟩

/-- A search that does not run changes its scope by a setup only, and runs by a start of a
search that is ready only. -/
theorem handle_of_not_running (hrunning : state.running = false) (call : Call V) :
    ((handle state call).2.running = true →
      (∃ attrs, call.rpc = .start attrs) ∧ (handle state call).2.Ready ∧
        (handle state call).2.scope = state.scope) ∧
    ((handle state call).2.scope = state.scope ∨
      ∃ params missing cookies, call.rpc = .setup params ∧
        setupCookies server call.world.clock params.cookies = .ok cookies ∧
        (handle state call).1 = .ok (.blobList missing) ∧
        (handle state call).2.scope = some cookies) := by
  have hno : ∀ {next : State server V}, next.running = state.running → next.running ≠ true := by
    intro next heq htrue
    rw [heq, hrunning] at htrue
    cases htrue
  by_cases hafter : call.rpc.AfterStart
  · rw [handle_afterStart hafter hrunning]
    exact ⟨fun htrue => absurd htrue (hno rfl), Or.inl rfl⟩
  rcases call with ⟨rpc, world⟩
  cases rpc with
  | setup params =>
    simp only [handle, running_available hrunning]
    rcases setup_spec params world state with ⟨missing, cookies, filters, hcookies, heq⟩ | ⟨_, heq⟩
    · rw [heq]
      refine ⟨fun htrue => absurd htrue (hno rfl), Or.inr ?_⟩
      exact ⟨params, missing, cookies, rfl, hcookies, rfl, rfl⟩
    · rw [heq]
      exact ⟨fun htrue => absurd htrue (hno rfl), Or.inl rfl⟩
  | sendBlobs blobs =>
    simp only [handle, running_available hrunning, sendBlobs]
    split <;> exact ⟨fun htrue => absurd htrue (hno rfl), Or.inl rfl⟩
  | start attrs =>
    simp only [handle, running_available hrunning]
    obtain ⟨hscope, hcase⟩ := start_spec attrs world state
    refine ⟨fun htrue => ⟨⟨attrs, rfl⟩, ?_, hscope⟩, Or.inl hscope⟩
    exact hcase.resolve_left fun heq => hno heq htrue
  | reexecuteFilters objectId attrs =>
    obtain ⟨hkeep, hscope, _⟩ := reexecuteFilters_spec objectId attrs world state
    exact ⟨fun htrue => absurd htrue (hno hkeep), Or.inl hscope⟩
  | requestStats => exact absurd trivial hafter
  | sessionVariablesGet => exact absurd trivial hafter
  | sessionVariablesSet vars => exact absurd trivial hafter

/-- A run of calls goes on from the state that the first of them leave. -/
theorem run_append (calls more : List (Call V)) :
    run server (calls ++ more) =
      more.foldl (fun state call => (handle state call).2) (run server calls) := by
  rw [run, List.foldl_append]
  rfl

/-- One more call is handled in the state that all calls before it leave; this is the step of every
induction over a run. -/
theorem run_snoc (calls : List (Call V)) (call : Call V) :
    run server (calls ++ [call]) = (handle (run server calls) call).2 := run_append calls [call]

/-- A running search is ready: it has a scope, and its filters are resolved and optimized. The
induction is over the calls, and the only one that matters is `start`. -/
theorem ready_of_running (calls : List (Call V)) (h : (run server calls).running = true) :
    (run server calls).Ready := by
  induction calls using List.reverseRecOn with
  | nil => cases h
  | append_singleton calls call ih =>
    rw [run_snoc] at h ⊢
    cases hrunning : (run server calls).running with
    | true =>
      have hready := ih hrunning
      obtain ⟨_, hscope, hfilters⟩ := handle_of_running hrunning hready call
      exact hready.congr hscope hfilters
    | false => exact ((handle_of_not_running hrunning call).1 h).2.1

/-- The setup in a run that installed a scope: where it stands, its arguments, and that it
returned and committed the scope. -/
structure Installed (server : Server δ υ) (calls : List (Call V)) (cookies : List (Cookie server))
    (before : List (Call V)) (params : SetupParams) (world : World V) : Prop where
  /-- It is one of the calls. -/
  mem : before ++ [⟨.setup params, world⟩] <+: calls
  /-- It returned a list of blobs. -/
  returned : ∃ missing,
    (handle (run server before) ⟨.setup params, world⟩).1 = .ok (.blobList missing)
  /-- The scope consists of its cookies, parsed and verified. -/
  verified : setupCookies server world.clock params.cookies = .ok cookies
  /-- It set the scope. -/
  scope : (run server (before ++ [⟨.setup params, world⟩])).scope = some cookies

/-- Every scope was installed by a setup that succeeded. -/
theorem exists_installed (calls : List (Call V)) {cookies : List (Cookie server)}
    (h : (run server calls).scope = some cookies) :
    ∃ before params world, Installed server calls cookies before params world := by
  induction calls using List.reverseRecOn with
  | nil => cases h
  | append_singleton calls call ih =>
    have hearlier : (run server calls).scope = some cookies →
        ∃ before params world, Installed server (calls ++ [call]) cookies before params world := by
      intro hscope
      obtain ⟨before, params, world, hinstalled⟩ := ih hscope
      exact ⟨before, params, world, hinstalled.mem.trans (List.prefix_append calls [call]),
        hinstalled.returned, hinstalled.verified, hinstalled.scope⟩
    have hnext := h
    rw [run_snoc] at hnext
    cases hrunning : (run server calls).running with
    | true =>
      obtain ⟨_, hscope, _⟩ :=
        handle_of_running hrunning (ready_of_running calls hrunning) call
      exact hearlier (hscope.symm.trans hnext)
    | false =>
      rcases (handle_of_not_running hrunning call).2 with hscope |
        ⟨params, missing, committed, hrpc, hcookies, hreturned, hscope⟩
      · exact hearlier (hscope.symm.trans hnext)
      · rcases call with ⟨rpc, world⟩
        dsimp only at hrpc
        subst hrpc
        have heq : committed = cookies := Option.some.inj (hscope.symm.trans hnext)
        subst heq
        exact ⟨calls, params, world, List.prefix_refl _, ⟨missing, hreturned⟩, hcookies, h⟩

/-- Verified cookies are accepted at the time they were verified, each by the clock of its own
turn. -/
theorem accepted_of_verifyAll (hverify : server.securityCookieNoVerify = false) {clock : ℕ → ℤ}
    {cookies : List (Cookie server)} {first : ℕ}
    (h : verifyAll server clock first cookies = .ok ()) {k : ℕ} {cookie : Cookie server}
    (hcookie : cookies[k]? = some cookie) :
    cookie.Accepted server.loadCert (clock (first + k)) server.serverids server.certdata := by
  induction cookies generalizing first k with
  | nil => simp at hcookie
  | cons other rest ih =>
    rw [verifyAll, hverify] at h
    simp only [Bool.false_eq_true, if_false] at h
    split at h
    · cases h
    · rename_i hother
      cases k with
      | zero =>
        cases hcookie
        exact ScopeCookie.accepted_of_verify hother
      | succ k =>
        have hrest := ih h hcookie
        rwa [Nat.add_right_comm, Nat.add_assoc] at hrest

/-- Cookies that the setup has accepted were all read, and all verified. -/
theorem verifyAll_of_setupCookies {clock : ℕ → ℤ} {texts : List Text}
    {cookies : List (Cookie server)} (h : setupCookies server clock texts = .ok cookies) :
    texts.mapM (parse server.formats) = .ok cookies ∧ verifyAll server clock 0 cookies = .ok () := by
  unfold setupCookies at h
  obtain ⟨parsed, hparse, h⟩ := bind_eq_ok h
  obtain ⟨_, hverify, h⟩ := bind_eq_ok h
  cases h
  exact ⟨hparse, hverify⟩

/-- The life of a search after calls in a row, with any call that comes next. -/
structure LifeCycle (server : Server δ υ) (calls : List (Call V)) : Prop where
  /-- A search that runs keeps running. -/
  runs : (run server calls).running = true →
    ∀ more, (run server (calls ++ more)).running = true
  /-- It starts to run by a `start` only, after a `setup` that succeeded. -/
  starts : (run server calls).running = false → ∀ call,
    (run server (calls ++ [call])).running = true →
      (∃ attrs, call.rpc = .start attrs) ∧
        ∃ cookies before params world, Installed server calls cookies before params world
  /-- `setup`, `send_blobs` and `start` are not available after the start. -/
  beforeStart : (run server calls).running = true → ∀ call : Call V, call.rpc.BeforeStart →
    handle (run server calls) call = (.error (.rpcError .procedureUnavailable), run server calls)
  /-- Statistics and session variables are not available before the start. -/
  afterStart : (run server calls).running = false → ∀ call : Call V, call.rpc.AfterStart →
    handle (run server calls) call = (.error (.rpcError .procedureUnavailable), run server calls)
  /-- After the start the scope and the filters stay. -/
  fixed : (run server calls).running = true → ∀ more,
    (run server (calls ++ more)).scope = (run server calls).scope ∧
      (run server (calls ++ more)).filters = (run server calls).filters
  /-- Every cookie of the scope was acceptable when the setup that installed it verified it. -/
  authorised : server.securityCookieNoVerify = false → ∀ cookies,
    (run server calls).scope = some cookies →
      ∃ before params world, Installed server calls cookies before params world ∧
        ∀ (k : ℕ) (cookie : Cookie server), cookies[k]? = some cookie →
          cookie.Accepted server.loadCert (world.clock k) server.serverids server.certdata

/-- A running search stays as it is in everything after it, by induction over the further calls. -/
theorem run_of_running {calls : List (Call V)} (h : (run server calls).running = true)
    (more : List (Call V)) :
    (run server (calls ++ more)).running = true ∧
      (run server (calls ++ more)).scope = (run server calls).scope ∧
      (run server (calls ++ more)).filters = (run server calls).filters := by
  induction more using List.reverseRecOn with
  | nil => simp [h]
  | append_singleton more call ih =>
    obtain ⟨hrunning, hscope, hfilters⟩ := ih
    have hready := ready_of_running (calls ++ more) hrunning
    obtain ⟨hrunning', hscope', hfilters'⟩ := handle_of_running hrunning hready call
    rw [← List.append_assoc, run_snoc]
    exact ⟨hrunning', hscope'.trans hscope, hfilters'.trans hfilters⟩

/-- Every search goes through its life as it should, whatever the client calls in whatever order: it
runs only behind a setup that succeeded, keeps running with that scope and its filters, and refuses
without a change what is asked of it in the wrong phase. -/
theorem lifeCycle (server : Server δ υ) (calls : List (Call V)) : LifeCycle server calls where
  runs h more := (run_of_running h more).1
  starts h call hstart := by
    rw [run_snoc] at hstart
    obtain ⟨hrpc, hready, hscope⟩ := (handle_of_not_running h call).1 hstart
    obtain ⟨cookies, hcookies⟩ := Option.isSome_iff_exists.mp hready.scope
    obtain ⟨before, params, world, hinstalled⟩ :=
      exists_installed calls (hscope.symm.trans hcookies)
    exact ⟨hrpc, cookies, before, params, world, hinstalled⟩
  beforeStart h _ hbefore := handle_beforeStart hbefore h
  afterStart h _ hafter := handle_afterStart hafter h
  fixed h more := (run_of_running h more).2
  authorised hverify cookies hscope := by
    obtain ⟨before, params, world, hinstalled⟩ := exists_installed calls hscope
    refine ⟨before, params, world, hinstalled, ?_⟩
    intro k cookie hcookie
    have hverified := (verifyAll_of_setupCookies hinstalled.verified).2
    have haccepted := accepted_of_verifyAll hverify hverified hcookie
    rwa [Nat.zero_add] at haccepted

example : (run sampleServer [⟨.setup ⟨[], []⟩, sampleWorld⟩, ⟨.start none, sampleWorld⟩]).running =
    true := rfl

end Runs

/-! ## Setup as a transaction -/

section Setup

/-- A filter with a URI that cannot be looked up. -/
def FilterConfig.Malformed (tables : UnicodeTables) (f : FilterConfig) : Prop :=
  FilterSources.Malformed tables f.code ∨ FilterSources.Malformed tables f.blob

/-- A filter with a URI whose scheme is not supported. -/
def FilterConfig.Unsupported (tables : UnicodeTables) (f : FilterConfig) : Prop :=
  FilterSources.Unsupported tables f.code ∨ FilterSources.Unsupported tables f.blob

/-- No filter is malformed up to the first that is not supported. -/
def Readable (tables : UnicodeTables) : List FilterConfig → Prop
  | [] => True
  | f :: rest => ¬f.Malformed tables ∧ (¬f.Unsupported tables → Readable tables rest)

/-- The URIs that are not in the cache when they are looked up. -/
def Missing (tables : UnicodeTables) (cached : ℕ → String → Bool) (first : ℕ)
    (configs : List FilterConfig) (uri : String) : Prop :=
  ∃ (k : ℕ) (f : FilterConfig), configs[k]? = some f ∧
    (uri = f.code ∧ sourceAvailable tables (cached (2 * (first + k))) f.code = .ok false ∨
      uri = f.blob ∧ sourceAvailable tables (cached (2 * (first + k) + 1)) f.blob = .ok false)

/-- The missing URIs of some filters are those of the first one and those of the rest, with two
lookups in the cache for each filter. -/
theorem missing_cons {tables : UnicodeTables} {cached : ℕ → String → Bool} {first : ℕ}
    {f : FilterConfig} {rest : List FilterConfig} {uri : String} :
    Missing tables cached first (f :: rest) uri ↔
      (uri = f.code ∧ sourceAvailable tables (cached (2 * first)) f.code = .ok false ∨
        uri = f.blob ∧ sourceAvailable tables (cached (2 * first + 1)) f.blob = .ok false) ∨
      Missing tables cached (first + 1) rest uri := by
  constructor
  · rintro ⟨k, g, hget, huri⟩
    cases k with
    | zero =>
      cases hget
      exact Or.inl huri
    | succ k =>
      have hindex : first + (k + 1) = first + 1 + k := by omega
      rw [hindex] at huri
      exact Or.inr ⟨k, g, hget, huri⟩
  · rintro (huri | ⟨k, g, hget, huri⟩)
    · exact ⟨0, f, rfl, huri⟩
    · have hindex : first + 1 + k = first + (k + 1) := by omega
      rw [hindex] at huri
      exact ⟨k + 1, g, hget, huri⟩

section Loop

variable {server : Server δ υ} (cached : ℕ → String → Bool) (first : ℕ)

/-- The loop over the filters ends with a `ValueError` at a malformed URI. -/
theorem setupFilters_cons_of_malformed {f : FilterConfig} (rest : List FilterConfig)
    (h : f.Malformed server.tables) :
    setupFilters server cached first (f :: rest) = .error (.filter .valueError) := by
  unfold setupFilters
  rcases sourceAvailable_cases server.tables f.code with
    ⟨_, hcode⟩ | ⟨hno, _, hcode⟩ | ⟨hno, _, path, hcode⟩
  · simp only [hcode]
  -- the lookup of the blob comes before the decision on the scheme of the code
  · rcases sourceAvailable_cases server.tables f.blob with ⟨_, hblob⟩ | ⟨hno', _⟩ | ⟨hno', _⟩
    · simp only [hcode, hblob]
    · exact absurd h (not_or.mpr ⟨hno, hno'⟩)
    · exact absurd h (not_or.mpr ⟨hno, hno'⟩)
  · rcases sourceAvailable_cases server.tables f.blob with ⟨_, hblob⟩ | ⟨hno', _⟩ | ⟨hno', _⟩
    · simp only [hcode, hblob]
    · exact absurd h (not_or.mpr ⟨hno, hno'⟩)
    · exact absurd h (not_or.mpr ⟨hno, hno'⟩)

/-- The loop ends with an `RPCError` at a source that is not supported. -/
theorem setupFilters_cons_of_unsupported {f : FilterConfig} (rest : List FilterConfig)
    (hmalformed : ¬f.Malformed server.tables) (h : f.Unsupported server.tables) :
    setupFilters server cached first (f :: rest) = .error (.rpcError .schemeNotSupported) := by
  obtain ⟨hcode, hblob⟩ := not_or.mp hmalformed
  have hcode := (sourceAvailable_cases server.tables f.code).resolve_left fun hc => hcode hc.1
  have hblob := (sourceAvailable_cases server.tables f.blob).resolve_left fun hc => hblob hc.1
  unfold setupFilters
  rcases hcode with ⟨_, _, hcode⟩ | ⟨_, hsupported, path, hcode⟩
  · rcases hblob with ⟨_, _, hblob⟩ | ⟨_, _, path, hblob⟩
    · simp only [hcode, hblob]
    · simp only [hcode, hblob]
  · rcases hblob with ⟨_, _, hblob⟩ | ⟨_, hsupported', _⟩
    · simp only [hcode, hblob]
    · exact absurd h (not_or.mpr ⟨hsupported, hsupported'⟩)

/-- Otherwise a filter is added, its missing URIs are noted, and the loop goes on. -/
theorem setupFilters_cons_of_supported {f : FilterConfig} (rest : List FilterConfig)
    (hmalformed : ¬f.Malformed server.tables) (h : ¬f.Unsupported server.tables) :
    ∃ code blob, sourceAvailable server.tables (cached (2 * first)) f.code = .ok code ∧
      sourceAvailable server.tables (cached (2 * first + 1)) f.blob = .ok blob ∧
      setupFilters server cached first (f :: rest) =
        (setupFilters server cached (first + 1) rest).map fun found => (f.filter :: found.1,
          (if code then ∅ else {f.code}) ∪ (if blob then ∅ else {f.blob}) ∪ found.2) := by
  obtain ⟨hcode, hblob⟩ := not_or.mp hmalformed
  obtain ⟨hcode', hblob'⟩ := not_or.mp h
  obtain ⟨_, _, codePath, hcodeOk⟩ := ((sourceAvailable_cases server.tables f.code).resolve_left
    fun hc => hcode hc.1).resolve_left fun hc => hcode' hc.2.1
  obtain ⟨_, _, blobPath, hblobOk⟩ := ((sourceAvailable_cases server.tables f.blob).resolve_left
    fun hc => hblob hc.1).resolve_left fun hc => hblob' hc.2.1
  refine ⟨_, _, hcodeOk _, hblobOk _, ?_⟩
  conv_lhs => unfold setupFilters
  simp only [hcodeOk, hblobOk]

/-- The loop over filters that can be read: it builds them all, or meets a scheme that is
not supported. -/
theorem setupFilters_of_readable {configs : List FilterConfig}
    (h : Readable server.tables configs) :
    ((∀ f ∈ configs, ¬f.Unsupported server.tables) ∧
      ∃ missing, setupFilters server cached first configs =
          .ok (configs.map FilterConfig.filter, missing) ∧
        ∀ uri, uri ∈ missing ↔ Missing server.tables cached first configs uri) ∨
    ((∃ f ∈ configs, f.Unsupported server.tables) ∧
      setupFilters server cached first configs = .error (.rpcError .schemeNotSupported)) := by
  induction configs generalizing first with
  | nil =>
    left
    refine ⟨by simp, ∅, rfl, ?_⟩
    intro uri
    simp [Missing]
  | cons f rest ih =>
    obtain ⟨hmalformed, hrest⟩ := h
    by_cases hunsupported : f.Unsupported server.tables
    · right
      have herror := setupFilters_cons_of_unsupported cached first rest hmalformed hunsupported
      exact ⟨⟨f, List.mem_cons_self, hunsupported⟩, herror⟩
    obtain ⟨code, blob, hcode, hblob, hstep⟩ :=
      setupFilters_cons_of_supported cached first rest hmalformed hunsupported
    rcases ih (first + 1) (hrest hunsupported) with
      ⟨hall, missing, heq, hmissing⟩ | ⟨⟨g, hg, hother⟩, heq⟩
    · left
      rw [heq] at hstep
      refine ⟨List.forall_mem_cons.mpr ⟨hunsupported, hall⟩, _, hstep, ?_⟩
      intro uri
      rw [missing_cons, hcode, hblob]
      cases code <;> cases blob <;> simp [hmissing, or_assoc]
    · right
      rw [heq] at hstep
      exact ⟨⟨g, List.mem_cons_of_mem _ hg, hother⟩, hstep⟩

/-- A malformed URI that comes before all unsupported sources ends the whole loop; none of the
filters in front of it can stop that. -/
theorem setupFilters_of_not_readable {configs : List FilterConfig}
    (h : ¬Readable server.tables configs) :
    setupFilters server cached first configs = .error (.filter .valueError) := by
  induction configs generalizing first with
  | nil => exact absurd trivial h
  | cons f rest ih =>
    by_cases hmalformed : f.Malformed server.tables
    · exact setupFilters_cons_of_malformed cached first rest hmalformed
    by_cases hunsupported : f.Unsupported server.tables
    · exact absurd ⟨hmalformed, fun hno => absurd hunsupported hno⟩ h
    obtain ⟨code, blob, _, _, hstep⟩ :=
      setupFilters_cons_of_supported cached first rest hmalformed hunsupported
    have hrest : ¬Readable server.tables rest := by
      intro hrest
      exact h ⟨hmalformed, fun _ => hrest⟩
    rw [ih (first + 1) hrest] at hstep
    exact hstep

end Loop

/-- Reading and verifying the cookies ends normally or with a `ScopeError`. -/
structure CookiesOk (server : Server δ υ) (clock : ℕ → ℤ) (cookies : List Text) : Prop where
  /-- `ScopeCookie.parse`. -/
  parse : ∀ text ∈ cookies, ∀ raised, Scope.parse server.formats text = .error raised →
    raised.IsScopeError
  /-- `ScopeCookie.verify`. -/
  verify : ∀ text ∈ cookies, ∀ cookie, Scope.parse server.formats text = .ok cookie →
    ∀ k raised, cookie.verify server.loadCert (clock k) server.serverids server.certdata =
      .error raised → raised.IsScopeError

/-- A request that is answered: its URIs can be looked up as far as they are looked at, and
its dependencies can be resolved if all of them are supported. -/
structure SetupParams.Answerable (server : Server δ υ) (params : SetupParams) : Prop where
  /-- No malformed URI comes before the first filter that is not supported. -/
  readable : Readable server.tables params.filters
  /-- The dependencies are known and have no cycle. -/
  resolvable : (∀ f ∈ params.filters, ¬f.Unsupported server.tables) →
    FilterDependencies.Resolvable (params.filters.map fun f => f.filter.declaration)

/-- The setup returns the missing URIs and commits the scope and the filters of the request,
or it raises an `RPCError` and changes nothing. -/
def AllOrNothing [AddCommGroup V] {server : Server δ υ} (params : SetupParams) (world : World V)
    (state : State server V) : Prop :=
  (∃ missing cookies filters, handle state ⟨.setup params, world⟩ = (.ok (.blobList missing),
      { state with scope := some cookies, filters := filters }) ∧
    (∀ uri, uri ∈ missing ↔ Missing server.tables world.cached 0 params.filters uri) ∧
    params.cookies.mapM (parse server.formats) = .ok cookies ∧
    FilterStack.new (params.filters.map FilterConfig.filter) = .ok filters) ∨
  ∃ error, handle state ⟨.setup params, world⟩ = (.error (.rpcError error), state)

/-- An exception of the filter code is no answer. -/
theorem not_allOrNothing_of_raised [AddCommGroup V] {server : Server δ υ} {params : SetupParams}
    {world : World V} {state : State server V} {raised : FilterSources.Raised}
    (h : (handle state ⟨.setup params, world⟩).1 = .error (.filter raised)) :
    ¬AllOrNothing params world state := by
  rintro (⟨_, _, _, heq, _⟩ | ⟨_, heq⟩)
  · have hresult := h.symm.trans (congrArg Prod.fst heq)
    cases hresult
  · have hresult := h.symm.trans (congrArg Prod.fst heq)
    cases hresult

/-- The handlers of `setup` turn each `ScopeError` into an `RPCError`. -/
theorem scopeException_of_isScopeError {raised : Scope.Raised δ} (h : raised.IsScopeError) :
    ∃ error, scopeException raised = .rpcError error := by
  cases raised with
  | scopeError message => exact ⟨_, rfl⟩
  | scopeCookieExpired expires => exact ⟨_, rfl⟩
  | _ => cases h

/-- Verifying some cookies raises nothing but a `ScopeError` where no single one does. -/
theorem isScopeError_of_verifyAll {server : Server δ υ} {clock : ℕ → ℤ} {first : ℕ}
    {cookies : List (Cookie server)} {raised : Scope.Raised δ}
    (h : ∀ cookie ∈ cookies, ∀ k raised, cookie.verify server.loadCert (clock k) server.serverids
      server.certdata = .error raised → raised.IsScopeError)
    (herror : verifyAll server clock first cookies = .error raised) : raised.IsScopeError := by
  induction cookies generalizing first with
  | nil => cases herror
  | cons cookie rest ih =>
    have hrest := fun other hother => h other (List.mem_cons_of_mem cookie hother)
    rw [verifyAll] at herror
    split at herror
    · exact ih hrest herror
    · split at herror
      · rename_i other hverify
        cases herror
        exact h cookie List.mem_cons_self _ _ hverify
      · exact ih hrest herror

/-- When no certificate verifies a signature, the loop ends with a `ScopeError`: the first failure
that it is called with, or that of the last certificate which knew the key. -/
theorem isScopeError_of_findCertificate {now : ℤ} {data signature : List UInt8} {failure : Text}
    {certs : List Certificate} {raised : Scope.Raised δ}
    (h : findCertificate now data signature failure certs = .error raised) :
    raised.IsScopeError := by
  induction certs generalizing failure with
  | nil =>
    cases h
    trivial
  | cons cert rest ih =>
    rw [findCertificate] at h
    split_ifs at h
    all_goals exact ih h

/-- Where all certificates can be loaded and the signed data can be encoded, `verify` raises
nothing but a `ScopeError`. -/
theorem isScopeError_of_verify {server : Server δ υ} {cookie : Cookie server} {now : ℤ}
    {certs : List Certificate} {raised : Scope.Raised δ}
    (hcerts : (Lib.Patterns.findAll encodedCertificate server.certdata).mapM server.loadCert =
      some certs)
    (hdata : (encodeUtf8 cookie.data).isSome)
    (h : cookie.verify server.loadCert now server.serverids server.certdata = .error raised) :
    raised.IsScopeError := by
  obtain ⟨data, hdata⟩ := Option.isSome_iff_exists.mp hdata
  unfold ScopeCookie.verify at h
  rw [hcerts, hdata] at h
  split_ifs at h
  · cases h
    trivial
  · cases h
    trivial
  · exact isScopeError_of_findCertificate h

/-- A cookie that is verified on its own is accepted in a request on its own. -/
theorem verifyAll_singleton {server : Server δ υ} {clock : ℕ → ℤ} {k : ℕ} {cookie : Cookie server}
    (h : cookie.verify server.loadCert (clock k) server.serverids server.certdata = .ok ()) :
    verifyAll server clock k [cookie] = .ok () := by
  rw [verifyAll, h]
  split <;> rfl

/-- The cookies of a request give a scope or a `ScopeError`. -/
theorem CookiesOk.isScopeError {server : Server δ υ} {clock : ℕ → ℤ} {texts : List Text}
    (h : CookiesOk server clock texts) {raised : Scope.Raised δ}
    (herror : setupCookies server clock texts = .error raised) : raised.IsScopeError := by
  unfold setupCookies at herror
  rcases bind_eq_error herror with hparse | ⟨cookies, hparse, herror⟩
  · obtain ⟨text, htext, hraised⟩ := exists_of_mapM_error hparse
    exact h.parse text htext raised hraised
  rcases bind_eq_error herror with hverify | ⟨_, _, herror⟩
  · refine isScopeError_of_verifyAll ?_ hverify
    intro cookie hcookie
    obtain ⟨text, htext, hcookie⟩ := exists_of_mem_forall₂ (forall₂_of_mapM_ok hparse) hcookie
    exact h.verify text htext cookie hcookie
  · cases herror

/-- Setup is all or nothing exactly on the requests that it can answer. The cookies may be good or
bad, as long as reading and verifying them ends normally or with a `ScopeError`. -/
theorem setup_allOrNothing_iff [AddCommGroup V] {server : Server δ υ} {params : SetupParams}
    {world : World V} {state : State server V} (hrunning : state.running = false)
    (hcookies : CookiesOk server world.clock params.cookies) :
    AllOrNothing params world state ↔ params.Answerable server := by
  have hhandle : handle state ⟨.setup params, world⟩ = setup params world state :=
    running_available hrunning
  have hdeclaration : (params.filters.map FilterConfig.filter).map
      FilterSources.Filter.declaration = params.filters.map fun f => f.filter.declaration := by
    rw [List.map_map]
    rfl
  by_cases hreadable : Readable server.tables params.filters
  swap
  -- a malformed URI ends the process
  · have herror := setupFilters_of_not_readable world.cached 0 hreadable
    have hraised : ¬AllOrNothing params world state :=
      not_allOrNothing_of_raised (by simp only [hhandle, setup, herror]; rfl)
    constructor
    · intro hall
      exact absurd hall hraised
    · intro hanswerable
      exact absurd hanswerable.readable hreadable
  rcases setupFilters_of_readable world.cached 0 hreadable with
    ⟨hsupported, missing, hfilters, hmissing⟩ | ⟨hunsupported, hfilters⟩
  swap
  · constructor
    · intro _
      refine ⟨hreadable, ?_⟩
      intro hall
      obtain ⟨f, hf, hno⟩ := hunsupported
      exact absurd hno (hall f hf)
    · intro _
      right
      exact ⟨.schemeNotSupported, by simp only [hhandle, setup, hfilters]⟩
  have hresolvable := FilterStack.new_ok_iff (params.filters.map FilterConfig.filter)
  rw [hdeclaration] at hresolvable
  cases hstack : FilterStack.new (params.filters.map FilterConfig.filter) with
  | error raised =>
    have hraised : ¬AllOrNothing params world state :=
      not_allOrNothing_of_raised (by simp only [hhandle, setup, hfilters, hstack]; rfl)
    constructor
    · intro hall
      exact absurd hall hraised
    · intro hanswerable
      obtain ⟨stack, hok⟩ := hresolvable.mpr (hanswerable.resolvable hsupported)
      rw [hstack] at hok
      cases hok
  | ok stack =>
    have hanswerable : params.Answerable server :=
      ⟨hreadable, fun _ => hresolvable.mp ⟨stack, hstack⟩⟩
    refine ⟨fun _ => hanswerable, fun _ => ?_⟩
    cases hscope : setupCookies server world.clock params.cookies with
    | error raised =>
      obtain ⟨error, herror⟩ := scopeException_of_isScopeError (hcookies.isScopeError hscope)
      right
      exact ⟨error, by simp only [hhandle, setup, hfilters, hstack, hscope, herror]⟩
    | ok cookies =>
      left
      refine ⟨missing, cookies, stack, ?_, hmissing, (verifyAll_of_setupCookies hscope).1, hstack⟩
      simp only [hhandle, setup, hfilters, hstack, hscope]

/-- A filter with the given dependencies. -/
def sampleConfig (dependencies : List String) : FilterConfig :=
  ⟨"f", [], dependencies, .zero, .one, "sha256:ab", "sha256:cd"⟩

/-- The URIs of the sample filter can be looked up. -/
theorem readable_sampleConfig (dependencies : List String) :
    Readable sampleServer.tables [sampleConfig dependencies] := by
  have hcode : splitScheme sampleServer.tables "sha256:ab" = some ("sha256", "ab") := by decide
  have hblob : splitScheme sampleServer.tables "sha256:cd" = some ("sha256", "cd") := by decide
  refine ⟨not_or.mpr ⟨?_, ?_⟩, fun _ => trivial⟩
  · exact not_malformed_of_split hcode fun _ => by decide
  · exact not_malformed_of_split hblob fun _ => by decide

/-- A filter named `g` that depends on `f`, and `f` behind it. -/
def chainConfigs : List FilterConfig :=
  [{ sampleConfig ["f"] with name := "g" }, sampleConfig []]

/-- A server with one certificate, whose key accepts every signature. -/
def trustingServer : Server Unit Unit := { sampleServer with
  loadCert _ := some ⟨fun _ _ => true, true, 0, 1893456000000000⟩
  certdata := ofString "-----BEGIN CERTIFICATE-----\nMIIB\n-----END CERTIFICATE-----\n" }

/-- An encoded cookie for the server `localhost` and one scope URL. -/
def signedText : Text :=
  ofString (String.join ["-----BEGIN OPENDIAMOND SCOPECOOKIE-----\n",
    "YzAxZApWZXJzaW9uOiAxClNlcmlhbDogNmJhN2I4MTAtOWRhZC00MWQxLTgwYjQt\n",
    "MDBjMDRmZDQzMGM4CkV4cGlyZXM6IDIwMzAtMDEtMDFUMDA6MDA6MDArMDA6MDAK\n",
    "U2VydmVyczogbG9jYWxob3N0CgpodHRwOi8vbG9jYWxob3N0L3Njb3BlCg==\n",
    "-----END OPENDIAMOND SCOPECOOKIE-----\n"])

/-- A text without the boundary markers of a cookie. -/
def unmarkedText : Text := ofString "localhost"

/-- The sample cookie is read; it names the server, and its data can be encoded again. -/
theorem parse_signedText : ∃ cookie, parse sampleFormats signedText = .ok cookie ∧
    cookie.servers = [ofString "localhost"] ∧ (encodeUtf8 cookie.data).isSome := by
  have hread : (parse sampleFormats signedText).toOption.map (fun cookie =>
      (cookie.servers, (encodeUtf8 cookie.data).isSome)) =
      some ([ofString "localhost"], true) := by
    decide +kernel
  cases hparse : parse sampleFormats signedText with
  | error raised =>
    rw [hparse] at hread
    cases hread
  | ok cookie =>
    rw [hparse] at hread
    have hboth := Prod.mk.inj (Option.some.inj hread)
    exact ⟨cookie, rfl, hboth.1, hboth.2⟩

/-- The other text is refused for its missing boundary markers. -/
theorem parse_unmarkedText : parse sampleFormats unmarkedText =
    .error (.scopeError (ofString "Invalid boundary markers")) := by
  rfl

/-- The sample server has one certificate, and it can be loaded. -/
theorem certificates_trustingServer :
    (Lib.Patterns.findAll encodedCertificate trustingServer.certdata).mapM
      trustingServer.loadCert = some [⟨fun _ _ => true, true, 0, 1893456000000000⟩] := by
  rfl

/-- The first text is read; the second one is refused for its missing markers. -/
theorem cookiesOk_trustingServer :
    CookiesOk trustingServer sampleWorld.clock [signedText, unmarkedText] := by
  obtain ⟨read, hread, -, hdata⟩ := parse_signedText
  constructor
  · intro text htext raised hraised
    rcases List.mem_pair.mp htext with heq | heq
    · cases hread.symm.trans (heq ▸ hraised)
    · cases parse_unmarkedText.symm.trans (heq ▸ hraised)
      trivial
  · intro text htext cookie hcookie k raised hraised
    rcases List.mem_pair.mp htext with heq | heq
    · cases hread.symm.trans (heq ▸ hcookie)
      exact isScopeError_of_verify certificates_trustingServer hdata hraised
    · cases parse_unmarkedText.symm.trans (heq ▸ hcookie)

/-- The cookie is unexpired, for the server's name, and signed by its certificate. -/
theorem setupCookies_signedText :
    (setupCookies trustingServer sampleWorld.clock [signedText]).isOk = true := by
  obtain ⟨read, hread, hservers, hdata⟩ := parse_signedText
  obtain ⟨data, hdata⟩ := Option.isSome_iff_exists.mp hdata
  have hverify : read.verify trustingServer.loadCert (sampleWorld.clock 0) trustingServer.serverids
      trustingServer.certdata = .ok () := by
    unfold ScopeCookie.verify
    rw [certificates_trustingServer, hdata, hservers]
    rfl
  have hparse : [signedText].mapM (parse trustingServer.formats) = .ok [read] := by
    rw [List.mapM_cons, List.mapM_nil]
    exact congrArg (· >>= fun cookie => pure [cookie]) hread
  have hall : verifyAll trustingServer sampleWorld.clock 0 [read] = .ok () :=
    verifyAll_singleton hverify
  rw [setupCookies, hparse]
  exact congrArg (fun result => Except.isOk (result >>= fun _ => pure [read])) hall

/-- The text behind the cookie is refused before anything is verified. -/
theorem setupCookies_unmarkedText :
    (setupCookies trustingServer sampleWorld.clock [signedText, unmarkedText]).isOk = false := by
  obtain ⟨read, hread, -, -⟩ := parse_signedText
  have hparse : [signedText, unmarkedText].mapM (parse trustingServer.formats) =
      .error (.scopeError (ofString "Invalid boundary markers")) := by
    simp only [List.mapM_cons]
    have hfirst : parse trustingServer.formats signedText = .ok read := hread
    have hsecond : parse trustingServer.formats unmarkedText =
        .error (.scopeError (ofString "Invalid boundary markers")) := parse_unmarkedText
    rw [hfirst, hsecond]
    rfl
  rw [setupCookies, hparse]
  rfl

/-- The URIs of both filters can be looked up. -/
theorem readable_chainConfigs : Readable trustingServer.tables chainConfigs := by
  have hsample := readable_sampleConfig []
  exact ⟨hsample.1, fun _ => hsample⟩

/-- These filters are answered whatever cookies come with them. -/
theorem answerable_chainConfigs (cookies : List Text) :
    (SetupParams.mk cookies chainConfigs).Answerable trustingServer where
  readable := readable_chainConfigs
  resolvable _ := (FilterStack.new_ok_iff (chainConfigs.map FilterConfig.filter)).mp ⟨_, rfl⟩

/-- With a cookie that is read and verified, two filters are set up and committed; with a text that
is no cookie behind it, the same filters are refused and nothing changes. -/
theorem setup_allOrNothing_chain :
    ((setupCookies trustingServer sampleWorld.clock [signedText]).isOk = true ∧
        AllOrNothing ⟨[signedText], chainConfigs⟩ sampleWorld (State.new trustingServer ℤ)) ∧
      (setupCookies trustingServer sampleWorld.clock [signedText, unmarkedText]).isOk = false ∧
        AllOrNothing ⟨[signedText, unmarkedText], chainConfigs⟩ sampleWorld
          (State.new trustingServer ℤ) := by
  have hboth := cookiesOk_trustingServer
  have hpart : [signedText].Sublist [signedText, unmarkedText] := List.sublist_append_left _ _
  have hfirst : CookiesOk trustingServer sampleWorld.clock [signedText] :=
    ⟨fun text htext => hboth.parse text (hpart.mem htext),
      fun text htext => hboth.verify text (hpart.mem htext)⟩
  refine ⟨⟨setupCookies_signedText, ?_⟩, setupCookies_unmarkedText, ?_⟩
  · exact (setup_allOrNothing_iff rfl hfirst).mpr (answerable_chainConfigs [signedText])
  · exact (setup_allOrNothing_iff rfl hboth).mpr
      (answerable_chainConfigs [signedText, unmarkedText])

/-- A dependency on a filter that is not there raises an exception that is no `RPCError`, and ends
the process. -/
theorem setup_unknown_dependency :
    ¬AllOrNothing ⟨[], [sampleConfig ["g"]]⟩ sampleWorld (State.new sampleServer ℤ) := by
  have hsetup : (handle (State.new sampleServer ℤ)
      ⟨.setup ⟨[], [sampleConfig ["g"]]⟩, sampleWorld⟩).1 =
        .error (.filter (.filterDependencyError "No such filter: g")) := by
    rfl
  exact not_allOrNothing_of_raised hsetup

end Setup

end OpenDiamond.Search
