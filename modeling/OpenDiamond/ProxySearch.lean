import OpenDiamond.ProxyFilters

/-!
# Setting up a search at the proxy

The proxy takes the filter named PROXY out of a request and keeps the others for its servers. What
it takes out is decided by a field that outlives the request, at an index that is zero when the
request has no such filter.
-/

namespace OpenDiamond.ProxySearch

open Lib.OrderedDict Lib.Unicode ProxyFilters Scope Search

variable {δ υ F M : Type}

/-! ## The program -/

/-- How a setup fails. -/
inductive Raised (δ : Type) where
  /-- The search is running. -/
  | procedureUnavailable
  /-- `DiamondRPCCookieExpired`. -/
  | cookieExpired
  /-- `DiamondRPCFailure`. -/
  | failure
  /-- An exception of the scope code that is no `ScopeError`. -/
  | scope (raised : Scope.Raised δ)
  /-- An exception of `ProxyFilter`. -/
  | proxyFilter (raised : ProxyFilters.Raised)
  /-- A filter to remove from an empty list. -/
  | indexError
  /-- A server that cannot be connected. -/
  | connection

/-- `ProxySearch`. -/
structure State (formats : Formats δ υ) (F M : Type) where
  /-- `blast_start`. -/
  blastStart : Bool
  /-- `_running`. -/
  running : Bool
  /-- `_scope`. -/
  scope : Option (List (ScopeCookie formats υ))
  /-- `_cookie_map`. -/
  cookieMap : Dict Text (List (ScopeCookie formats υ))
  /-- `_filters`, which the first setup creates. -/
  filters : Option (List FilterConfig)
  /-- The hosts of `_connections`. -/
  connections : Option (List Text)
  /-- The hosts of the connections in `_blast`. -/
  blast : Option (List Text)
  /-- `missing_blob_list`. -/
  missingBlobList : Finset String
  /-- `proxy_filter`. -/
  proxyFilter : Option (ProxyFilter F M)

variable {formats : Formats δ υ}

/-- `ProxySearch.__init__`. -/
def State.new (formats : Formats δ υ) (F M : Type) : State formats F M where
  blastStart := false
  running := false
  scope := none
  cookieMap := Dict.empty
  filters := none
  connections := none
  blast := none
  missingBlobList := ∅
  proxyFilter := none

/-- `get_cookie_map`. -/
def getCookieMap (cookies : List (ScopeCookie formats υ)) :
    Dict Text (List (ScopeCookie formats υ)) :=
  cookies.foldl (fun map cookie =>
    cookie.servers.foldl (fun map server =>
      map.set server ((map.get? server).getD [] ++ [cookie])) map) Dict.empty

/-- What the loop over the filters has found. -/
structure Found (F M : Type) where
  /-- `proxy_filter`. -/
  proxyFilter : Option (ProxyFilter F M)
  /-- `proxy_index`. -/
  proxyIndex : ℕ
  /-- `missing_blob_list`. -/
  missing : Finset String

/-- The loop over the filters, from some index on. -/
def scan : ℕ → List FilterConfig → Found F M → Option ProxyFilters.Raised × Found F M
  | _, [], found => (none, found)
  | i, f :: rest, found =>
    let missing := insert f.blob (insert f.code found.missing)
    if f.name = "PROXY" then
      match ProxyFilter.new f with
      | .error raised => (some raised, found)
      | .ok proxyFilter => scan (i + 1) rest ⟨some proxyFilter, i, missing⟩
    else scan (i + 1) rest ⟨found.proxyFilter, found.proxyIndex, missing⟩

/-- The filters without that at `proxy_index` when there is a `proxy_filter`. -/
def remove (found : Found F M) (filters : List FilterConfig) : Option (List FilterConfig) :=
  if found.proxyFilter.isSome then
    if found.proxyIndex < filters.length then some (filters.eraseIdx found.proxyIndex) else none
  else some filters

/-- The handlers for the exceptions of the scope code. -/
def scopeRaised : Scope.Raised δ → Raised δ
  | .scopeCookieExpired _ => .cookieExpired
  | .scopeError _ => .failure
  | raised => .scope raised

/-- A request, and which servers can be connected. -/
structure Request where
  /-- The request. -/
  params : SetupParams
  /-- `connect` succeeds. -/
  connect : Text → Bool

/-- `ProxySearch.setup`. -/
def setup (request : Request) (state : State formats F M) :
    Except (Raised δ) (Finset String) × State formats F M :=
  if state.running then (.error .procedureUnavailable, state)
  else
    let state := { state with blastStart := false }
    match request.params.cookies.mapM (parse formats) with
    | .error raised => (.error (scopeRaised raised), state)
    | .ok cookies =>
      let cookieMap := getCookieMap cookies
      let (raised, found) := scan 0 request.params.filters ⟨state.proxyFilter, 0, ∅⟩
      let state := { state with
        cookieMap := cookieMap
        filters := some request.params.filters
        scope := some cookies
        connections := some cookieMap.keys
        blast := some cookieMap.keys
        missingBlobList := found.missing
        proxyFilter := found.proxyFilter }
      match raised with
      | some raised => (.error (.proxyFilter raised), state)
      | none =>
        match remove found request.params.filters with
        | none => (.error .indexError, state)
        | some filters =>
          let state := { state with filters := some filters }
          if cookieMap.keys.all request.connect then (.ok found.missing, state)
          else (.error .connection, state)

/-- The search after some setups. -/
def after (formats : Formats δ υ) (F M : Type) (requests : List Request) : State formats F M :=
  requests.foldl (fun state request => (setup request state).2) (.new formats F M)

/-! ## The loop over the filters -/

/-- Filters for the servers. -/
def Plain (filters : List FilterConfig) : Prop := ∀ f ∈ filters, f.name ≠ "PROXY"

/-- At most one filter for the proxy. -/
def AtMostOne (filters : List FilterConfig) : Prop :=
  filters.countP (fun f => f.name = "PROXY") ≤ 1

instance (filters : List FilterConfig) : Decidable (AtMostOne filters) :=
  inferInstanceAs (Decidable (_ ≤ _))

theorem AtMostOne.cases {filters : List FilterConfig} (h : AtMostOne filters) :
    Plain filters ∨ ∃ before f rest, filters = before ++ f :: rest ∧ f.name = "PROXY" ∧
      Plain before ∧ Plain rest := by
  by_cases hplain : Plain filters
  · exact .inl hplain
  · obtain ⟨f, hf, hname⟩ : ∃ f ∈ filters, f.name = "PROXY" := by
      by_contra hnone
      exact hplain fun f hf hname => hnone ⟨f, hf, hname⟩
    obtain ⟨before, rest, rfl⟩ := List.append_of_mem hf
    unfold AtMostOne at h
    rw [List.countP_append, List.countP_cons_of_pos (by simpa using hname)] at h
    have hbefore : before.countP (fun f => f.name = "PROXY") = 0 := by omega
    have hrest : rest.countP (fun f => f.name = "PROXY") = 0 := by omega
    refine .inr ⟨before, f, rest, rfl, hname, fun g hg => ?_, fun g hg => ?_⟩
    · simpa using List.countP_eq_zero.mp hbefore g hg
    · simpa using List.countP_eq_zero.mp hrest g hg

theorem scan_plain {filters : List FilterConfig} (h : Plain filters) (i : ℕ) (found : Found F M) :
    ∃ missing, scan i filters found = (none, ⟨found.proxyFilter, found.proxyIndex, missing⟩) := by
  induction filters generalizing i found with
  | nil => exact ⟨found.missing, rfl⟩
  | cons f rest ih =>
    rw [scan, if_neg (h f List.mem_cons_self)]
    exact ih (fun g hg => h g (List.mem_cons_of_mem f hg)) (i + 1) _

/-- Filters for the servers in front only move the index. -/
theorem scan_append {before : List FilterConfig} (h : Plain before) (rest : List FilterConfig)
    (i : ℕ) (found : Found F M) :
    ∃ missing, scan i (before ++ rest) found =
      scan (i + before.length) rest ⟨found.proxyFilter, found.proxyIndex, missing⟩ := by
  induction before generalizing i found with
  | nil => exact ⟨found.missing, rfl⟩
  | cons f before ih =>
    rw [List.cons_append, scan, if_neg (h f List.mem_cons_self), List.length_cons,
      Nat.add_comm before.length, ← Nat.add_assoc]
    exact ih (fun g hg => h g (List.mem_cons_of_mem f hg)) (i + 1) _

/-- A filter for the proxy that can be built is found with its index. -/
theorem scan_proxy {before rest : List FilterConfig} {f : FilterConfig} (hname : f.name = "PROXY")
    (hbefore : Plain before) (hrest : Plain rest) {proxyFilter : ProxyFilter F M}
    (hnew : ProxyFilter.new f = .ok proxyFilter) (found : Found F M) :
    ∃ missing, scan 0 (before ++ f :: rest) found =
      (none, ⟨some proxyFilter, before.length, missing⟩) := by
  obtain ⟨missing, hscan⟩ := scan_append hbefore (f :: rest) 0 found
  rw [hscan, scan, if_pos hname, hnew, Nat.zero_add]
  exact scan_plain hrest _ _

/-- One that cannot be built ends the setup and is forgotten. -/
theorem scan_proxy_error {before rest : List FilterConfig} {f : FilterConfig}
    (hname : f.name = "PROXY") (hbefore : Plain before) {raised : ProxyFilters.Raised}
    (hnew : (ProxyFilter.new f : Except _ (ProxyFilter F M)) = .error raised) (found : Found F M) :
    ∃ missing, scan 0 (before ++ f :: rest) found =
      (some raised, ⟨found.proxyFilter, found.proxyIndex, missing⟩) := by
  obtain ⟨missing, hscan⟩ := scan_append hbefore (f :: rest) 0 found
  rw [hscan, scan, if_pos hname, hnew]
  exact ⟨missing, rfl⟩

/-- What the loop finds among filters of which at most one is for the proxy. -/
theorem AtMostOne.scan {filters : List FilterConfig} (h : AtMostOne filters) (found : Found F M) :
    (Plain filters ∧ ∃ missing,
      scan 0 filters found = (none, ⟨found.proxyFilter, found.proxyIndex, missing⟩)) ∨
    ∃ before f rest, filters = before ++ f :: rest ∧ f.name = "PROXY" ∧ Plain before ∧ Plain rest ∧
      ((∃ proxyFilter missing, ProxyFilter.new f = .ok proxyFilter ∧
        scan 0 filters found = (none, ⟨some proxyFilter, before.length, missing⟩)) ∨
      ∃ raised missing, (ProxyFilter.new f : Except _ (ProxyFilter F M)) = .error raised ∧
        scan 0 filters found = (some raised, ⟨found.proxyFilter, found.proxyIndex, missing⟩)) := by
  rcases h.cases with hplain | ⟨before, f, rest, rfl, hname, hbefore, hrest⟩
  · exact .inl ⟨hplain, scan_plain hplain 0 found⟩
  · refine .inr ⟨before, f, rest, rfl, hname, hbefore, hrest, ?_⟩
    cases hnew : (ProxyFilter.new f : Except _ (ProxyFilter F M)) with
    | ok proxyFilter =>
      obtain ⟨missing, hscan⟩ := scan_proxy hname hbefore hrest hnew found
      exact .inl ⟨proxyFilter, missing, rfl, hscan⟩
    | error raised =>
      obtain ⟨missing, hscan⟩ :=
        @scan_proxy_error F M before rest f hname hbefore raised hnew found
      exact .inr ⟨raised, missing, rfl, hscan⟩

/-! ## One setup -/

/-- The filters of the latest request are kept but for that of the proxy, which is built from it. -/
structure Forwards (requested : List FilterConfig) (state : State formats F M) : Prop where
  /-- `_filters`. -/
  filters : state.filters = some (requested.filter fun f => f.name ≠ "PROXY")
  /-- `proxy_filter`. -/
  proxyFilter : match requested.find? fun f => f.name = "PROXY" with
    | none => state.proxyFilter = none
    | some f => ∃ proxyFilter, ProxyFilter.new f = .ok proxyFilter ∧
      state.proxyFilter = some proxyFilter

/-- A request that builds a filter for the proxy. -/
def Builds (formats : Formats δ υ) (F M : Type) (request : Request) : Prop :=
  (request.params.cookies.mapM (parse formats)).isOk = true ∧
    ∃ f ∈ request.params.filters, f.name = "PROXY" ∧
      (ProxyFilter.new f : Except _ (ProxyFilter F M)).isOk = true

/-- A request with cookies that can be read, servers that can be connected and a filter for the proxy
that can be built, if any. -/
structure Accepted (formats : Formats δ υ) (F M : Type) (request : Request) : Prop where
  /-- Cookies and servers. -/
  connected : ∃ cookies, request.params.cookies.mapM (parse formats) = .ok cookies ∧
    (getCookieMap cookies).keys.all request.connect = true
  /-- The filter for the proxy. -/
  built : ∀ f ∈ request.params.filters, f.name = "PROXY" →
    (ProxyFilter.new f : Except _ (ProxyFilter F M)).isOk = true

section Step

variable {request : Request} {state : State formats F M}

/-- When the cookies cannot be read nothing but `blast_start` changes, and the proxy keeps its
filter. -/
theorem setup_of_error (hrunning : state.running = false) {raised : Scope.Raised δ}
    (hcookies : request.params.cookies.mapM (parse formats) = .error raised) :
    setup request state = (.error (scopeRaised raised), { state with blastStart := false }) := by
  unfold setup
  rw [hrunning, hcookies]
  rfl

/-- With cookies the outcome is that of the loop, the removal and the connections. -/
theorem setup_of_ok (hrunning : state.running = false)
    {cookies : List (ScopeCookie formats υ)}
    (hcookies : request.params.cookies.mapM (parse formats) = .ok cookies)
    {raised : Option ProxyFilters.Raised} {found : Found F M}
    (hscan : scan 0 request.params.filters ⟨state.proxyFilter, 0, ∅⟩ = (raised, found)) :
    (setup request state).2.running = false ∧
      (setup request state).2.proxyFilter = found.proxyFilter ∧
      ((setup request state).1.isOk = true ↔ raised = none ∧
        (remove found request.params.filters).isSome = true ∧
          (getCookieMap cookies).keys.all request.connect = true) ∧
      ∀ filters, raised = none → remove found request.params.filters = some filters →
        (setup request state).2.filters = some filters := by
  unfold setup
  rw [hrunning, hcookies]
  simp only [Bool.false_eq_true, if_false, hscan]
  cases raised with
  | some raised => exact ⟨rfl, rfl, iff_of_false (fun h => nomatch h) fun h => (nomatch h.1),
      fun _ h => nomatch h⟩
  | none =>
    cases hremove : remove found request.params.filters with
    | none => exact ⟨rfl, rfl, iff_of_false (fun h => nomatch h) fun h => (nomatch h.2.1),
        fun _ _ h => nomatch h⟩
    | some filters =>
      simp only
      split
      · rename_i hall
        exact ⟨rfl, rfl, iff_of_true rfl ⟨trivial, rfl, hall⟩, fun _ _ h => h⟩
      · rename_i hall
        exact ⟨rfl, rfl, iff_of_false (fun h => nomatch h) fun h => hall h.2.2, fun _ _ h => h⟩

theorem find?_plain {filters : List FilterConfig} (h : Plain filters) :
    (filters.find? fun f => f.name = "PROXY") = none :=
  List.find?_eq_none.mpr fun f hf => by simpa using h f hf

theorem filter_plain {filters : List FilterConfig} (h : Plain filters) :
    (filters.filter fun f => f.name ≠ "PROXY") = filters :=
  List.filter_eq_self.mpr fun f hf => by simpa using h f hf

/-- The proxy has a filter when it had one or the request builds one. -/
theorem setup_proxyFilter (hone : AtMostOne request.params.filters)
    (hrunning : state.running = false) :
    (setup request state).2.running = false ∧
      ((setup request state).2.proxyFilter = none ↔
        state.proxyFilter = none ∧ ¬Builds formats F M request) := by
  unfold Builds
  cases hcookies : request.params.cookies.mapM (parse formats) with
  | error raised =>
    rw [setup_of_error hrunning hcookies]
    exact ⟨hrunning, (and_iff_left fun h => nomatch h.1).symm⟩
  | ok cookies =>
    rcases hone.scan ⟨state.proxyFilter, 0, ∅⟩ with ⟨hplain, missing, hscan⟩ |
      ⟨before, f, rest, hfilters, hname, hbefore, hrest, ⟨proxyFilter, missing, hnew, hscan⟩ |
        ⟨raised, missing, hnew, hscan⟩⟩
    · obtain ⟨hafter, hproxy, -⟩ := setup_of_ok hrunning hcookies hscan
      rw [hproxy]
      refine ⟨hafter, (and_iff_left ?_).symm⟩
      rintro ⟨-, f, hf, hname, -⟩
      exact hplain f hf hname
    · obtain ⟨hafter, hproxy, -⟩ := setup_of_ok hrunning hcookies hscan
      have hmem : f ∈ request.params.filters := hfilters ▸ List.mem_append_right _ List.mem_cons_self
      rw [hproxy]
      refine ⟨hafter, iff_of_false (fun h => nomatch h) fun h => h.2 ?_⟩
      exact ⟨rfl, f, hmem, hname, by rw [hnew]; rfl⟩
    · obtain ⟨hafter, hproxy, -⟩ := setup_of_ok hrunning hcookies hscan
      rw [hproxy]
      refine ⟨hafter, (and_iff_left ?_).symm⟩
      rintro ⟨-, g, hg, hgname, hbuilt⟩
      rw [hfilters, List.mem_append, List.mem_cons] at hg
      rcases hg with hg | rfl | hg
      · exact hbefore g hg hgname
      · rw [hnew] at hbuilt
        cases hbuilt
      · exact hrest g hg hgname

/-- A setup forwards the filters of its request unless it has no filter for the proxy and the proxy
still has one. -/
theorem setup_forwards_iff (hone : AtMostOne request.params.filters)
    (hrunning : state.running = false) :
    ((setup request state).1.isOk = true →
        Forwards request.params.filters (setup request state).2) ↔
      (Accepted formats F M request → Plain request.params.filters → request.params.filters ≠ [] →
        state.proxyFilter = none) := by
  cases hcookies : request.params.cookies.mapM (parse formats) with
  | error raised =>
    rw [setup_of_error hrunning hcookies]
    refine iff_of_true (fun h => nomatch h) fun h => ?_
    obtain ⟨cookies, hok, -⟩ := h.connected
    cases hcookies.symm.trans hok
  | ok cookies =>
    rcases hone.scan ⟨state.proxyFilter, 0, ∅⟩ with ⟨hplain, missing, hscan⟩ |
      ⟨before, f, rest, hfilters, hname, hbefore, hrest, hfound⟩
    · obtain ⟨-, hproxy, hok, hfilters⟩ := setup_of_ok hrunning hcookies hscan
      cases hstate : state.proxyFilter with
      | none =>
        rw [hstate] at hproxy hfilters
        refine iff_of_true (fun _ => ⟨?_, ?_⟩) fun _ _ _ => rfl
        · rw [filter_plain hplain]
          exact hfilters _ rfl rfl
        · rw [find?_plain hplain]
          exact hproxy
      | some stale =>
        rw [hstate] at hproxy hok
        have hnot : ¬Forwards request.params.filters (setup request state).2 := fun h => by
          have hnone := h.proxyFilter
          rw [find?_plain hplain, hproxy] at hnone
          cases hnone
        refine ⟨fun h haccepted _ hne => absurd (h (hok.mpr ⟨rfl, ?_, ?_⟩)) hnot,
          fun h hsuccess => ?_⟩
        · exact congrArg Option.isSome (if_pos (List.length_pos_of_ne_nil hne))
        · obtain ⟨cookies', hcookies', hall⟩ := haccepted.connected
          cases hcookies.symm.trans hcookies'
          exact hall
        · obtain ⟨-, hremove, hall⟩ := hok.mp hsuccess
          have hne : request.params.filters ≠ [] := by
            intro hnil
            rw [hnil] at hremove
            cases hremove
          cases h ⟨⟨cookies, hcookies, hall⟩, fun f hf hname => absurd hname (hplain f hf)⟩ hplain hne
    · have hmem : f ∈ request.params.filters := hfilters ▸ List.mem_append_right _ List.mem_cons_self
      refine iff_of_true (fun hsuccess => ?_) fun _ hplain => absurd hname (hplain f hmem)
      rcases hfound with ⟨proxyFilter, missing, hnew, hscan⟩ | ⟨raised, missing, -, hscan⟩
      · obtain ⟨-, hproxy, -, hkept⟩ := setup_of_ok hrunning hcookies hscan
        have hremove : remove (⟨some proxyFilter, before.length, missing⟩ : Found F M)
            request.params.filters = some (before ++ rest) := by
          have herase : (before ++ f :: rest).eraseIdx before.length = before ++ rest := by
            rw [List.eraseIdx_append_of_length_le le_rfl, Nat.sub_self, List.eraseIdx_zero,
              List.tail_cons]
          simp [remove, hfilters, herase]
        refine ⟨?_, ?_⟩
        · rw [hkept _ rfl hremove, hfilters, List.filter_append,
            List.filter_cons_of_neg (by simpa using hname), filter_plain hbefore, filter_plain hrest]
        · rw [hfilters, List.find?_append, find?_plain hbefore, Option.none_or,
            List.find?_cons_of_pos (by simpa using hname)]
          exact ⟨proxyFilter, hnew, hproxy⟩
      · obtain ⟨-, -, hok, -⟩ := setup_of_ok hrunning hcookies hscan
        cases (hok.mp hsuccess).1

end Step

/-! ## Runs -/

/-- The search is not running, and the proxy has a filter when a request has built one. -/
theorem after_spec {requests : List Request}
    (hone : ∀ request ∈ requests, AtMostOne request.params.filters) :
    (after formats F M requests).running = false ∧
      ((after formats F M requests).proxyFilter = none ↔
        ∀ request ∈ requests, ¬Builds formats F M request) := by
  induction requests using List.reverseRecOn with
  | nil => exact ⟨rfl, iff_of_true rfl fun _ h => absurd h List.not_mem_nil⟩
  | append_singleton requests request ih =>
    obtain ⟨hrunning, hproxy⟩ := ih fun r hr => hone r (List.mem_append_left _ hr)
    have hstep := setup_proxyFilter (hone request (List.mem_append_right _ List.mem_cons_self))
      hrunning
    have hafter : after formats F M (requests ++ [request]) =
        (setup request (after formats F M requests)).2 := List.foldl_concat _ _ _ _
    rw [hafter]
    refine ⟨hstep.1, hstep.2.trans ?_⟩
    rw [hproxy]
    simp only [List.mem_append, List.mem_singleton, or_imp, forall_and, forall_eq]

/-- After every successful setup of a run the filters are those of its request without the proxy's
own, exactly when no request without a filter for the proxy is accepted after one that built one. -/
theorem run_forwards_iff {requests : List Request}
    (hone : ∀ request ∈ requests, AtMostOne request.params.filters) :
    (∀ earlier request later, requests = earlier ++ request :: later →
        (setup request (after formats F M earlier)).1.isOk = true →
          Forwards request.params.filters (setup request (after formats F M earlier)).2) ↔
      ∀ earlier request later, requests = earlier ++ request :: later →
        Accepted formats F M request → Plain request.params.filters →
          request.params.filters ≠ [] → ∀ r ∈ earlier, ¬Builds formats F M r := by
  refine forall_congr' fun earlier => forall_congr' fun request => forall_congr' fun later =>
    forall_congr' fun hrequests => ?_
  subst hrequests
  obtain ⟨hrunning, hproxy⟩ :=
    @after_spec δ υ F M formats earlier fun r hr => hone r (List.mem_append_left _ hr)
  rw [setup_forwards_iff (hone request (List.mem_append_right _ List.mem_cons_self)) hrunning, hproxy]

/-- A filter for the servers. -/
def plainConfig (name : String) : FilterConfig := ⟨name, [], [], .zero, .one, "code", "blob"⟩

/-- A request without cookies. -/
def requestOf (filters : List FilterConfig) : Request := ⟨⟨[], filters⟩, fun _ => true⟩

/-- Two filters for the servers, then requests with the proxy's filter in front and behind. -/
def proxiedRequests : List Request :=
  [requestOf [plainConfig "a", plainConfig "b"], requestOf [sampleConfig, plainConfig "c"],
    requestOf [plainConfig "d", plainConfig "e", sampleConfig]]

theorem atMostOne_proxiedRequests :
    ∀ request ∈ proxiedRequests, AtMostOne request.params.filters := by
  decide

/-- Every request of this run but the first names the proxy. -/
theorem not_plain_proxiedRequests {earlier later : List Request} {request : Request}
    (hrequests : proxiedRequests = earlier ++ request :: later) (hne : earlier ≠ []) :
    ¬Plain request.params.filters := by
  have htail : ∀ r ∈ proxiedRequests.tail, ∃ f ∈ r.params.filters, f.name = "PROXY" := by
    decide
  obtain ⟨_, before, rfl⟩ := List.exists_cons_of_ne_nil hne
  have hmem : request ∈ proxiedRequests.tail :=
    hrequests ▸ List.mem_append_right before List.mem_cons_self
  obtain ⟨f, hf, hname⟩ := htail request hmem
  exact fun hplain => hplain f hf hname

/-- Each setup of this run forwards the filters of its request, and the last one succeeds. -/
theorem run_forwards_proxied :
    (∀ earlier request later, proxiedRequests = earlier ++ request :: later →
        (setup request (after sampleFormats (List ℤ) Unit earlier)).1.isOk = true →
          Forwards request.params.filters
            (setup request (after sampleFormats (List ℤ) Unit earlier)).2) ∧
      (setup (requestOf [plainConfig "d", plainConfig "e", sampleConfig])
        (after sampleFormats (List ℤ) Unit (proxiedRequests.take 2))).1.isOk = true := by
  refine ⟨(run_forwards_iff atMostOne_proxiedRequests).mpr ?_, by decide +kernel⟩
  -- what the condition excludes, a request without the proxy's filter after one with it, is absent
  intro earlier request later hrequests _ hplain _ r hr
  exact absurd hplain (not_plain_proxiedRequests hrequests (List.ne_nil_of_mem hr))

/-- After a request with a filter for the proxy, one without it is set up without its first filter,
and the proxy goes on with the old one. -/
theorem first_filter_lost :
    (setup (requestOf [plainConfig "a", plainConfig "b"])
        (after sampleFormats (List ℤ) Unit [requestOf [sampleConfig, plainConfig "a"]])).1.isOk =
        true ∧
      (setup (requestOf [plainConfig "a", plainConfig "b"])
        (after sampleFormats (List ℤ) Unit
          [requestOf [sampleConfig, plainConfig "a"]])).2.filters.map (·.map (·.name)) =
        some ["b"] ∧
      (setup (requestOf [plainConfig "a", plainConfig "b"])
        (after sampleFormats (List ℤ) Unit
          [requestOf [sampleConfig, plainConfig "a"]])).2.proxyFilter.isSome = true := by
  decide +kernel

end OpenDiamond.ProxySearch
