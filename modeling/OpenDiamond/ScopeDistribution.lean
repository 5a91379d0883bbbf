import OpenDiamond.Lib.Decimal
import OpenDiamond.Lib.Grouping
import OpenDiamond.ProxySearch
import OpenDiamond.ProxyStore

/-!
# A scope on its way to the proxies

`generate_cookie` makes one cookie for the servers, or one for each proxy with that proxy's share
of every scope list, and writes them one behind the other. The client cuts the text apart, parses
the cookies, groups them by the servers they name and encodes them again for each server, which
verifies them when the search is set up. The scope lists that the shares name are written by the
data retriever of the proxy from those of the servers.

Keys, dates and serial numbers are arguments, as are the URL matching of the data retriever and the
transport of a scope list.
-/

namespace OpenDiamond.ScopeDistribution

open Lib.OrderedDict Lib.Unicode Lib.Grouping Lib.Traversal Scope Search ProxySearch

variable {δ υ : Type}

/-! ## Cookies -/

/-- What `generate_cookie` takes from outside, by the number of the cookie. -/
structure Issuer (δ υ : Type) where
  /-- The signing function of the key in `keyfile`. -/
  sign : Bytes → Bytes
  /-- `uuid4`. -/
  uuid4 : ℕ → υ
  /-- `datetime.now(tzutc()) + expires`. -/
  expires : ℕ → δ
  /-- `blaster`. -/
  blaster : Option Text

/-- The inner function `generate`, for the cookie of a number. -/
def generateOne (formats : Formats δ υ) (issuer : Issuer δ υ) (number : ℕ)
    (servers scopeurls : List Text) : Except (Scope.Raised δ) Text := do
  let cookie ← generate formats issuer.sign (issuer.uuid4 number) servers scopeurls
    (issuer.expires number) issuer.blaster
  match cookie.encode with
  | some text => return text
  | none => throw .valueError

/-- The path of a proxy's share of a scope list. -/
def sharePath (index total : ℕ) (server url : Text) : Text :=
  ofString ("/proxy/" ++ toString index ++ "of" ++ toString total ++ "/") ++ server ++
    ofString ":5873" ++ url

/-- The scope of the proxy with an index. -/
def shareUrls (index total : ℕ) (scopeurls servers : List Text) : List Text :=
  scopeurls.flatMap fun url => servers.map fun server => sharePath (index + 1) total server url

/-- `generate_cookie`. -/
def generateCookie (formats : Formats δ υ) (issuer : Issuer δ υ) (scopeurls servers : List Text) :
    Option (List Text) → Except (Scope.Raised δ) Text
  | none => generateOne formats issuer 0 servers scopeurls
  | some proxies => do
    let cookies ← proxies.zipIdx.mapM fun proxy =>
      generateOne formats issuer proxy.2 [proxy.1]
        (shareUrls proxy.2 proxies.length scopeurls servers)
    return cookies.flatten

/-- The cookies of a megacookie, parsed. -/
def parseAll (formats : Formats δ υ) (data : Text) :
    Except (Scope.Raised δ) (List (ScopeCookie formats υ)) :=
  (split data).mapM (parse formats)

/-- `get_blaster_map`. -/
def getBlasterMap {formats : Formats δ υ} (cookies : List (ScopeCookie formats υ)) :
    Dict (Option Text) (List (ScopeCookie formats υ)) :=
  (cookies.foldl (fun map cookie =>
    map.set cookie.blaster ((map.get? cookie.blaster).getD [] ++ [cookie])) Dict.empty).erase none

/-! ## One cookie -/

section Issued

variable {formats : Formats δ υ} {issuer : Issuer δ υ} {number : ℕ} {servers scopeurls : List Text}

/-- A parsed cookie that says what was asked for, and its text. -/
structure Issued (formats : Formats δ υ) (issuer : Issuer δ υ) (number : ℕ)
    (servers scopeurls : List Text) (cookie : ScopeCookie formats υ) (text : Text) : Prop where
  /-- The servers. -/
  servers : cookie.servers = servers
  /-- The scope. -/
  scopeurls : cookie.scopeurls = scopeurls
  /-- The end of its life. -/
  expires : cookie.expires = issuer.expires number
  /-- The blaster. -/
  blaster : cookie.blaster = issuer.blaster
  /-- It was signed with the key. -/
  signed : ∃ bytes, encodeUtf8 cookie.data = some bytes ∧ cookie.signature = issuer.sign bytes
  /-- The text is the one of the cookie. -/
  encode : cookie.encode = some text
  /-- The text is read as the cookie. -/
  parse : Scope.parse formats text = .ok cookie

/-- What is written about a cookie stands between the boundary lines, and is issued for the servers
and the URLs that it was asked for. -/
theorem issued_of_generateOne (hformats : formats.Inverse)
    (hargs : Arguments servers scopeurls issuer.blaster) {text : Text}
    (h : generateOne formats issuer number servers scopeurls = .ok text) :
    ∃ bytes, text = boundaryStart ++ wrapped bytes ++ boundaryEnd ∧
      ∃ cookie, Issued formats issuer number servers scopeurls cookie text := by
  obtain ⟨cookie, hcookie, h⟩ := bind_eq_ok h
  have hgenerated : Generated cookie := ⟨_, _, _, _, _, _, hargs, hcookie⟩
  obtain ⟨bytes, hbytes⟩ := hgenerated.encodeUtf8_str
  obtain ⟨haware, signed, hsigned, rfl⟩ := generate_eq_ok hcookie
  have hencode := ScopeCookie.encode_eq hbytes
  have hparse := parse_encoded formats hbytes
  have hinner := parseInner_str hformats (issuer.uuid4 number) hargs haware (issuer.sign signed) rfl
  rw [hencode] at h
  cases h
  rw [ScopeCookie.str] at hparse
  refine ⟨bytes, rfl, _, rfl, rfl, rfl, rfl, ⟨signed, hsigned, rfl⟩, ?_, hparse.trans hinner⟩
  exact ScopeCookie.encode_eq hbytes

end Issued

/-! ## All cookies -/

section All

variable {formats : Formats δ υ} {issuer : Issuer δ υ}

/-- The servers and the scope of a cookie, with its number. -/
abbrev Order := (List Text × List Text) × ℕ

/-- The cookies that `generate_cookie` makes. -/
def orders (scopeurls servers : List Text) : Option (List Text) → List Order
  | none => [((servers, scopeurls), 0)]
  | some proxies => proxies.zipIdx.map fun proxy =>
      (([proxy.1], shareUrls proxy.2 proxies.length scopeurls servers), proxy.2)

/-- A cookie for an order. -/
def Fills (formats : Formats δ υ) (issuer : Issuer δ υ) (order : Order)
    (cookie : ScopeCookie formats υ) : Prop :=
  ∃ text, Issued formats issuer order.2 order.1.1 order.1.2 cookie text

/-- Either way, the texts of the cookies are written one behind the other. -/
theorem generateCookie_eq (scopeurls servers : List Text) (proxies : Option (List Text)) :
    generateCookie formats issuer scopeurls servers proxies = (do
      let texts ← (orders scopeurls servers proxies).mapM fun order =>
        generateOne formats issuer order.2 order.1.1 order.1.2
      return texts.flatten) := by
  cases proxies with
  | none =>
    rw [generateCookie, orders, List.mapM_cons, List.mapM_nil]
    cases generateOne formats issuer 0 servers scopeurls with
    | error raised => rfl
    | ok text => simp [bind, Except.bind, pure, Except.pure]
  | some proxies =>
    rw [generateCookie, orders, List.mapM_map]
    rfl

/-- The text of the cookies is cut into their texts, which are read as cookies for the orders. -/
theorem fills_of_mapM (hformats : formats.Inverse) {orders : List Order} {texts : List Text}
    (hargs : ∀ order ∈ orders, Arguments order.1.1 order.1.2 issuer.blaster)
    (h : (orders.mapM fun order => generateOne formats issuer order.2 order.1.1 order.1.2) =
      .ok texts) :
    ∃ cookies, parseAll formats texts.flatten = .ok cookies ∧
      List.Forall₂ (Fills formats issuer) orders cookies := by
  have hsplit : split texts.flatten = texts ∧ ∃ cookies : List (ScopeCookie formats υ),
      texts.mapM (parse formats) = .ok cookies ∧
        List.Forall₂ (Fills formats issuer) orders cookies := by
    induction orders generalizing texts with
    | nil =>
      cases h
      exact ⟨rfl, [], rfl, .nil⟩
    | cons order rest ih =>
      rw [List.mapM_cons] at h
      obtain ⟨text, htext, h⟩ := bind_eq_ok h
      obtain ⟨more, hmore, h⟩ := bind_eq_ok h
      cases h
      obtain ⟨hrest, cookies, hcookies, hfills⟩ :=
        ih (fun other hother => hargs other (List.mem_cons_of_mem _ hother)) hmore
      obtain ⟨bytes, rfl, cookie, hissued⟩ :=
        issued_of_generateOne hformats (hargs order List.mem_cons_self) htext
      refine ⟨?_, cookie :: cookies, ?_, .cons ⟨_, hissued⟩ hfills⟩
      · have hne : boundaryStart ++ wrapped bytes ++ boundaryEnd ≠ [] := by simp [wrapped]
        rw [List.flatten_cons, split,
          Lib.Patterns.findAll_append hne (matchItems_encodedCookie bytes more.flatten)]
        exact congrArg _ hrest
      · rw [List.mapM_cons, hissued.parse, hcookies]
        rfl
  obtain ⟨htexts, cookies, hcookies, hfills⟩ := hsplit
  exact ⟨cookies, by rw [parseAll, htexts, hcookies], hfills⟩

/-- The map is the grouping of the cookies by each of their servers. -/
theorem getCookieMap_eq (cookies : List (ScopeCookie formats υ)) :
    getCookieMap cookies =
      group (cookies.flatMap fun cookie => cookie.servers.map fun server => (server, cookie)) := by
  rw [getCookieMap, group, List.foldl_flatMap]
  congr 1
  funext map cookie
  rw [List.foldl_map]
  rfl

/-- A server is mapped to the cookies that name it, in order. -/
theorem get?_getCookieMap {cookies : List (ScopeCookie formats υ)}
    (h : ∀ cookie ∈ cookies, cookie.servers.Nodup) (server : Text) :
    (getCookieMap cookies).get? server =
      if ∀ cookie ∈ cookies, server ∉ cookie.servers then none
      else some (cookies.filter fun cookie => server ∈ cookie.servers) := by
  have hvalues : valuesOf (cookies.flatMap fun cookie =>
      cookie.servers.map fun server => (server, cookie)) server =
        cookies.filter fun cookie => server ∈ cookie.servers := by
    induction cookies with
    | nil => rfl
    | cons cookie rest ih =>
      rw [List.flatMap_cons, valuesOf_append, valuesOf_map_mk (h cookie List.mem_cons_self),
        ih fun other hother => h other (List.mem_cons_of_mem _ hother), List.filter_cons]
      by_cases hmem : server ∈ cookie.servers
      · rw [if_pos hmem, if_pos (decide_eq_true hmem)]
        rfl
      · rw [if_neg hmem, if_neg (by simpa using hmem)]
        rfl
  have hempty : (cookies.filter fun cookie => decide (server ∈ cookie.servers)) = [] ↔
      ∀ cookie ∈ cookies, server ∉ cookie.servers := by
    rw [List.filter_eq_nil_iff]
    exact forall₂_congr fun _ _ => by simp
  rw [getCookieMap_eq, get?_group, hvalues]
  exact if_congr hempty rfl rfl

/-- A blaster is mapped to the cookies that name it, in order. -/
theorem get?_getBlasterMap (cookies : List (ScopeCookie formats υ)) (blaster : Text) :
    (getBlasterMap cookies).get? (some blaster) =
      if ∀ cookie ∈ cookies, cookie.blaster ≠ some blaster then none
      else some (cookies.filter fun cookie => cookie.blaster = some blaster) := by
  have hmap : getBlasterMap cookies =
      (group (cookies.map fun cookie => (cookie.blaster, cookie))).erase none := by
    rw [getBlasterMap, group, List.foldl_map]
    rfl
  have hvalues : valuesOf (cookies.map fun cookie => (cookie.blaster, cookie)) (some blaster) =
      cookies.filter fun cookie => cookie.blaster = some blaster := by
    rw [valuesOf, List.filter_map, List.map_map]
    exact List.map_id _
  have hempty : (cookies.filter fun cookie => decide (cookie.blaster = some blaster)) = [] ↔
      ∀ cookie ∈ cookies, cookie.blaster ≠ some blaster := by
    rw [List.filter_eq_nil_iff]
    exact forall₂_congr fun _ _ => by simp
  rw [hmap, Dict.get?_erase, if_neg (by simp), get?_group, hvalues]
  exact if_congr hempty rfl rfl

end All

/-! ## At the servers -/

section Servers

variable {server : Server δ υ} {issuer : Issuer δ υ}

/-- The server has a valid certificate for the key, and no cookie has expired. -/
structure Trusts (server : Server δ υ) (issuer : Issuer δ υ) (clock : ℕ → ℤ) : Prop where
  /-- The certificates are read, and one of them accepts what the key has signed. -/
  certs : ∃ certs, (Lib.Patterns.findAll encodedCertificate server.certdata).mapM server.loadCert =
    some certs ∧ ∃ cert ∈ certs, (∀ data, cert.accepts data (issuer.sign data) = true) ∧
      cert.verifies = true ∧ ∀ k, cert.notBefore ≤ clock k ∧ clock k ≤ cert.notAfter
  /-- The cookies are still valid. -/
  unexpired : ∀ k number, clock k ≤ server.formats.instant (issuer.expires number)

/-- The message of `verify` for a server that a cookie does not name. -/
def notNamed : Scope.Raised δ :=
  .scopeError (ofString "Cookie does not contain matching server name")

/-- A cookie that was generated is verified by the servers that it names. A server with none of its
names on the list refuses it. -/
theorem verify_of_fills {order : Order} {cookie : Cookie server}
    (h : Fills server.formats issuer order cookie) {clock : ℕ → ℤ}
    (htrusts : Trusts server issuer clock) (k : ℕ) :
    cookie.verify server.loadCert (clock k) server.serverids server.certdata =
      if ∀ name ∈ server.serverids, name ∉ cookie.servers then .error notNamed else .ok () := by
  obtain ⟨text, hissued⟩ := h
  obtain ⟨certs, hload, cert, hcert, haccepts, hverifies, htimes⟩ := htrusts.certs
  obtain ⟨bytes, hbytes, hsignature⟩ := hissued.signed
  have hunexpired : ¬ server.formats.instant cookie.expires < clock k := by
    rw [hissued.expires]
    exact not_lt.mpr (htrusts.unexpired k order.2)
  have hfind : ∀ failure : Text, (findCertificate (clock k) bytes cookie.signature failure certs :
      Except (Scope.Raised δ) Unit) = .ok () := fun failure =>
    findCertificate_ok_iff.mpr ⟨cert, hcert, by rw [hsignature]; exact haccepts bytes, hverifies,
      htimes k⟩
  rw [ScopeCookie.verify, if_neg hunexpired, hload]
  dsimp only
  rw [hbytes]
  dsimp only
  rw [hfind]
  rfl

/-- A server that each of the cookies names verifies all of them, each by the clock of its own
turn. -/
theorem verifyAll_of_fills {own : List (Cookie server)}
    (h : ∀ cookie ∈ own, ∃ order, Fills server.formats issuer order cookie) {clock : ℕ → ℤ}
    (htrusts : Trusts server issuer clock)
    (hnamed : ∀ cookie ∈ own, ∃ name ∈ server.serverids, name ∈ cookie.servers) (k : ℕ) :
    verifyAll server clock k own = .ok () := by
  induction own generalizing k with
  | nil => rfl
  | cons cookie rest ih =>
    have hrest := ih (fun other hother => h other (List.mem_cons_of_mem _ hother))
      (fun other hother => hnamed other (List.mem_cons_of_mem _ hother)) (k + 1)
    obtain ⟨order, hfills⟩ := h cookie List.mem_cons_self
    have hname : ¬ ∀ name ∈ server.serverids, name ∉ cookie.servers := by
      have hexists := hnamed cookie List.mem_cons_self
      push Not
      exact hexists
    rw [verifyAll, verify_of_fills hfills htrusts k, if_neg hname, hrest, ite_self]

/-- The cookies are encoded for a server and read there as they were. -/
theorem encode_parse_of_fills {formats : Formats δ υ} {own : List (ScopeCookie formats υ)}
    (h : ∀ cookie ∈ own, ∃ order, Fills formats issuer order cookie) :
    ∃ texts, own.mapM ScopeCookie.encode = some texts ∧ texts.mapM (parse formats) = .ok own := by
  induction own with
  | nil => exact ⟨[], rfl, rfl⟩
  | cons cookie rest ih =>
    obtain ⟨texts, hencode, hparse⟩ := ih fun other hother => h other (List.mem_cons_of_mem _ hother)
    obtain ⟨order, text, hissued⟩ := h cookie List.mem_cons_self
    refine ⟨text :: texts, ?_, ?_⟩
    · rw [List.mapM_cons, hissued.encode, hencode]
      rfl
    · rw [List.mapM_cons, hissued.parse, hparse]
      rfl

/-- What a server answers to the cookies that the client sends it: it accepts them if each of them
names it, and refuses them if none does. -/
theorem setupCookies_of_fills {own : List (Cookie server)} (hne : own ≠ [])
    (h : ∀ cookie ∈ own, ∃ order, Fills server.formats issuer order cookie) {clock : ℕ → ℤ}
    (htrusts : Trusts server issuer clock) :
    ∃ texts, own.mapM ScopeCookie.encode = some texts ∧
      ((∀ cookie ∈ own, ∃ name ∈ server.serverids, name ∈ cookie.servers) →
        setupCookies server clock texts = .ok own) ∧
      (server.securityCookieNoVerify = false →
        (∀ cookie ∈ own, ∀ name ∈ server.serverids, name ∉ cookie.servers) →
          setupCookies server clock texts = .error notNamed) := by
  obtain ⟨texts, hencode, hparse⟩ := encode_parse_of_fills h
  refine ⟨texts, hencode, fun hnamed => ?_, fun hverify hother => ?_⟩
  · rw [setupCookies, hparse]
    simp only [bind, Except.bind, verifyAll_of_fills h htrusts hnamed 0]
    rfl
  · have hfirst : verifyAll server clock 0 own = .error notNamed := by
      cases own with
      | nil => exact absurd rfl hne
      | cons cookie rest =>
        obtain ⟨order, hfills⟩ := h cookie List.mem_cons_self
        rw [verifyAll, if_neg (by rw [hverify]; exact Bool.false_ne_true),
          verify_of_fills hfills htrusts 0, if_pos (hother cookie List.mem_cons_self)]
    rw [setupCookies, hparse]
    simp only [bind, Except.bind, hfirst]

end Servers

/-! ## The data retriever of a proxy -/

/-- What `quote` leaves as it is with `safe='/:'`. -/
def isSafe (b : UInt8) : Bool :=
  (48 ≤ b.toNat ∧ b.toNat ≤ 58) ∨ (65 ≤ b.toNat ∧ b.toNat ≤ 90) ∨ (97 ≤ b.toNat ∧ b.toNat ≤ 122) ∨
    b.toNat ∈ [45, 46, 47, 95, 126]

/-- A digit of `%02X`. -/
def hexDigit (n : ℕ) : CodePoint :=
  if n < 10 then Lib.Decimal.asciiPoint (UInt8.ofNat (48 + n))
  else Lib.Decimal.asciiPoint (UInt8.ofNat (55 + n))

/-- `quote` on a byte. -/
def quoteByte (b : UInt8) : Text :=
  if isSafe b then [Lib.Decimal.asciiPoint b]
  else [Lib.Decimal.asciiPoint 37, hexDigit (b.toNat / 16), hexDigit (b.toNat % 16)]

/-- `quote`, `none` where the text has no encoding. -/
def quote (text : Text) : Option Text := (encodeUtf8 text).map fun bytes => bytes.flatMap quoteByte

/-- `get_scope` of the proxy store, on the documents of the servers. -/
def getScope (accepts : Text → Bool) (documents : Text → Option ProxyStore.ScopeList)
    (index total : ℕ) (destUrl : Text) : Option Bytes := do
  let destUrl := ofString "http://" ++ (← quote destUrl)
  let document ← documents destUrl
  ProxyStore.serve accepts destUrl index total document

/-- The body of the response for a path, with the matching of the rule
`/proxy/<int:index>of<int:total>/<path:dest_url>`. -/
def respond (accepts : Text → Bool) (documents : Text → Option ProxyStore.ScopeList)
    (route : Text → Option (ℕ × ℕ × Text)) (path : Text) : Option Bytes := do
  let (index, total, destUrl) ← route path
  getScope accepts documents index total destUrl

/-- Where the data retriever of a proxy is. -/
def origin : Text := ofString "http://localhost:5873"

/-- `BASE_URL`. -/
def baseUrl : Text := ofString "http://localhost:5873/"

/-- The objects of the cookies in scope, `none` for each where `__next__` raises an exception. -/
def loadScope {formats : Formats δ υ} (accepts : Text → Bool) (serverId : Text)
    (computeSignature : Bool) (cookies : List (ScopeCookie formats υ))
    (opened : Text → ScopeLists.Response) : List (Option ObjectAttributes.Object) :=
  let urls := cookies.flatMap ScopeCookie.scopeurls
  let yielded := ScopeLists.generatorFunc Lib.Words.readInt (Lib.Urls.urljoin accepts baseUrl)
    ProxyStore.parser ⟨0, []⟩ .new
    (urls.map fun url => (url, (Lib.Urls.urljoin accepts baseUrl url).bind opened))
  yielded.map fun pending =>
    ProxyStore.nextObject accepts serverId computeSignature pending.2 pending.1

section Paths

/-- A number as it is printed. -/
theorem ofString_toString (n : ℕ) :
    ofString (toString n) = (Lib.Decimal.decimal n).map Lib.Decimal.asciiPoint := by
  rw [ofString, Nat.toString_eq_repr, Nat.toList_repr, Lib.Decimal.decimal, List.map_map]
  refine List.map_congr_left fun c hc => ?_
  have hdigit : c.isDigit = true := Nat.isDigit_of_mem_toDigits (by decide) (by decide) hc
  exact Fin.ext (Lib.Decimal.toUInt8_of_isDigit hdigit).2.symm

theorem ofString_append (text more : String) :
    ofString (text ++ more) = ofString text ++ ofString more := by
  rw [ofString, String.toList_append, List.map_append]
  rfl

/-- A text behind `/proxy/<index>of<total>/` that stands in a URL as it is: no symbol needs an
escape, and no part of the path is empty or made of dots. -/
structure Matchable (destUrl : Text) : Prop where
  /-- There is something. -/
  nonempty : destUrl ≠ []
  /-- It begins with a name. -/
  named : destUrl.head? ≠ some Lib.Urls.slash
  /-- The symbols need no escape. -/
  safe : ∀ c ∈ destUrl, ∃ b, c = Lib.Decimal.asciiPoint b ∧ b.toNat < 128 ∧ isSafe b = true
  /-- No two slashes follow each other. -/
  merged : ¬ [Lib.Urls.slash, Lib.Urls.slash] <:+: destUrl
  /-- Nothing is resolved. -/
  resolved : ∀ segment ∈ destUrl.splitOn Lib.Urls.slash,
    segment ≠ Lib.Urls.dot ∧ segment ≠ Lib.Urls.dots

/-- The paths that the rule matches are those of the shares, with the parts that it names. -/
def Matches (route : Text → Option (ℕ × ℕ × Text)) : Prop :=
  ∀ index total server url, Matchable (server ++ ofString ":5873" ++ url) →
    route (sharePath index total server url) =
      some (index, total, server ++ ofString ":5873" ++ url)

/-- A printed number has no other symbols than digits. -/
theorem notMem_toString {c : CodePoint} (hc : Lib.Words.decimalValue? c = none) (n : ℕ) :
    c ∉ ofString (toString n) := by
  rw [ofString_toString]
  intro hmem
  obtain ⟨b, hb, rfl⟩ := List.mem_map.mp hmem
  rw [Lib.Decimal.decimalValue?_asciiPoint (Lib.Decimal.isDigit_of_mem_decimal hb)] at hc
  cases hc

/-- The index and the total of a share, as they stand in its path. -/
def numbers (index total : ℕ) : Text :=
  ofString (toString index) ++ ofString "of" ++ ofString (toString total)

/-- The path behind its first slash: three parts, of which only the last has parts of its own. -/
def shareTail (index total : ℕ) (destUrl : Text) : Text :=
  ofString "proxy" ++ Lib.Urls.slash :: (numbers index total ++ Lib.Urls.slash :: destUrl)

/-- The path of a share begins with a slash. -/
theorem sharePath_eq (index total : ℕ) (server url : Text) :
    sharePath index total server url =
      Lib.Urls.slash :: shareTail index total (server ++ ofString ":5873" ++ url) := by
  have hfront : ofString "/proxy/" = Lib.Urls.slash :: (ofString "proxy" ++ [Lib.Urls.slash]) := rfl
  have hslash : ofString "/" = [Lib.Urls.slash] := rfl
  simp only [sharePath, shareTail, numbers, ofString_append, hfront, hslash, List.append_assoc,
    List.cons_append, List.nil_append]

/-- No symbol that cuts a URL into its parts is in the numbers. -/
theorem notMem_numbers {c : CodePoint}
    (hc : c ∈ [Lib.Urls.slash, Lib.Urls.semicolon, Lib.Urls.question, Lib.Urls.hash])
    (index total : ℕ) : c ∉ numbers index total := by
  have hcuts : ∀ c ∈ [Lib.Urls.slash, Lib.Urls.semicolon, Lib.Urls.question, Lib.Urls.hash],
      Lib.Words.decimalValue? c = none ∧ c ∉ ofString "of" :=
    List.forall_mem_cons.mpr ⟨by decide, List.forall_mem_cons.mpr ⟨by decide,
      List.forall_mem_cons.mpr ⟨by decide, List.forall_mem_singleton.mpr (by decide)⟩⟩⟩
  obtain ⟨hdigit, hof⟩ := hcuts c hc
  intro hmem
  rw [numbers, List.mem_append, List.mem_append] at hmem
  rcases hmem with (hmem | hmem) | hmem
  · exact notMem_toString hdigit index hmem
  · exact hof hmem
  · exact notMem_toString hdigit total hmem

/-- A text that stands in a path as it is has no symbol that ends the path. -/
theorem Matchable.notMem {destUrl : Text} (h : Matchable destUrl) {c : CodePoint}
    (hc : c ∈ [Lib.Urls.semicolon, Lib.Urls.question, Lib.Urls.hash]) : c ∉ destUrl := by
  intro hmem
  obtain ⟨b, rfl, -, hsafe⟩ := h.safe c hmem
  have hunsafe : ∀ d ∈ [Lib.Urls.semicolon, Lib.Urls.question, Lib.Urls.hash],
      isSafe (UInt8.ofNat d.val) = false :=
    List.forall_mem_cons.mpr ⟨by decide, List.forall_mem_cons.mpr ⟨by decide,
      List.forall_mem_singleton.mpr (by decide)⟩⟩
  have hb : UInt8.ofNat (Lib.Decimal.asciiPoint b).val = b := UInt8.ofNat_toNat
  have hfalse := hunsafe _ hc
  rw [hb, hsafe] at hfalse
  cases hfalse

/-- So no symbol of the path of a share ends the path. -/
theorem notMem_shareTail {destUrl : Text} (h : Matchable destUrl) (index total : ℕ) :
    ∀ c ∈ shareTail index total destUrl,
      c ∉ [Lib.Urls.semicolon, Lib.Urls.question, Lib.Urls.hash] := by
  intro c hmem hc
  have hslash : c ≠ Lib.Urls.slash := fun heq => by
    rw [heq] at hc
    revert hc
    decide
  have hproxy : ∀ c ∈ [Lib.Urls.semicolon, Lib.Urls.question, Lib.Urls.hash],
      c ∉ ofString "proxy" :=
    List.forall_mem_cons.mpr ⟨by decide, List.forall_mem_cons.mpr ⟨by decide,
      List.forall_mem_singleton.mpr (by decide)⟩⟩
  rcases List.mem_append.mp hmem with hmem | hmem
  · exact hproxy c hc hmem
  rcases List.mem_cons.mp hmem with hmem | hmem
  · exact hslash hmem
  rcases List.mem_append.mp hmem with hmem | hmem
  · exact notMem_numbers (List.mem_cons_of_mem _ hc) index total hmem
  rcases List.mem_cons.mp hmem with hmem | hmem
  · exact hslash hmem
  · exact h.notMem hc hmem

/-- The parts of the path: nothing in front of the first slash, the name, the numbers, and those of
the text behind. -/
theorem splitOn_shareTail (index total : ℕ) (destUrl : Text) :
    (Lib.Urls.slash :: shareTail index total destUrl).splitOn Lib.Urls.slash =
      [] :: ofString "proxy" :: numbers index total :: destUrl.splitOn Lib.Urls.slash := by
  have hproxy : Lib.Urls.slash ∉ ofString "proxy" := by decide
  rw [shareTail, ← List.nil_append (Lib.Urls.slash :: _), List.splitOn_append_cons_self,
    List.splitOn_append_cons_self, List.splitOn_append_cons_self,
    List.splitOn_eq_singleton (notMem_numbers List.mem_cons_self index total),
    List.splitOn_eq_singleton hproxy, List.splitOn_eq_singleton List.not_mem_nil]
  rfl

/-- None of these parts is made of dots, so that a join resolves nothing. -/
theorem ne_dots_of_mem_splitOn {destUrl : Text} (h : Matchable destUrl) (index total : ℕ) :
    ∀ segment ∈ (Lib.Urls.slash :: shareTail index total destUrl).splitOn Lib.Urls.slash,
      segment ≠ Lib.Urls.dot ∧ segment ≠ Lib.Urls.dots := by
  have hletter : ∀ segment : Text, codePoint 'o' ∈ segment →
      segment ≠ Lib.Urls.dot ∧ segment ≠ Lib.Urls.dots := by
    have hneither : codePoint 'o' ∉ Lib.Urls.dot ∧ codePoint 'o' ∉ Lib.Urls.dots := by decide
    exact fun segment hmem =>
      ⟨fun heq => hneither.1 (heq ▸ hmem), fun heq => hneither.2 (heq ▸ hmem)⟩
  rw [splitOn_shareTail]
  intro segment hsegment
  rcases List.mem_cons.mp hsegment with rfl | hsegment
  · exact ⟨by decide, by decide⟩
  rcases List.mem_cons.mp hsegment with rfl | hsegment
  · exact hletter _ (by decide)
  rcases List.mem_cons.mp hsegment with rfl | hsegment
  · exact hletter _ (List.mem_append_left _ (List.mem_append_right _ (by decide)))
  · exact h.resolved segment hsegment

/-- The base URL is read as the port of the data retriever on the own host. -/
theorem urlparse_baseUrl {accepts : Text → Bool} (hweb : Lib.Urls.Web accepts baseUrl) :
    Lib.Urls.urlparse accepts [] baseUrl =
      some ⟨Lib.Urls.http, ofString "localhost:5873", ofString "/", [], [], []⟩ := by
  have hparse : Lib.Urls.urlparse accepts [] baseUrl =
      if accepts (ofString "localhost:5873") then
        some ⟨Lib.Urls.http, ofString "localhost:5873", ofString "/", [], [], []⟩
      else none := rfl
  obtain ⟨parts, hparts, -⟩ := hweb
  have hlocal : accepts (ofString "localhost:5873") = true := by
    by_contra hrefused
    rw [hparse, if_neg hrefused] at hparts
    cases hparts
  rw [hparse, if_pos hlocal]

/-- The loader asks for the share by its own path. -/
theorem urljoin_sharePath {accepts : Text → Bool} (haccepts : accepts [] = true)
    (hweb : Lib.Urls.Web accepts baseUrl) {server url : Text}
    (h : Matchable (server ++ ofString ":5873" ++ url)) (index total : ℕ) :
    Lib.Urls.urljoin accepts baseUrl (sharePath index total server url) =
        some (origin ++ sharePath index total server url) ∧
      Lib.Urls.Web accepts (origin ++ sharePath index total server url) := by
  have hhead : (shareTail index total (server ++ ofString ":5873" ++ url)).head? ≠
      some Lib.Urls.slash := fun hhead => absurd (Option.some.inj hhead) (by decide)
  rw [sharePath_eq]
  exact Lib.Urls.urljoin_of_rooted haccepts (urlparse_baseUrl hweb) rfl (List.cons_ne_nil _ _) hhead
    (notMem_shareTail h index total) (ne_dots_of_mem_splitOn h index total)

/-- Safe symbols are quoted as they are. -/
theorem quote_of_safe {text : Text}
    (h : ∀ c ∈ text, ∃ b, c = Lib.Decimal.asciiPoint b ∧ b.toNat < 128 ∧ isSafe b = true) :
    quote text = some text := by
  have hsome : ∃ bytes, encodeUtf8 text = some bytes ∧ bytes.flatMap quoteByte = text := by
    induction text with
    | nil => exact ⟨[], rfl, rfl⟩
    | cons c rest ih =>
      obtain ⟨b, rfl, hb, hsafe⟩ := h c List.mem_cons_self
      obtain ⟨bytes, hbytes, hquoted⟩ := ih fun d hd => h d (List.mem_cons_of_mem _ hd)
      have hone : encodeUtf8 [Lib.Decimal.asciiPoint b] = some [b] := by
        have hbyte : UInt8.ofNat (Lib.Decimal.asciiPoint b).val = b := UInt8.ofNat_toNat
        have hencode : encodeUtf8 [Lib.Decimal.asciiPoint b] =
            some [UInt8.ofNat (Lib.Decimal.asciiPoint b).val] := encodeUtf8_singleton hb
        rwa [hbyte] at hencode
      refine ⟨b :: bytes, ?_, ?_⟩
      · exact encodeUtf8_append hone hbytes
      · rw [List.flatMap_cons, hquoted, quoteByte, if_pos hsafe, List.singleton_append]
  obtain ⟨bytes, hbytes, hquoted⟩ := hsome
  rw [quote, hbytes, Option.map_some, hquoted]

end Paths

/-! ## The scope lists of a proxy -/

section Lists

open Lib.Urls Lib.Markup Lib.Dealing ScopeLists ProxyStore

variable {accepts : Text → Bool}

/-- What a proxy writes is read by any loader as its share of the objects. -/
theorem serve_reads {base : Text} (hbase : Web accepts base) (hplain : base.all plain = true)
    {document : ProxyStore.ScopeList} (h : ∀ attrs ∈ document.objects, Forwardable accepts base attrs)
    {count : ℕ} (hcount : 0 < count) (index : ℕ) :
    ∃ bytes tags last, serve accepts base (index + 1) count document = some bytes ∧
      ReadsBytes .new bytes tags last ∧
      (tags.map element).all (acceptable Lib.Words.readInt) = true ∧
      ∀ url, Web accepts url → ∀ serverId signed,
        (objects (tags.map element)).map (nextObject accepts serverId signed url) =
          (deal count index 0 document.objects).map fun attrs =>
            nextObject accepts serverId signed base (forwarded attrs) := by
  rw [← objects_ends] at h ⊢
  obtain ⟨text, tags, htext, hwrites⟩ := entries_spec hbase hplain hcount index 0 h
  obtain ⟨bytes, hbytes, hreads⟩ :=
    (reads_front.append (hwrites.reads _ (List.cons_ne_nil _ _))).append reads_back
  rw [List.append_nil, List.singleton_append] at hreads
  have hindex : ((index + 1 : ℕ) : ℤ) - 1 = index := by omega
  refine ⟨bytes, _, _, ?_, hreads, ?_, fun url hurl serverId signed => ?_⟩
  · rw [serve, ProxyStore.generate, hindex, htext]
    exact hbytes
  · rw [List.map_cons, List.all_cons, rootTag_spec.1, hwrites.accepted]
    rfl
  · rw [List.map_cons, ScopeLists.objects_cons, rootTag_spec.2.2, List.nil_append]
    exact hwrites.described url hurl serverId signed

/-- A list that is read to its end leaves the loader as it was, but for the count. -/
theorem readList_of_readsBytes (url : Text) {chunks : List Scope.Bytes} (hchunks : [] ∉ chunks)
    {last : Reader} {tags : List Tag} (hreads : ReadsBytes .new chunks.flatten tags last)
    (haccepted : (tags.map element).all (acceptable Lib.Words.readInt) = true) (count : ℤ) :
    readList Lib.Words.readInt ProxyStore.parser url ⟨count, []⟩ .new (some chunks) =
      ⟨(objects (tags.map element)).map fun attrs => (attrs, url),
        ⟨count + ((tags.map element).map (adjust Lib.Words.readInt)).sum, []⟩, .new, .read⟩ := by
  rw [readList, ScopeLists.fetch, feedAll_of_reads Lib.Words.readInt url hchunks hreads haccepted]
  rfl

/-- A scope URL whose list is read to its end, and what is yielded for it. -/
def Yields (accepts : Text → Bool) (request : Text × Response) (yielded : List (Attrs × Text)) :
    Prop :=
  ∃ url chunks tags last, urljoin accepts baseUrl request.1 = some url ∧
    request.2 = some chunks ∧ [] ∉ chunks ∧ ReadsBytes .new chunks.flatten tags last ∧
    (tags.map element).all (acceptable Lib.Words.readInt) = true ∧
    yielded = (objects (tags.map element)).map fun attrs => (attrs, url)

/-- The loader yields the lists of its scope URLs one after the other. -/
theorem generatorFunc_of_yields {requests : List (Text × Response)}
    {yielded : List (List (Attrs × Text))} (h : List.Forall₂ (Yields accepts) requests yielded)
    (count : ℤ) :
    generatorFunc Lib.Words.readInt (urljoin accepts baseUrl) ProxyStore.parser ⟨count, []⟩ .new
      requests = yielded.flatten := by
  induction h generalizing count with
  | nil => rfl
  | @cons request own requests yielded hrequest _ ih =>
    obtain ⟨scopeUrl, response⟩ := request
    obtain ⟨url, chunks, tags, last, hurl, hresponse, hchunks, hreads, haccepted, rfl⟩ := hrequest
    dsimp only at hurl hresponse
    rw [generatorFunc, hurl, hresponse]
    dsimp only
    rw [readList_of_readsBytes url hchunks hreads haccepted count, if_neg (by simp), ih,
      List.flatten_cons]

/-- Where a server has a scope list. -/
def listUrl (server url : Text) : Text := ofString "http://" ++ (server ++ ofString ":5873" ++ url)

/-- A scope list that proxies can share out. -/
structure Shared (accepts : Text → Bool) (documents : Text → Option ProxyStore.ScopeList)
    (server url : Text) (document : ProxyStore.ScopeList) : Prop
    extends Matchable (server ++ ofString ":5873" ++ url) where
  /-- It is on the web. -/
  web : Web accepts (listUrl server url)
  /-- Its address needs no escape in a document. -/
  unescaped : (listUrl server url).all plain = true
  /-- It is found there. -/
  found : documents (listUrl server url) = some document
  /-- Its objects can be forwarded. -/
  forwardable : ∀ attrs ∈ document.objects, Forwardable accepts (listUrl server url) attrs

/-- The data retriever of a proxy answers the path of a share with the share. -/
theorem respond_sharePath {documents : Text → Option ProxyStore.ScopeList}
    {route : Text → Option (ℕ × ℕ × Text)} (hroute : Matches route) {server url : Text}
    {document : ProxyStore.ScopeList} (h : Shared accepts documents server url document)
    (index total : ℕ) :
    respond accepts documents route (sharePath index total server url) =
      serve accepts (listUrl server url) index total document := by
  simp only [respond, hroute index total server url h.toMatchable, Option.bind_eq_bind,
    Option.bind_some, getScope, quote_of_safe h.safe]
  rw [← listUrl, h.found, Option.bind_some]

/-- The objects of a scope list, each with the address of the list. -/
def listed (documents : Text → Option ProxyStore.ScopeList) (server url : Text) :
    List (Text × Attrs) :=
  match documents (listUrl server url) with
  | none => []
  | some document => document.objects.map fun attrs => (listUrl server url, attrs)

/-- An object as a loader with an identity gets it from a list, without the attributes that are no
links. -/
def describe (accepts : Text → Bool) (serverId : Text) (signed : Bool) (entry : Text × Attrs) :
    Option ObjectAttributes.Object :=
  nextObject accepts serverId signed entry.1 (forwarded entry.2)

/-- What the data retriever of a proxy answers to the requests for its URLs, in chunks. -/
def Serves (accepts : Text → Bool) (documents : Text → Option ProxyStore.ScopeList)
    (route : Text → Option (ℕ × ℕ × Text)) (opened : Text → Response) : Prop :=
  ∀ path bytes, respond accepts documents route path = some bytes →
    ∃ chunks, opened (origin ++ path) = some chunks ∧ chunks.flatten = bytes ∧ [] ∉ chunks

/-- A share of a scope list is read by the loader of the proxy. -/
theorem yields_sharePath (haccepts : accepts [] = true) (hweb : Web accepts baseUrl)
    {documents : Text → Option ProxyStore.ScopeList} {route : Text → Option (ℕ × ℕ × Text)}
    (hroute : Matches route) {server url : Text}
    {document : ProxyStore.ScopeList} (h : Shared accepts documents server url document)
    {opened : Text → Response} (hserves : Serves accepts documents route opened) {total : ℕ}
    (htotal : 0 < total) (index : ℕ) (serverId : Text) (signed : Bool) :
    ∃ yielded, Yields accepts (sharePath (index + 1) total server url,
        (urljoin accepts baseUrl (sharePath (index + 1) total server url)).bind opened) yielded ∧
      (yielded.map fun pending => nextObject accepts serverId signed pending.2 pending.1) =
        (deal total index 0 (listed documents server url)).map
          (describe accepts serverId signed) := by
  obtain ⟨bytes, tags, last, hbytes, hreads, haccepted, hdescribed⟩ :=
    serve_reads h.web h.unescaped h.forwardable htotal index
  obtain ⟨chunks, hopened, rfl, hchunks⟩ := hserves (sharePath (index + 1) total server url) bytes
    ((respond_sharePath hroute h (index + 1) total).trans hbytes)
  obtain ⟨hjoined, hjoinedWeb⟩ := urljoin_sharePath haccepts hweb h.toMatchable (index + 1) total
  have hresponse : (urljoin accepts baseUrl (sharePath (index + 1) total server url)).bind opened =
      some chunks := by rw [hjoined, Option.bind_some, hopened]
  refine ⟨_, ⟨_, chunks, tags, last, hjoined, hresponse, hchunks, hreads, haccepted, rfl⟩, ?_⟩
  rw [List.map_map, listed, h.found]
  dsimp only
  rw [deal_map, List.map_map]
  exact hdescribed _ hjoinedWeb serverId signed

/-- The scope of several cookies is loaded one cookie after the other, each URL of them in its
turn. -/
theorem loadScope_of_shares (haccepts : accepts [] = true) (hweb : Web accepts baseUrl)
    {documents : Text → Option ProxyStore.ScopeList} {formats : Formats δ υ} {total : ℕ}
    (htotal : 0 < total) {pairs : List (Text × Text)}
    (hshared : ∀ pair ∈ pairs, ∃ document, Shared accepts documents pair.1 pair.2 document)
    {route : Text → Option (ℕ × ℕ × Text)} (hroute : Matches route) {opened : Text → Response}
    (hserves : Serves accepts documents route opened) (serverId : Text) (signed : Bool)
    {cookies : List (ScopeCookie formats υ)} {indices : List ℕ}
    (h : List.Forall₂ (fun cookie index => cookie.scopeurls =
      pairs.map fun pair => sharePath (index + 1) total pair.1 pair.2) cookies indices) :
    loadScope accepts serverId signed cookies opened =
      (indices.flatMap fun index => pairs.flatMap fun pair =>
        deal total index 0 (listed documents pair.1 pair.2)).map
          (describe accepts serverId signed) := by
  have hone : ∀ index, ∀ some : List (Text × Text), (∀ pair ∈ some, pair ∈ pairs) →
      ∃ yielded, List.Forall₂ (Yields accepts)
          ((some.map fun pair => sharePath (index + 1) total pair.1 pair.2).map
            fun url => (url, (urljoin accepts baseUrl url).bind opened)) yielded ∧
        (yielded.flatten.map fun pending =>
          nextObject accepts serverId signed pending.2 pending.1) =
          (some.flatMap fun pair => deal total index 0 (listed documents pair.1 pair.2)).map
            (describe accepts serverId signed) := by
    intro index some hsome
    induction some with
    | nil => exact ⟨[], .nil, rfl⟩
    | cons pair rest ih =>
      obtain ⟨document, hdocument⟩ := hshared pair (hsome pair List.mem_cons_self)
      obtain ⟨own, hown, hobjects⟩ :=
        yields_sharePath haccepts hweb hroute hdocument hserves htotal index serverId signed
      obtain ⟨yielded, hyielded, hrest⟩ := ih fun other hother =>
        hsome other (List.mem_cons_of_mem pair hother)
      refine ⟨own :: yielded, .cons hown hyielded, ?_⟩
      rw [List.flatten_cons, List.map_append, List.flatMap_cons, List.map_append, hobjects, hrest]
  have hall : ∃ yielded, List.Forall₂ (Yields accepts)
        ((cookies.flatMap ScopeCookie.scopeurls).map fun url =>
          (url, (urljoin accepts baseUrl url).bind opened)) yielded ∧
      (yielded.flatten.map fun pending =>
        nextObject accepts serverId signed pending.2 pending.1) =
        (indices.flatMap fun index => pairs.flatMap fun pair =>
          deal total index 0 (listed documents pair.1 pair.2)).map
            (describe accepts serverId signed) := by
    induction h with
    | nil => exact ⟨[], .nil, rfl⟩
    | @cons cookie index cookies indices hcookie _ ih =>
      obtain ⟨yielded, hyielded, hrest⟩ := ih
      obtain ⟨own, hown, hobjects⟩ := hone index pairs fun _ hpair => hpair
      refine ⟨own ++ yielded, ?_, ?_⟩
      · rw [List.flatMap_cons, List.map_append, hcookie]
        exact List.rel_append hown hyielded
      · rw [List.flatten_append, List.map_append, List.flatMap_cons, List.map_append, hobjects,
          hrest]
  obtain ⟨yielded, hyielded, hobjects⟩ := hall
  rw [loadScope]
  rw [generatorFunc_of_yields hyielded, hobjects]

end Lists

/-! ## The whole way -/

section Whole

open Lib.Dealing Lib.Urls ScopeLists ProxyStore

/-- The scope lists that the proxies share out, each with its server. -/
def lists (scopeurls servers : List Text) : List (Text × Text) :=
  scopeurls.flatMap fun url => servers.map fun server => (server, url)

theorem shareUrls_eq (index total : ℕ) (scopeurls servers : List Text) :
    shareUrls index total scopeurls servers =
      (lists scopeurls servers).map fun pair => sharePath (index + 1) total pair.1 pair.2 := by
  rw [shareUrls, lists, List.map_flatMap]
  simp only [List.map_map, Function.comp_def]

/-- The paths of shares are tokens. -/
theorem plain_sharePath {server url : Text} (hserver : Scope.Plain server) (hurl : Scope.Plain url)
    (index total : ℕ) : Scope.Plain (sharePath index total server url) := by
  have happend : ∀ text more : Text, Scope.Plain text → Scope.Plain more →
      Scope.Plain (text ++ more) := fun _ _ htext hmore c hc =>
    (List.mem_append.mp hc).elim (htext c) (hmore c)
  have hword : ∀ text : Text, (text.all fun c => Lib.Words.isSpace c = false) = true →
      Scope.Plain text := by
    intro text hall c hc
    simpa using List.all_eq_true.mp hall c hc
  have hnumber : ∀ n : ℕ, Scope.Plain (ofString (toString n)) := by
    intro n c hc
    rw [ofString_toString] at hc
    obtain ⟨b, hb, rfl⟩ := List.mem_map.mp hc
    exact Lib.Decimal.isSpace_asciiPoint (Lib.Decimal.isDigit_of_mem_decimal hb)
  have hfront := happend _ _ (hword (ofString "/proxy/") (by decide)) (hnumber index)
  have hmiddle := happend _ _ (happend _ _ hfront (hword (ofString "of") (by decide)))
    (hnumber total)
  have hhost := happend _ _ (happend _ _ hmiddle (hword (ofString "/") (by decide))) hserver
  have hport := happend _ _ hhost (hword (ofString ":5873") (by decide))
  simpa only [sharePath, ofString_append] using happend _ _ hport hurl

/-- A cookie for the proxy with an index. -/
structure Deals (formats : Formats δ υ) (issuer : Issuer δ υ) (total : ℕ)
    (pairs : List (Text × Text)) (proxy : Text × ℕ) (cookie : ScopeCookie formats υ) : Prop where
  /-- It is for this proxy only. -/
  servers : cookie.servers = [proxy.1]
  /-- Its scope are the shares of the proxy. -/
  scopeurls : cookie.scopeurls =
    pairs.map fun pair => sharePath (proxy.2 + 1) total pair.1 pair.2
  /-- It was generated. -/
  fills : ∃ order, Fills formats issuer order cookie

/-- What the cookies for the proxies are made of is fit for cookies again, the hosts as well as the
URLs with the share in front. -/
theorem arguments_of_mem_orders {scopeurls servers proxies : List Text} {blaster : Option Text}
    (hargs : Arguments servers scopeurls blaster) (hnames : Arguments proxies [] none)
    {order : Order} (horder : order ∈ orders scopeurls servers (some proxies)) :
    Arguments order.1.1 order.1.2 blaster := by
  obtain ⟨proxy, hproxy, rfl⟩ := List.mem_map.mp horder
  refine ⟨fun server hserver => ?_, fun url hurl => ?_, hargs.blaster⟩
  · rw [List.mem_singleton.mp hserver]
    exact hnames.servers proxy.1 (List.fst_mem_of_mem_zipIdx hproxy)
  · rw [shareUrls_eq] at hurl
    obtain ⟨pair, hpair, rfl⟩ := List.mem_map.mp hurl
    obtain ⟨url, hlist, hpair⟩ := List.mem_flatMap.mp hpair
    obtain ⟨server, hserver, rfl⟩ := List.mem_map.mp hpair
    obtain ⟨hne, hplain⟩ := hargs.scopeurls url hlist
    refine ⟨fun hnil => hne (List.append_eq_nil_iff.mp hnil).2, ?_⟩
    exact plain_sharePath (hargs.servers server hserver).2.1 hplain _ _

/-- The text of the cookies is read as one cookie for each of the proxies. -/
theorem deals_of_generateCookie {formats : Formats δ υ} (hformats : formats.Inverse)
    {issuer : Issuer δ υ} {scopeurls servers proxies : List Text}
    (hargs : Arguments servers scopeurls issuer.blaster) (hnames : Arguments proxies [] none)
    {text : Text} (h : generateCookie formats issuer scopeurls servers (some proxies) = .ok text) :
    ∃ cookies, parseAll formats text = .ok cookies ∧
      List.Forall₂ (Deals formats issuer proxies.length (lists scopeurls servers)) proxies.zipIdx
        cookies := by
  rw [generateCookie_eq] at h
  obtain ⟨texts, htexts, h⟩ := bind_eq_ok h
  cases h
  obtain ⟨cookies, hcookies, hfills⟩ :=
    fills_of_mapM hformats (fun _ => arguments_of_mem_orders hargs hnames) htexts
  refine ⟨cookies, hcookies, ?_⟩
  rw [orders, List.forall₂_map_left_iff] at hfills
  refine hfills.imp fun proxy cookie hfills => ?_
  obtain ⟨text, hissued⟩ := id hfills
  exact ⟨hissued.servers, hissued.scopeurls.trans (shareUrls_eq _ _ _ _), _, hfills⟩

section Dealt

variable {formats : Formats δ υ} {issuer : Issuer δ υ} {total : ℕ} {pairs : List (Text × Text)}
variable {proxies : List (Text × ℕ)} {cookies : List (ScopeCookie formats υ)}

/-- A host that is among the proxies is mapped to the cookies that name it, in the order of the
proxies; another host is not in the map. -/
theorem get?_of_deals (h : List.Forall₂ (Deals formats issuer total pairs) proxies cookies)
    (host : Text) :
    (getCookieMap cookies).get? host =
      if host ∈ proxies.map Prod.fst then some (cookies.filter fun cookie => host ∈ cookie.servers)
      else none := by
  have hnodup : ∀ cookie ∈ cookies, cookie.servers.Nodup := by
    intro cookie hcookie
    obtain ⟨proxy, -, hdeals⟩ := exists_of_mem_forall₂ h hcookie
    rw [hdeals.servers]
    exact List.nodup_singleton _
  have hnone : (∀ cookie ∈ cookies, host ∉ cookie.servers) ↔ host ∉ proxies.map Prod.fst := by
    clear hnodup
    induction h with
    | nil => simp
    | cons hdeals _ ih =>
      rw [List.forall_mem_cons, ih, List.map_cons, List.mem_cons, hdeals.servers,
        List.mem_singleton, not_or]
  rw [get?_getCookieMap hnodup, ite_congr (propext hnone) (fun _ => rfl) fun _ => rfl, ite_not]

/-- The cookies of a host hold its shares, one for each place that it has among the proxies. -/
theorem indices_of_deals (h : List.Forall₂ (Deals formats issuer total pairs) proxies cookies)
    (host : Text) :
    List.Forall₂ (fun cookie index => cookie.scopeurls =
        pairs.map fun pair => sharePath (index + 1) total pair.1 pair.2)
      (cookies.filter fun cookie => host ∈ cookie.servers) (valuesOf proxies host) := by
  induction h with
  | nil => exact .nil
  | @cons proxy cookie proxies cookies hdeals _ ih =>
    have hnamed : host ∈ cookie.servers ↔ proxy.1 = host := by
      rw [hdeals.servers, List.mem_singleton, eq_comm]
    rw [valuesOf, List.filter_cons, List.filter_cons]
    by_cases hhost : proxy.1 = host
    · rw [if_pos (decide_eq_true (hnamed.mpr hhost)), if_pos (decide_eq_true hhost)]
      exact .cons hdeals.scopeurls ih
    · rw [if_neg (by simpa using mt hnamed.mp hhost), if_neg (by simpa using hhost)]
      exact ih

end Dealt

/-- Cookies that give the scope lists to the proxies. -/
structure Distributed (server : Server δ υ) (issuer : Issuer δ υ) (pairs : List (Text × Text))
    (proxies : List Text) (cookies : List (Cookie server)) : Prop where
  /-- The client connects to the proxies. -/
  hosts : ∀ host, host ∈ (getCookieMap cookies).keys ↔ host ∈ proxies
  /-- The blaster, if there is one, has all cookies, and no other has some. -/
  blasters : ∀ blaster, (getBlasterMap cookies).get? (some blaster) =
    if issuer.blaster = some blaster then some cookies else none
  /-- The cookies that the client sends to a host are accepted if and only if it is the host. -/
  verified : ∀ host own, (getCookieMap cookies).get? host = some own →
    ∃ texts, own.mapM ScopeCookie.encode = some texts ∧ ∀ clock, Trusts server issuer clock →
      (host ∈ server.serverids → setupCookies server clock texts = .ok own) ∧
      (server.securityCookieNoVerify = false → host ∉ server.serverids →
        setupCookies server clock texts = .error notNamed)
  /-- The loaders of the hosts get every object of the scope lists once. -/
  shared : ∀ accepts documents route (opened : Text → Text → Response), accepts [] = true →
    Web accepts baseUrl → Matches route →
    (∀ pair ∈ pairs, ∃ document, Shared accepts documents pair.1 pair.2 document) →
    (∀ host, Serves accepts documents route (opened host)) →
    ∃ share : Text → List (Text × Attrs),
      ((getCookieMap cookies).keys.flatMap share).Perm
        (pairs.flatMap fun pair => listed documents pair.1 pair.2) ∧
      ∀ host own, (getCookieMap cookies).get? host = some own → ∀ serverId signed,
        loadScope accepts serverId signed own (opened host) =
          (share host).map (describe accepts serverId signed)

section Whole

variable {server : Server δ υ} {issuer : Issuer δ υ} {pairs : List (Text × Text)}
variable {proxies : List Text} {cookies : List (Cookie server)}

/-- The cookies of the proxies are those of a host if they name it. -/
theorem own_of_deals
    (h : List.Forall₂ (Deals server.formats issuer proxies.length pairs) proxies.zipIdx cookies)
    {host : Text} {own : List (Cookie server)} (hown : (getCookieMap cookies).get? host = some own) :
    host ∈ proxies ∧ own = cookies.filter fun cookie => host ∈ cookie.servers := by
  rw [get?_of_deals h, List.zipIdx_map_fst] at hown
  by_cases hhost : host ∈ proxies
  · rw [if_pos hhost] at hown
    exact ⟨hhost, (Option.some.inj hown).symm⟩
  · rw [if_neg hhost] at hown
    cases hown

/-- The hosts that the client connects to are the proxies. -/
theorem mem_keys_of_deals
    (h : List.Forall₂ (Deals server.formats issuer proxies.length pairs) proxies.zipIdx cookies)
    (host : Text) : host ∈ (getCookieMap cookies).keys ↔ host ∈ proxies := by
  rw [Dict.mem_keys_iff, get?_of_deals h, List.zipIdx_map_fst]
  by_cases hhost : host ∈ proxies <;> simp [hhost]

/-- All cookies have the blaster that they were generated with. -/
theorem getBlasterMap_of_deals (hne : cookies ≠ [])
    (h : List.Forall₂ (Deals server.formats issuer proxies.length pairs) proxies.zipIdx cookies)
    (blaster : Text) : (getBlasterMap cookies).get? (some blaster) =
      if issuer.blaster = some blaster then some cookies else none := by
  have hblaster : ∀ cookie ∈ cookies, cookie.blaster = issuer.blaster := by
    intro cookie hcookie
    obtain ⟨proxy, -, hdeals⟩ := exists_of_mem_forall₂ h hcookie
    obtain ⟨order, text, hissued⟩ := hdeals.fills
    exact hissued.blaster
  rw [get?_getBlasterMap]
  by_cases hsame : issuer.blaster = some blaster
  · obtain ⟨cookie, rest, rfl⟩ := List.exists_cons_of_ne_nil hne
    have hall : ∀ other ∈ cookie :: rest, other.blaster = some blaster := fun other hother =>
      (hblaster other hother).trans hsame
    rw [if_pos hsame, if_neg fun hnone => hnone cookie List.mem_cons_self
      (hall cookie List.mem_cons_self), List.filter_eq_self.mpr fun other hother =>
        decide_eq_true (hall other hother)]
  · rw [if_neg hsame, if_pos fun cookie hcookie => ?_]
    rw [hblaster cookie hcookie]
    exact hsame

/-- The cookies of a host name it and no other host, and there are some. -/
theorem named_of_deals
    (h : List.Forall₂ (Deals server.formats issuer proxies.length pairs) proxies.zipIdx cookies)
    {host : Text} (hhost : host ∈ proxies) :
    (cookies.filter fun cookie => host ∈ cookie.servers) ≠ [] ∧
      ∀ cookie ∈ cookies.filter fun cookie => host ∈ cookie.servers,
        cookie.servers = [host] ∧ ∃ order, Fills server.formats issuer order cookie := by
  constructor
  · rw [← List.zipIdx_map_fst 0 proxies] at hhost
    obtain ⟨proxy, hproxy, rfl⟩ := List.mem_map.mp hhost
    obtain ⟨cookie, hcookie, hdeals⟩ := exists_of_mem_forall₂ h.flip hproxy
    refine List.ne_nil_of_mem (List.mem_filter.mpr ⟨hcookie, decide_eq_true ?_⟩)
    rw [hdeals.servers]
    exact List.mem_singleton_self _
  · intro cookie hcookie
    obtain ⟨hmem, hserver⟩ := List.mem_filter.mp hcookie
    obtain ⟨proxy, -, hdeals⟩ := exists_of_mem_forall₂ h hmem
    have hproxy : host ∈ cookie.servers := of_decide_eq_true hserver
    rw [hdeals.servers, List.mem_singleton] at hproxy
    exact ⟨by rw [hdeals.servers, hproxy], hdeals.fills⟩

/-- A host accepts cookies that name it alone, and every other host refuses them. -/
theorem verified_of_named {own : List (Cookie server)} {host : Text} (hne : own ≠ [])
    (hnamed : ∀ cookie ∈ own,
      cookie.servers = [host] ∧ ∃ order, Fills server.formats issuer order cookie) :
    ∃ texts, own.mapM ScopeCookie.encode = some texts ∧ ∀ clock, Trusts server issuer clock →
      (host ∈ server.serverids → setupCookies server clock texts = .ok own) ∧
      (server.securityCookieNoVerify = false → host ∉ server.serverids →
        setupCookies server clock texts = .error notNamed) := by
  obtain ⟨texts, hencode, -⟩ := encode_parse_of_fills fun cookie hcookie => (hnamed cookie hcookie).2
  refine ⟨texts, hencode, fun clock htrusts => ?_⟩
  obtain ⟨others, hothers, haccepted, hrejected⟩ :=
    setupCookies_of_fills hne (fun cookie hcookie => (hnamed cookie hcookie).2) htrusts
  cases Option.some.inj (hencode.symm.trans hothers)
  refine ⟨fun hhere => haccepted fun cookie hcookie => ⟨host, hhere, ?_⟩,
    fun hverify helsewhere => hrejected hverify fun cookie hcookie name hname => ?_⟩
  · rw [(hnamed cookie hcookie).1]
    exact List.mem_singleton_self _
  · rw [(hnamed cookie hcookie).1, List.mem_singleton]
    rintro rfl
    exact helsewhere hname

/-- The hosts together have every place among the proxies once. -/
theorem indices_perm
    (h : List.Forall₂ (Deals server.formats issuer proxies.length pairs) proxies.zipIdx cookies) :
    ((getCookieMap cookies).keys.flatMap (valuesOf proxies.zipIdx)).Perm
      (List.range proxies.length) := by
  have hkeys : (getCookieMap cookies).keys.Perm (group proxies.zipIdx).keys := by
    have hnodup := (group proxies.zipIdx).nodup
    refine (List.perm_ext_iff_of_nodup (getCookieMap cookies).nodup hnodup).mpr fun host => ?_
    have hgroup := mem_keys_group proxies.zipIdx host
    rw [List.zipIdx_map_fst] at hgroup
    exact (mem_keys_of_deals h host).trans hgroup.symm
  have hvalues := (hkeys.flatMap_right _).trans (flatMap_valuesOf proxies.zipIdx)
  rwa [List.zipIdx_map_snd, ← List.range_eq_range'] at hvalues

/-- Cookies that are dealt to the proxies give them the scope lists: each host gets the shares of
the places that it has. -/
theorem distributed_of_deals (hproxies : proxies ≠ [])
    (h : List.Forall₂ (Deals server.formats issuer proxies.length pairs) proxies.zipIdx cookies) :
    Distributed server issuer pairs proxies cookies := by
  have htotal : 0 < proxies.length := List.length_pos_iff.mpr hproxies
  have hne : cookies ≠ [] := by
    rw [← List.length_pos_iff, ← h.length_eq, List.length_zipIdx]
    exact htotal
  refine ⟨mem_keys_of_deals h, getBlasterMap_of_deals hne h, fun host own hown => ?_,
    fun accepts documents route opened haccepts hweb hroute hshared hserves => ?_⟩
  · obtain ⟨hhost, rfl⟩ := own_of_deals h hown
    obtain ⟨hsome, hnamed⟩ := named_of_deals h hhost
    exact verified_of_named hsome hnamed
  · -- what a host gets is dealt to the indices that it has
    let hand : ℕ → List (Text × Attrs) := fun index =>
      pairs.flatMap fun pair => deal proxies.length index 0 (listed documents pair.1 pair.2)
    refine ⟨fun host => (valuesOf proxies.zipIdx host).flatMap hand, ?_,
      fun host own hown serverId signed => ?_⟩
    · have hdealt := flatMap_flatMap_deal htotal 0
        (pairs.map fun pair => listed documents pair.1 pair.2)
      simp only [List.flatMap_map] at hdealt
      rw [← List.flatMap_assoc]
      exact ((indices_perm h).flatMap_right hand).trans hdealt
    · obtain ⟨-, rfl⟩ := own_of_deals h hown
      exact loadScope_of_shares haccepts hweb htotal hshared hroute (hserves host) serverId signed
        (indices_of_deals h host)

end Whole

/-- The text that is signed for an order. -/
def signedText (formats : Formats δ υ) (issuer : Issuer δ υ) (order : Order) : Text :=
  scopeData (headers formats (issuer.uuid4 order.2) order.1.1 (issuer.expires order.2)
    issuer.blaster) order.1.2

/-- The cookies are made if the dates have a time zone and all texts have an encoding. -/
theorem exists_generateCookie {formats : Formats δ υ} {issuer : Issuer δ υ}
    {scopeurls servers proxies : List Text} (hargs : Arguments servers scopeurls issuer.blaster)
    (hnames : Arguments proxies [] none)
    (haware : ∀ number, formats.aware (issuer.expires number) = true)
    (h : ∀ order ∈ orders scopeurls servers (some proxies),
      (signedText formats issuer order).all (fun c => (character c).isSome) = true) :
    ∃ text, generateCookie formats issuer scopeurls servers (some proxies) = .ok text := by
  have hone : ∀ order ∈ orders scopeurls servers (some proxies),
      ∃ text, generateOne formats issuer order.2 order.1.1 order.1.2 = .ok text := by
    intro order horder
    obtain ⟨bytes, hbytes⟩ := Option.isSome_iff_exists.mp
      (isSome_encodeUtf8_iff.mpr (List.all_eq_true.mp (h order horder)))
    have hcookie := generate_of_encodable issuer.sign (haware order.2) hbytes
    have hgenerated : Generated _ :=
      ⟨_, _, _, _, _, _, arguments_of_mem_orders hargs hnames horder, hcookie⟩
    obtain ⟨encoded, hencoded⟩ := hgenerated.encodeUtf8_str
    rw [generateOne, hcookie]
    simp only [bind, Except.bind, ScopeCookie.encode_eq hencoded]
    exact ⟨_, rfl⟩
  have hall : ∃ texts, ((orders scopeurls servers (some proxies)).mapM fun order =>
      generateOne formats issuer order.2 order.1.1 order.1.2) = .ok texts := by
    clear h
    generalize orders scopeurls servers (some proxies) = all at hone
    induction all with
    | nil => exact ⟨[], rfl⟩
    | cons order rest ih =>
      obtain ⟨text, htext⟩ := hone order List.mem_cons_self
      obtain ⟨texts, htexts⟩ := ih fun other hother => hone other (List.mem_cons_of_mem _ hother)
      refine ⟨text :: texts, ?_⟩
      rw [List.mapM_cons, htext, htexts]
      rfl
  obtain ⟨texts, htexts⟩ := hall
  rw [generateCookie_eq, htexts]
  exact ⟨_, rfl⟩

/-- A key whose signatures are all alike. -/
def sampleIssuer : Issuer Unit Unit := ⟨fun _ => [0xc0, 0x1d], fun _ => (), fun _ => (), none⟩

/-- The list of every server. -/
def sampleDocuments (_ : Text) : Option ProxyStore.ScopeList := some sampleList

/-- `\d`. -/
def isDecimal (c : CodePoint) : Bool := (Lib.Words.decimalValue? c).isSome

/-- An `int` at the front of a path. -/
def readNumber (text : Text) : Option (ℕ × Text) :=
  (Lib.Words.readDigits 0 false (text.takeWhile isDecimal)).map fun value =>
    (value, text.dropWhile isDecimal)

/-- A text behind another one. -/
def behind (front text : Text) : Option Text :=
  if front <+: text then some (text.drop front.length) else none

/-- A matching of the rule `/proxy/<int:index>of<int:total>/<path:dest_url>`. -/
def readRule (path : Text) : Option (ℕ × ℕ × Text) := do
  let rest ← behind (ofString "/proxy/") path
  let (index, rest) ← readNumber rest
  let rest ← behind (ofString "of") rest
  let (total, rest) ← readNumber rest
  let destUrl ← behind (ofString "/") rest
  if destUrl = [] ∨ destUrl.head? = some slash then none else return (index, total, destUrl)

/-- A printed number is read up to what is no digit. -/
theorem readNumber_toString (n : ℕ) {rest : Text} (h : ∀ c ∈ rest.head?, isDecimal c = false) :
    readNumber (ofString (toString n) ++ rest) = some (n, rest) := by
  have hdigits : ∀ c ∈ ofString (toString n), isDecimal c = true := by
    intro c hc
    rw [ofString_toString] at hc
    obtain ⟨b, hb, rfl⟩ := List.mem_map.mp hc
    rw [isDecimal, Lib.Decimal.decimalValue?_asciiPoint (Lib.Decimal.isDigit_of_mem_decimal hb)]
    rfl
  have hstop : rest.takeWhile isDecimal = [] ∧ rest.dropWhile isDecimal = rest := by
    cases rest with
    | nil => exact ⟨rfl, rfl⟩
    | cons c rest =>
      have hc := h c rfl
      simp [hc]
  have hread := Lib.Decimal.readDigits_asciiPoint
    (fun b => Lib.Decimal.isDigit_of_mem_decimal (n := n)) 0 false
    (Or.inl (Lib.Decimal.decimal_ne_nil n))
  rw [Lib.Decimal.value_decimal, ← ofString_toString] at hread
  rw [readNumber, List.takeWhile_append_of_pos hdigits, List.dropWhile_append_of_pos hdigits,
    hstop.1, hstop.2, List.append_nil, hread]
  rfl

theorem behind_append (front text : Text) : behind front (front ++ text) = some text := by
  rw [behind, if_pos (List.prefix_append front text), List.drop_left]

/-- The rule matches the paths of the shares. -/
theorem matches_readRule : Matches readRule := by
  intro index total server url h
  have hpath : sharePath index total server url = ofString "/proxy/" ++
      (ofString (toString index) ++ (ofString "of" ++ (ofString (toString total) ++
        (ofString "/" ++ (server ++ ofString ":5873" ++ url))))) := by
    simp only [sharePath, ofString_append, List.append_assoc]
  have hof : ∀ c ∈ (ofString "of" ++ (ofString (toString total) ++
      (ofString "/" ++ (server ++ ofString ":5873" ++ url)))).head?, isDecimal c = false := by
    intro c hc
    cases hc
    decide
  have hslash : ∀ c ∈ (ofString "/" ++ (server ++ ofString ":5873" ++ url)).head?,
      isDecimal c = false := by
    intro c hc
    cases hc
    decide
  have hdest : ¬ (server ++ ofString ":5873" ++ url = [] ∨
      (server ++ ofString ":5873" ++ url).head? = some slash) := by
    rintro (hnil | hhead)
    · exact h.nonempty hnil
    · exact h.named hhead
  rw [hpath, readRule, behind_append]
  simp only [Option.bind_eq_bind, Option.bind_some, readNumber_toString index hof, behind_append,
    readNumber_toString total hslash, if_neg hdest]
  rfl

theorem shared_sample :
    Shared acceptAll sampleDocuments (ofString "h") (ofString "/") sampleList where
  nonempty := by decide
  named := by decide
  safe := by
    have hbytes : ([104, 58, 53, 56, 55, 51, 47] : List UInt8).all
        (fun b => decide (b.toNat < 128 ∧ isSafe b = true)) = true := by decide
    intro c hc
    obtain ⟨b, hb, rfl⟩ := List.mem_map.mp
      (show c ∈ ([104, 58, 53, 56, 55, 51, 47] : List UInt8).map Lib.Decimal.asciiPoint from hc)
    exact ⟨b, rfl, of_decide_eq_true (List.all_eq_true.mp hbytes b hb)⟩
  merged := by decide
  resolved := by decide
  web := ⟨⟨http, ofString "h:5873", ofString "/", [], [], []⟩, by decide, rfl, by decide⟩
  unescaped := by decide
  found := rfl
  forwardable := by decide

theorem arguments_sample : Arguments [ofString "h"] [ofString "/"] none ∧
    Arguments [ofString "a", ofString "b"] [] none := by
  have htoken : ∀ text : Text,
      (text.all fun c => Lib.Words.isSpace c = false ∧ c ∉ ofString ";,") = true →
      Scope.Plain text ∧ ∀ c ∈ text, c ∉ ofString ";," := by
    intro text hall
    have hboth : ∀ c ∈ text, Lib.Words.isSpace c = false ∧ c ∉ ofString ";," := by
      intro c hc
      simpa using List.all_eq_true.mp hall c hc
    exact ⟨fun c hc => (hboth c hc).1, fun c hc => (hboth c hc).2⟩
  refine ⟨⟨fun server hserver => ?_, fun url hurl => ?_, nofun⟩,
    ⟨fun server hserver => ?_, nofun, nofun⟩⟩
  · rw [List.mem_singleton.mp hserver]
    exact ⟨by decide, htoken _ (by decide)⟩
  · rw [List.mem_singleton.mp hurl]
    exact ⟨by decide, (htoken _ (by decide)).1⟩
  · simp only [List.mem_cons, List.not_mem_nil, or_false] at hserver
    rcases hserver with rfl | rfl
    · exact ⟨by decide, htoken _ (by decide)⟩
    · exact ⟨by decide, htoken _ (by decide)⟩

end Whole

end OpenDiamond.ScopeDistribution
