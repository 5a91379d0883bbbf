import OpenDiamond.Lib.BinaryText
import OpenDiamond.Lib.Patterns
import OpenDiamond.Lib.Splitting
import OpenDiamond.Lib.Words

/-!
# Scope cookies

A cookie is a signed text of headers and scope URLs. It travels as wrapped base64 between
two boundary lines, alone or after other cookies, and is read back by patterns, splits and
strips. Dates, serial numbers, keys and certificates belong to other packages and are
parameters.
-/

namespace OpenDiamond.Scope

open Lib.Unicode Lib.Words Lib.Splitting Lib.Patterns Lib.BinaryText Lib.Traversal

abbrev Bytes := List UInt8

/-- What a cookie needs of dates and serial numbers. -/
structure Formats (δ υ : Type) where
  /-- The date has a time zone with an offset. -/
  aware : δ → Bool
  /-- `datetime.isoformat`. -/
  isoformat : δ → Text
  /-- `dateutil.parser.parse`; an error tells whether it is a `ValueError`. -/
  parseDate : Text → Except Bool δ
  /-- The instant of a date, in microseconds. -/
  instant : δ → ℤ
  /-- `uuid.UUID` on a text, `none` for the `ValueError`. -/
  parseUuid : Text → Option υ
  /-- `str` of a `UUID`. -/
  uuidText : υ → Text

variable {δ υ : Type}

/-- The exceptions of `scope.py`. -/
inductive Raised (δ : Type) where
  /-- `ScopeError` with its text. -/
  | scopeError (message : Text)
  /-- `ScopeCookieExpired` with the date in its text. -/
  | scopeCookieExpired (expires : δ)
  /-- `ValueError`, also as `binascii.Error` or as an error of a codec. -/
  | valueError
  /-- `OverflowError`. -/
  | overflowError
  /-- `X509.X509Error`. -/
  | x509Error

/-- A `ScopeError` is raised, perhaps as a `ScopeCookieExpired`. -/
def Raised.IsScopeError : Raised δ → Prop
  | .scopeError _ | .scopeCookieExpired _ => True
  | _ => False

/-- A `ScopeCookie`. The serial number is a text in a generated cookie and a `UUID` in a
parsed one. -/
structure ScopeCookie (formats : Formats δ υ) (σ : Type) where
  /-- The serial number. -/
  serial : σ
  /-- Expiration. -/
  expires : δ
  /-- The URL of the JSON blaster. -/
  blaster : Option Text
  /-- The servers. -/
  servers : List Text
  /-- The scope URLs. -/
  scopeurls : List Text
  /-- The signed text of all of the above. -/
  data : Text
  /-- Binary signature of the data. -/
  signature : Bytes
  /-- The expiration time has a time zone. -/
  aware : formats.aware expires = true

/-- `__init__`. -/
def ScopeCookie.new {formats : Formats δ υ} {σ : Type} (serial : σ) (expires : δ)
    (blaster : Option Text) (servers scopeurls : List Text) (data : Text) (signature : Bytes) :
    Except (Raised δ) (ScopeCookie formats σ) :=
  if h : formats.aware expires = true then
    .ok ⟨serial, expires, blaster, servers, scopeurls, data, signature, h⟩
  else .error (.scopeError (ofString "Expiration time does not include time zone"))

/-! ## Writing -/

def boundaryStart : Text := ofString "-----BEGIN OPENDIAMOND SCOPECOOKIE-----\n"

def boundaryEnd : Text := ofString "-----END OPENDIAMOND SCOPECOOKIE-----\n"

def cookieVersion : ℤ := 1

/-- A symbol of `BASE64_RE`. -/
def base64Re (c : CodePoint) : Bool := Meaningful c || c = newline

/-- The pattern of an encoded cookie. -/
def encodedCookie : List (Item CodePoint) :=
  literal boundaryStart ++ .many base64Re :: literal boundaryEnd

/-- A header line without its line feed. -/
def headerLine (header : Text × Text) : Text := header.1 ++ ofString ": " ++ header.2

/-- The headers of a generated cookie. -/
def headers (formats : Formats δ υ) (uuid4 : υ) (servers : List Text) (expires : δ)
    (blaster : Option Text) : List (Text × Text) :=
  [(ofString "Version", ofString "1"), (ofString "Serial", formats.uuidText uuid4),
    (ofString "Expires", formats.isoformat expires),
    (ofString "Servers", (ofString ";").intercalate servers)] ++
  match blaster with
  | some blaster => [(ofString "Blaster", blaster)]
  | none => []

/-- The text that is signed. -/
def scopeData (headers : List (Text × Text)) (scopeurls : List Text) : Text :=
  headers.flatMap (fun header => headerLine header ++ [newline]) ++ [newline] ++
    [newline].intercalate scopeurls ++ [newline]

/-- `ScopeCookie.generate` with the key's signing function and the fresh serial number. -/
def generate (formats : Formats δ υ) (sign : Bytes → Bytes) (uuid4 : υ)
    (servers scopeurls : List Text) (expires : δ) (blaster : Option Text) :
    Except (Raised δ) (ScopeCookie formats Text) :=
  let data := scopeData (headers formats uuid4 servers expires blaster) scopeurls
  match encodeUtf8 data with
  | none => .error .valueError
  | some bytes =>
    ScopeCookie.new (formats.uuidText uuid4) expires blaster servers scopeurls data (sign bytes)

/-- `__str__`. -/
def ScopeCookie.str {formats : Formats δ υ} {σ : Type} (cookie : ScopeCookie formats σ) : Text :=
  hexlify cookie.signature ++ [newline] ++ cookie.data

/-- `encode`, `none` where the text has no encoding. -/
def ScopeCookie.encode {formats : Formats δ υ} {σ : Type} (cookie : ScopeCookie formats σ) :
    Option Text := do
  let bytes ← encodeUtf8 cookie.str
  return boundaryStart ++ fill (b64encode bytes) 64 ++ [newline] ++ boundaryEnd

/-! ## Reading -/

/-- The variables that the loop over the headers sets. -/
structure Parsed (δ υ : Type) where
  /-- `blaster`. -/
  blaster : Option Text
  /-- `serial`, once it is bound. -/
  serial : Option υ
  /-- `expires`, once it is bound. -/
  expires : Option δ
  /-- `servers`, once it is bound. -/
  servers : Option (List Text)

/-- The list of servers in a header. -/
def splitServers (value : Text) : List Text :=
  ((value.splitOnP fun c => c ∈ ofString ";,").map strip).filter fun server => server ≠ []

/-- What the loop over the headers does with a key and its value. -/
def applyHeader (formats : Formats δ υ) (parsed : Parsed δ υ) (key value : Text) :
    Except (Raised δ) (Parsed δ υ) :=
  if key = ofString "Version" then
    match readInt value with
    | none => .error (.scopeError (ofString "Invalid cookie version string"))
    | some version =>
      if version ≠ cookieVersion then
        .error (.scopeError (ofString "Unknown cookie version " ++ value))
      else .ok parsed
  else if key = ofString "Serial" then
    match formats.parseUuid value with
    | none => .error (.scopeError (ofString "Invalid serial format"))
    | some serial => .ok { parsed with serial := some serial }
  else if key = ofString "Expires" then
    match formats.parseDate value with
    | .error true => .error (.scopeError (ofString "Invalid date format"))
    | .error false => .error .overflowError
    | .ok expires => .ok { parsed with expires := some expires }
  else if key = ofString "Servers" then
    .ok { parsed with servers := some (splitServers value) }
  else if key = ofString "Blaster" then .ok { parsed with blaster := some value }
  else .ok parsed

/-- The body of the loop over the headers. -/
def parseHeader (formats : Formats δ υ) (parsed : Parsed δ υ) (line : Text) :
    Except (Raised δ) (Parsed δ υ) :=
  match cut (ofString ":") line with
  | none => .error .valueError
  | some (key, value) => applyHeader formats parsed key (strip value)

/-- The list of scope URLs in a body. -/
def parseBody (body : Text) : List Text :=
  ((body.splitOn newline).map strip).filter fun url => url ≠ []

/-- The part of `parse` after the boundary markers and base64 have been removed. -/
def parseInner (formats : Formats δ υ) (inner : Text) :
    Except (Raised δ) (ScopeCookie formats υ) := do
  let some (signature, data) := cut [newline] inner
    | .error (.scopeError (ofString "Malformed cookie"))
  let some (header, body) := cut [newline, newline] data
    | .error (.scopeError (ofString "Malformed cookie"))
  -- The error of `unhexlify` is not the `TypeError` that is caught.
  let some signature := unhexlify signature | .error .valueError
  let parsed ← (splitLines header).foldlM (parseHeader formats) ⟨none, none, none, none⟩
  match parsed.serial, parsed.expires, parsed.servers with
  | some serial, some expires, some servers =>
    ScopeCookie.new serial expires parsed.blaster servers (parseBody body) data signature
  -- `NameError`
  | _, _, _ => .error (.scopeError (ofString "Missing cookie header"))

/-- `ScopeCookie.parse`. -/
def parse (formats : Formats δ υ) (data : Text) : Except (Raised δ) (ScopeCookie formats υ) :=
  match matchItems encodedCookie data with
  | some ([group], _) =>
    match (b64decode group).bind decodeUtf8 with
    | some inner => parseInner formats inner
    -- Neither error is the `TypeError` that is caught.
    | none => .error .valueError
  | _ => .error (.scopeError (ofString "Invalid boundary markers"))

/-- `ScopeCookie.split`. -/
def split (data : Text) : List Text := findAll encodedCookie data

/-! ## Verification -/

/-- What `verify` asks of a certificate. -/
structure Certificate where
  /-- The public key verifies a signature of the data. -/
  accepts : Bytes → Bytes → Bool
  /-- `cert.verify() == 1`. -/
  verifies : Bool
  /-- `get_not_before`, in microseconds. -/
  notBefore : ℤ
  /-- `get_not_after`, in microseconds. -/
  notAfter : ℤ

/-- The pattern of a certificate. -/
def encodedCertificate : List (Item CodePoint) :=
  literal (ofString "-----BEGIN CERTIFICATE-----\n") ++
    .many base64Re :: literal (ofString "-----END CERTIFICATE-----")

/-- The loop of `verify` over the certificates, with the reason for the failure so far. -/
def findCertificate (now : ℤ) (data signature : Bytes) (failure : Text) :
    List Certificate → Except (Raised δ) Unit
  | [] => .error (.scopeError failure)
  | cert :: rest =>
    if ¬cert.accepts data signature then findCertificate now data signature failure rest
    else if ¬cert.verifies then
      findCertificate now data signature (ofString "Scope cookie signed by invalid certificate") rest
    else if cert.notBefore > now then
      findCertificate now data signature (ofString "Scope cookie signed by postdated certificate")
        rest
    else if cert.notAfter < now then
      findCertificate now data signature (ofString "Scope cookie signed by expired certificate") rest
    else .ok ()

/-- `verify`, with the reading of `X509.load_cert_string` and the clock. -/
def ScopeCookie.verify {formats : Formats δ υ} {σ : Type} (cookie : ScopeCookie formats σ)
    (loadCert : Text → Option Certificate) (now : ℤ) (servernames : List Text) (certdata : Text) :
    Except (Raised δ) Unit :=
  if formats.instant cookie.expires < now then .error (.scopeCookieExpired cookie.expires)
  else if ∀ name ∈ servernames, name ∉ cookie.servers then
    .error (.scopeError (ofString "Cookie does not contain matching server name"))
  else
    match (findAll encodedCertificate certdata).mapM loadCert with
    | none => .error .x509Error
    | some certs =>
      match encodeUtf8 cookie.data with
      -- Only a certificate makes the loop encode the data.
      | none => if certs = [] then
          .error (.scopeError (ofString "Couldn't validate scope cookie signature"))
        else .error .valueError
      | some data => findCertificate now data cookie.signature
          (ofString "Couldn't validate scope cookie signature") certs

/-- A cookie that a server accepts at a time: unexpired, for one of its names, and signed by
a certificate that is valid then. -/
structure ScopeCookie.Accepted {formats : Formats δ υ} {σ : Type} (cookie : ScopeCookie formats σ)
    (loadCert : Text → Option Certificate) (now : ℤ) (servernames : List Text) (certdata : Text) :
    Prop where
  /-- Not expired. -/
  unexpired : now ≤ formats.instant cookie.expires
  /-- For one of the server's names. -/
  server : ∃ name ∈ servernames, name ∈ cookie.servers
  /-- Signed by a valid certificate. -/
  signed : ∃ text ∈ findAll encodedCertificate certdata, ∃ cert data, loadCert text = some cert ∧
    encodeUtf8 cookie.data = some data ∧ cert.accepts data cookie.signature = true ∧
      cert.verifies = true ∧ cert.notBefore ≤ now ∧ now ≤ cert.notAfter

/-- The loop over the certificates ends well exactly when one of them knows the key, is valid itself
and is neither from the future nor expired; those in front of it are no obstacle. -/
theorem findCertificate_ok_iff {now : ℤ} {data signature : Bytes} {failure : Text}
    {certs : List Certificate} :
    (findCertificate now data signature failure certs : Except (Raised δ) Unit) = .ok () ↔
      ∃ cert ∈ certs, cert.accepts data signature = true ∧ cert.verifies = true ∧
        cert.notBefore ≤ now ∧ now ≤ cert.notAfter := by
  induction certs generalizing failure with
  | nil => simp [findCertificate]
  | cons cert rest ih =>
    rw [List.exists_mem_cons_iff, findCertificate]
    by_cases haccepts : cert.accepts data signature = true
    · by_cases hverifies : cert.verifies = true
      · by_cases hbefore : now < cert.notBefore
        · simp [haccepts, hverifies, hbefore, Int.not_le.mpr hbefore, ih]
        · by_cases hafter : cert.notAfter < now
          · simp [haccepts, hverifies, hbefore, hafter, Int.not_le.mpr hafter, ih]
          · simp [haccepts, hverifies, hbefore, hafter, Int.not_lt.mp hbefore, Int.not_lt.mp hafter]
      · simp [haccepts, hverifies, ih]
    · simp [haccepts, ih]

/-- `verify` returns only for a cookie that is to be accepted. -/
theorem ScopeCookie.accepted_of_verify {formats : Formats δ υ} {σ : Type}
    {cookie : ScopeCookie formats σ} {loadCert : Text → Option Certificate} {now : ℤ}
    {servernames : List Text} {certdata : Text}
    (h : cookie.verify loadCert now servernames certdata = .ok ()) :
    cookie.Accepted loadCert now servernames certdata := by
  unfold ScopeCookie.verify at h
  split at h
  · cases h
  rename_i hexpired
  split at h
  · cases h
  rename_i hnames
  split at h
  · cases h
  rename_i certs hcerts
  split at h
  · split at h <;> cases h
  rename_i data hdata
  obtain ⟨cert, hcert, haccepts, hverifies, hbefore, hafter⟩ := findCertificate_ok_iff.mp h
  obtain ⟨text, htext, hload⟩ := exists_of_mem_forall₂ (forall₂_of_mapM_some hcerts) hcert
  constructor
  · omega
  · simpa using hnames
  · exact ⟨text, htext, cert, data, hload, hdata, haccepts, hverifies, hbefore, hafter⟩

/-! ## The round trip -/

/-- A text without blanks. -/
def Plain (text : Text) : Prop := ∀ c ∈ text, isSpace c = false

/-- Dates and serial numbers are read back as they were written, and are written without
blanks. -/
structure Formats.Inverse (formats : Formats δ υ) : Prop where
  /-- Dates with a time zone are read back. -/
  date : ∀ date, formats.aware date = true → formats.parseDate (formats.isoformat date) = .ok date
  /-- Dates have no blanks. -/
  datePlain : ∀ date, Plain (formats.isoformat date)
  /-- Serial numbers are read back. -/
  uuid : ∀ uuid, formats.parseUuid (formats.uuidText uuid) = some uuid
  /-- Serial numbers have no blanks. -/
  uuidPlain : ∀ uuid, Plain (formats.uuidText uuid)

/-- What `generate` requires of its callers. -/
structure Arguments (servers scopeurls : List Text) (blaster : Option Text) : Prop where
  /-- Servers are tokens without separators. -/
  servers : ∀ server ∈ servers,
    server ≠ [] ∧ Plain server ∧ ∀ c ∈ server, c ∉ ofString ";,"
  /-- URLs are tokens. -/
  scopeurls : ∀ url ∈ scopeurls, url ≠ [] ∧ Plain url
  /-- The blaster has no blanks. -/
  blaster : ∀ url ∈ blaster, Plain url

theorem Plain.strip {text : Text} (h : Plain text) : strip text = text := strip_eq_self h

/-- A plain text has no line break. -/
theorem Plain.noBreak {text : Text} (h : Plain text) {c : CodePoint} (hc : c ∈ text) :
    isLineBreak c = false := by
  have hspace := h c hc
  rw [← Bool.not_eq_true] at hspace ⊢
  exact fun hbreak => hspace (isSpace_of_isLineBreak hbreak)

/-- The headers of a cookie are lines. -/
theorem flatMap_headerLine {headers : List (Text × Text)} (hne : headers ≠ []) :
    headers.flatMap (fun header => headerLine header ++ [newline]) =
      [newline].intercalate (headers.map headerLine) ++ [newline] := by
  induction headers with
  | nil => exact absurd rfl hne
  | cons header rest ih =>
    cases rest with
    | nil => simp
    | cons next rest =>
      rw [List.flatMap_cons, ih (List.cons_ne_nil next rest)]
      simp [List.intercalate_cons_cons]

/-- A key and value that are written and read as one line. -/
structure HeaderOk (header : Text × Text) : Prop where
  /-- The key has no colon. -/
  colon : 58 ∉ header.1
  /-- The key has no line break. -/
  key : ∀ c ∈ header.1, isLineBreak c = false
  /-- The value has no blanks. -/
  value : Plain header.2

/-- A header line is read as the key and the value that it was written from. -/
theorem parseHeader_headerLine (formats : Formats δ υ) (parsed : Parsed δ υ)
    {header : Text × Text} (h : HeaderOk header) :
    parseHeader formats parsed (headerLine header) =
      applyHeader formats parsed header.1 header.2 := by
  have hline : headerLine header = header.1 ++ ofString ":" ++ (32 :: header.2) := by
    simp [headerLine]
    rfl
  have hcut : cut (ofString ":") (headerLine header) = some (header.1, 32 :: header.2) := by
    rw [hline]
    exact cut_append h.colon (32 :: header.2)
  simp only [parseHeader, hcut, strip_cons_of_isSpace (rfl : isSpace 32 = true), h.value.strip]

/-- No header line is empty, so that the first blank line is the end of the headers. -/
theorem headerLine_ne_nil (header : Text × Text) : headerLine header ≠ [] := by
  intro h
  have hlength := congrArg List.length h
  simp [headerLine, ofString] at hlength

/-- A header line has no line break. -/
theorem HeaderOk.noBreak {header : Text × Text} (h : HeaderOk header) {c : CodePoint}
    (hc : c ∈ headerLine header) : isLineBreak c = false := by
  rw [headerLine, List.mem_append, List.mem_append] at hc
  rcases hc with (hc | hc) | hc
  · exact h.key c hc
  · have hall : ((ofString ": ").all fun c => isLineBreak c = false) = true := by decide
    simpa using List.all_eq_true.mp hall c hc
  · exact h.value.noBreak hc

/-- The signed text is cut into its headers and its body. -/
theorem cut_scopeData {headers : List (Text × Text)} (hne : headers ≠ [])
    (h : ∀ header ∈ headers, HeaderOk header) (scopeurls : List Text) :
    cut [newline, newline] (scopeData headers scopeurls) =
      some ([newline].intercalate (headers.map headerLine),
        [newline].intercalate scopeurls ++ [newline]) := by
  have hnewline : isLineBreak newline = true := rfl
  have hmem : ∀ line ∈ headers.map headerLine, newline ∉ line := by
    intro line hline hbreak
    obtain ⟨header, hheader, rfl⟩ := List.mem_map.mp hline
    have hno := (h header hheader).noBreak hbreak
    rw [hnewline] at hno
    cases hno
  have hlines : ∀ line ∈ headers.map headerLine, line ≠ [] := by
    intro line hline
    obtain ⟨header, _, rfl⟩ := List.mem_map.mp hline
    exact headerLine_ne_nil header
  have hmap : headers.map headerLine ≠ [] := by simpa using hne
  have hcut := cut_lines hmap hmem hlines ([newline].intercalate scopeurls ++ [newline])
  rw [scopeData, flatMap_headerLine hne]
  simpa using hcut

/-- The header lines of a cookie are found again by splitting its header. -/
theorem splitLines_headerLines {headers : List (Text × Text)}
    (h : ∀ header ∈ headers, HeaderOk header) :
    splitLines ([newline].intercalate (headers.map headerLine)) = headers.map headerLine := by
  apply splitLines_intercalate
  · intro line hline
    obtain ⟨header, _, rfl⟩ := List.mem_map.mp hline
    exact headerLine_ne_nil header
  · intro line hline c hc
    obtain ⟨header, hheader, rfl⟩ := List.mem_map.mp hline
    exact (h header hheader).noBreak hc

/-- The headers are read one by one. -/
theorem foldlM_parseHeader (formats : Formats δ υ) {headers : List (Text × Text)}
    (h : ∀ header ∈ headers, HeaderOk header) (parsed : Parsed δ υ) :
    (headers.map headerLine).foldlM (parseHeader formats) parsed =
      headers.foldlM (fun parsed header => applyHeader formats parsed header.1 header.2) parsed := by
  induction headers generalizing parsed with
  | nil => rfl
  | cons header rest ih =>
    have hrest := ih fun other hother => h other (List.mem_cons_of_mem _ hother)
    simp only [List.map_cons, List.foldlM_cons,
      parseHeader_headerLine formats parsed (h header List.mem_cons_self), hrest]

section Tokens

variable {tokens : List Text} (h : ∀ token ∈ tokens, token ≠ [] ∧ Plain token)
include h

/-- Stripping and dropping empty parts leaves tokens alone. -/
theorem filter_strip_tokens : (tokens.map strip).filter (fun token => token ≠ []) = tokens := by
  have hstrip : tokens.map strip = tokens.map id :=
    List.map_congr_left fun token htoken => (h token htoken).2.strip
  rw [List.map_id] at hstrip
  rw [hstrip, List.filter_eq_self]
  intro token htoken
  simpa using (h token htoken).1

/-- The URLs are read back from the body. -/
theorem parseBody_intercalate : parseBody ([newline].intercalate tokens ++ [newline]) = tokens := by
  have hnewline : isSpace newline = true := rfl
  have hmem : ∀ token ∈ tokens, newline ∉ token := by
    intro token htoken hbreak
    have hno := (h token htoken).2 newline hbreak
    rw [hnewline] at hno
    cases hno
  have hsplit : ([newline].intercalate tokens ++ [newline]).splitOn newline =
      ([newline].intercalate tokens).splitOn newline ++ [[]] := by
    have happend : ([newline].intercalate tokens ++ newline :: []).splitOn newline =
        ([newline].intercalate tokens).splitOn newline ++ ([] : Text).splitOn newline :=
      List.splitOn_append_cons_self _ _
    simpa using happend
  have hblank : ([[]] : List Text).map strip = [[]] := rfl
  rw [parseBody, hsplit, List.map_append, hblank, List.filter_append]
  by_cases htokens : tokens = []
  · subst htokens
    rfl
  · rw [List.splitOn_intercalate newline hmem htokens, filter_strip_tokens h]
    simp

end Tokens

/-- The servers are read back from their header. -/
theorem splitServers_intercalate {servers : List Text}
    (h : ∀ server ∈ servers, server ≠ [] ∧ Plain server ∧ ∀ c ∈ server, c ∉ ofString ";,") :
    splitServers ((ofString ";").intercalate servers) = servers := by
  have htokens : ∀ server ∈ servers, server ≠ [] ∧ Plain server :=
    fun server hserver => ⟨(h server hserver).1, (h server hserver).2.1⟩
  have hseparator : ofString ";" = [59] := rfl
  by_cases hservers : servers = []
  · subst hservers
    rfl
  · have hsplit : ((ofString ";").intercalate servers).splitOnP (fun c => c ∈ ofString ";,") =
        servers := by
      rw [hseparator]
      apply splitOnP_intercalate rfl hservers
      intro server hserver c hc
      simpa using (h server hserver).2.2 c hc
    rw [splitServers, hsplit, filter_strip_tokens htokens]

/-- The list of servers has no blanks. -/
theorem plain_intercalate {servers : List Text} (h : ∀ server ∈ servers, Plain server) :
    Plain ((ofString ";").intercalate servers) := by
  induction servers with
  | nil => simp [Plain]
  | cons server rest ih =>
    have hserver := h server List.mem_cons_self
    have hrest := ih fun other hother => h other (List.mem_cons_of_mem _ hother)
    cases rest with
    | nil => simpa using hserver
    | cons next rest =>
      intro c hc
      rw [List.intercalate_cons_cons, List.mem_append, List.mem_append] at hc
      rcases hc with (hc | hc) | hc
      · exact hserver c hc
      · rw [List.mem_singleton.mp hc]
        rfl
      · exact hrest c hc

section Generated

variable {formats : Formats δ υ} (hformats : formats.Inverse) {uuid4 : υ}
variable {servers scopeurls : List Text} {expires : δ} {blaster : Option Text}

include hformats in
/-- All headers of a generated cookie are of this kind, for the arguments that the caller
promises. -/
theorem headers_ok (h : Arguments servers scopeurls blaster) :
    ∀ header ∈ headers formats uuid4 servers expires blaster, HeaderOk header := by
  have hkeys : ∀ key ∈ ["Version", "Serial", "Expires", "Servers", "Blaster"],
      58 ∉ ofString key ∧ ((ofString key).all fun c => isLineBreak c = false) = true := by
    decide
  have hok : ∀ key ∈ ["Version", "Serial", "Expires", "Servers", "Blaster"], ∀ value,
      Plain value → HeaderOk (ofString key, value) := by
    intro key hkey value hvalue
    obtain ⟨hcolon, hall⟩ := hkeys key hkey
    exact ⟨hcolon, fun c hc => by simpa using List.all_eq_true.mp hall c hc, hvalue⟩
  have hversion : Plain (ofString "1") := by
    intro c hc
    rw [List.mem_singleton.mp hc]
    rfl
  have hservers := plain_intercalate fun server hserver => (h.servers server hserver).2.1
  intro header hheader
  simp only [headers, List.mem_append, List.mem_cons, List.not_mem_nil, or_false] at hheader
  rcases hheader with (rfl | rfl | rfl | rfl) | hheader
  · exact hok "Version" (by simp) _ hversion
  · exact hok "Serial" (by simp) _ (hformats.uuidPlain uuid4)
  · exact hok "Expires" (by simp) _ (hformats.datePlain expires)
  · exact hok "Servers" (by simp) _ hservers
  · cases blaster with
    | none => simp at hheader
    | some url =>
      rw [List.mem_singleton.mp hheader]
      exact hok "Blaster" (by simp) _ (h.blaster url rfl)

include hformats in
/-- The loop over the headers reads what `generate` wrote. -/
theorem foldlM_headers (uuid4 : υ) (h : Arguments servers scopeurls blaster)
    (haware : formats.aware expires = true) :
    (headers formats uuid4 servers expires blaster).foldlM
        (fun parsed header => applyHeader formats parsed header.1 header.2)
        ⟨none, none, none, none⟩ =
      Except.ok ⟨blaster, some uuid4, some expires, some servers⟩ := by
  have hversion : readInt (ofString "1") = some cookieVersion := by decide
  have hkey : ∀ first second : String, first ≠ second → ofString first ≠ ofString second :=
    fun first second hne heq => hne (ofString_injective heq)
  have hserial := hkey "Serial" "Version" (by decide)
  have hexpires := And.intro (hkey "Expires" "Version" (by decide))
    (hkey "Expires" "Serial" (by decide))
  have hlist := And.intro (hkey "Servers" "Version" (by decide))
    (And.intro (hkey "Servers" "Serial" (by decide)) (hkey "Servers" "Expires" (by decide)))
  have hfour : [(ofString "Version", ofString "1"), (ofString "Serial", formats.uuidText uuid4),
      (ofString "Expires", formats.isoformat expires),
      (ofString "Servers", (ofString ";").intercalate servers)].foldlM
        (fun parsed header => applyHeader formats parsed header.1 header.2)
        (⟨none, none, none, none⟩ : Parsed δ υ) =
      Except.ok ⟨none, some uuid4, some expires, some servers⟩ := by
    simp only [List.foldlM_cons, List.foldlM_nil, applyHeader, if_true, hversion, ne_eq,
      not_true_eq_false, if_false, hserial, hexpires, hlist, hformats.uuid, hformats.date _ haware,
      splitServers_intercalate h.servers]
    rfl
  unfold headers
  rw [List.foldlM_append, hfour]
  cases blaster with
  | none => rfl
  | some url =>
    have hlast := And.intro (hkey "Blaster" "Version" (by decide))
      (And.intro (hkey "Blaster" "Serial" (by decide))
        (And.intro (hkey "Blaster" "Expires" (by decide)) (hkey "Blaster" "Servers" (by decide))))
    simp only [bind, Except.bind, List.foldlM_cons, List.foldlM_nil, applyHeader, hlast, if_false,
      if_true]
    rfl

include hformats in
/-- The inner text of a generated cookie is read back. -/
theorem parseInner_str (uuid4 : υ) (h : Arguments servers scopeurls blaster)
    (haware : formats.aware expires = true) (signature : Bytes) {data : Text}
    (hdata : data = scopeData (headers formats uuid4 servers expires blaster) scopeurls) :
    parseInner formats (hexlify signature ++ [newline] ++ data) =
      .ok ⟨uuid4, expires, blaster, servers, scopeurls, data, signature, haware⟩ := by
  have hne : headers formats uuid4 servers expires blaster ≠ [] := by simp [headers]
  have hok : ∀ header ∈ headers formats uuid4 servers expires blaster, HeaderOk header :=
    headers_ok hformats h
  have hnewline : newline ∉ hexlify signature := by
    intro hmem
    have hdigit := isSome_hexValue?_of_mem_hexlify hmem
    cases hdigit
  have hfirst : cut [newline] (hexlify signature ++ [newline] ++ data) =
      some (hexlify signature, data) := cut_append hnewline data
  have hsecond := cut_scopeData hne hok scopeurls
  rw [← hdata] at hsecond
  have hheaders := foldlM_headers hformats uuid4 h haware
  simp only [parseInner, hfirst, hsecond, unhexlify_hexlify, splitLines_headerLines hok,
    foldlM_parseHeader formats hok, hheaders, parseBody_intercalate h.scopeurls, bind, Except.bind,
    ScopeCookie.new, haware, dif_pos]

end Generated

/-- The base64 text between the boundaries, its last line feed included. -/
def wrapped (bytes : Bytes) : Text := fill (b64encode bytes) 64 ++ [newline]

/-- The wrapped lines of an encoded cookie have no symbols but those of the pattern. -/
theorem base64Re_of_mem_wrapped {bytes : Bytes} {c : CodePoint} (h : c ∈ wrapped bytes) :
    base64Re c = true := by
  have hcase : c ∈ b64encode bytes ∨ c = newline := by
    rcases List.mem_append.mp h with h | h
    · exact mem_fillFrom h
    · exact Or.inr (List.mem_singleton.mp h)
  rcases hcase with h | rfl
  · simp [base64Re, meaningful_of_mem_b64encode h]
  · rfl

/-- Line feeds between the lines do not change what is decoded. -/
theorem b64decode_wrapped (bytes : Bytes) : b64decode (wrapped bytes) = some bytes := by
  have hnewline : Meaningful newline = false := rfl
  apply b64decode_of_filter
  rw [wrapped, List.filter_append, filter_fill hnewline fun c hc => meaningful_of_mem_b64encode hc]
  simp [hnewline]

/-- An encoded cookie is matched, whatever follows it. -/
theorem matchItems_encodedCookie (bytes : Bytes) (rest : Text) :
    matchItems encodedCookie (boundaryStart ++ wrapped bytes ++ boundaryEnd ++ rest) =
      some ([wrapped bytes], rest) := by
  have hend : matchItems (literal boundaryEnd ++ []) (boundaryEnd ++ rest) = some ([], rest) :=
    matchItems_literal boundaryEnd [] rest
  rw [List.append_nil] at hend
  have hhead : ∀ c ∈ (boundaryEnd ++ rest).head?, base64Re c = false := by
    intro c hc
    have hfirst : (boundaryEnd ++ rest).head? = some 45 := rfl
    rw [hfirst] at hc
    cases hc
    rfl
  have hne : wrapped bytes ≠ [] := by simp [wrapped]
  have hrun := matchItems_many hne (fun c hc => base64Re_of_mem_wrapped hc) hhead hend
  rw [encodedCookie, List.append_assoc, List.append_assoc, matchItems_literal]
  exact hrun

/-- An encoded cookie is its wrapped text between the boundary markers. -/
theorem ScopeCookie.encode_eq {formats : Formats δ υ} {σ : Type} {cookie : ScopeCookie formats σ}
    {bytes : Bytes} (h : encodeUtf8 cookie.str = some bytes) :
    cookie.encode = some (boundaryStart ++ wrapped bytes ++ boundaryEnd) := by
  simp [ScopeCookie.encode, h, wrapped]

/-- Of an encoded text only what stands between the markers is parsed. -/
theorem parse_encoded (formats : Formats δ υ) {text : Text} {bytes : Bytes}
    (h : encodeUtf8 text = some bytes) :
    parse formats (boundaryStart ++ wrapped bytes ++ boundaryEnd) = parseInner formats text := by
  have hmatch := matchItems_encodedCookie bytes []
  rw [List.append_nil] at hmatch
  simp only [parse, hmatch, b64decode_wrapped, Option.bind_some, decodeUtf8_encodeUtf8 h]

/-- A cookie that `generate` can return, with any key. -/
def Generated {formats : Formats δ υ} (cookie : ScopeCookie formats Text) : Prop :=
  ∃ sign uuid4 servers scopeurls expires blaster, Arguments servers scopeurls blaster ∧
    generate formats sign uuid4 servers scopeurls expires blaster = .ok cookie

/-- The parsed cookie says what the other one says. -/
structure ReadBack {formats : Formats δ υ} (parsed : ScopeCookie formats υ)
    (cookie : ScopeCookie formats Text) : Prop where
  /-- The same servers. -/
  servers : parsed.servers = cookie.servers
  /-- The same scope URLs. -/
  scopeurls : parsed.scopeurls = cookie.scopeurls
  /-- The same blaster. -/
  blaster : parsed.blaster = cookie.blaster
  /-- The same expiration. -/
  expires : parsed.expires = cookie.expires
  /-- The same text of the serial number. -/
  serial : formats.uuidText parsed.serial = cookie.serial
  /-- The same signed data. -/
  data : parsed.data = cookie.data
  /-- The same signature. -/
  signature : parsed.signature = cookie.signature

/-- The parsed cookie says what `generate` was given. -/
structure Says {formats : Formats δ υ} (parsed : ScopeCookie formats υ) (uuid4 : υ)
    (servers scopeurls : List Text) (expires : δ) (blaster : Option Text) : Prop where
  /-- The servers. -/
  servers : parsed.servers = servers
  /-- The scope URLs. -/
  scopeurls : parsed.scopeurls = scopeurls
  /-- The blaster. -/
  blaster : parsed.blaster = blaster
  /-- The expiration. -/
  expires : parsed.expires = expires
  /-- The serial number. -/
  serial : parsed.serial = uuid4

/-- A generated cookie in full. -/
theorem generate_eq_ok {formats : Formats δ υ} {sign : Bytes → Bytes} {uuid4 : υ}
    {servers scopeurls : List Text} {expires : δ} {blaster : Option Text}
    {cookie : ScopeCookie formats Text}
    (h : generate formats sign uuid4 servers scopeurls expires blaster = .ok cookie) :
    ∃ haware bytes,
      encodeUtf8 (scopeData (headers formats uuid4 servers expires blaster) scopeurls) = some bytes ∧
      cookie = ⟨formats.uuidText uuid4, expires, blaster, servers, scopeurls,
        scopeData (headers formats uuid4 servers expires blaster) scopeurls, sign bytes, haware⟩ := by
  unfold generate at h
  dsimp only at h
  split at h
  · cases h
  · rename_i bytes hbytes
    by_cases haware : formats.aware expires = true
    · simp only [ScopeCookie.new, dif_pos haware, Except.ok.injEq] at h
      exact ⟨haware, bytes, hbytes, h.symm⟩
    · simp only [ScopeCookie.new, dif_neg haware] at h
      cases h

/-- `generate` succeeds with a time zone and a text that has an encoding. -/
theorem generate_of_encodable {formats : Formats δ υ} (sign : Bytes → Bytes) {uuid4 : υ}
    {servers scopeurls : List Text} {expires : δ} {blaster : Option Text} {bytes : Bytes}
    (haware : formats.aware expires = true)
    (hbytes : encodeUtf8 (scopeData (headers formats uuid4 servers expires blaster) scopeurls) =
      some bytes) :
    generate formats sign uuid4 servers scopeurls expires blaster =
      .ok ⟨formats.uuidText uuid4, expires, blaster, servers, scopeurls,
        scopeData (headers formats uuid4 servers expires blaster) scopeurls, sign bytes, haware⟩ := by
  simp only [generate, hbytes, ScopeCookie.new, dif_pos haware]

/-- The text of a generated cookie has an encoding. -/
theorem Generated.encodeUtf8_str {formats : Formats δ υ} {cookie : ScopeCookie formats Text}
    (h : Generated cookie) : ∃ bytes, encodeUtf8 cookie.str = some bytes := by
  obtain ⟨sign, uuid4, servers, scopeurls, expires, blaster, _, hgenerate⟩ := h
  obtain ⟨haware, bytes, hbytes, rfl⟩ := generate_eq_ok hgenerate
  rw [← Option.isSome_iff_exists, isSome_encodeUtf8_iff]
  have hdata := isSome_encodeUtf8_iff.mp (Option.isSome_iff_exists.mpr ⟨bytes, hbytes⟩)
  intro c hc
  rw [ScopeCookie.str, List.mem_append, List.mem_append] at hc
  rcases hc with (hc | hc) | hc
  · have hlt : c.val < 0x80 := hexValue?_lt (isSome_hexValue?_of_mem_hexlify hc)
    exact isSome_character_of_lt (by omega)
  · rw [List.mem_singleton.mp hc]
    exact isSome_character_of_lt (by decide)
  · exact hdata c hc

/-- A generated cookie is read back from its encoding, with the text of the cookie and with what
`generate` was given, and a megacookie is split into the encodings of which it consists. -/
theorem generated_roundTrip {formats : Formats δ υ} (hformats : formats.Inverse) :
    (∀ sign uuid4 servers scopeurls expires blaster (cookie : ScopeCookie formats Text),
      Arguments servers scopeurls blaster →
      generate formats sign uuid4 servers scopeurls expires blaster = .ok cookie →
      ∃ encoded parsed, cookie.encode = some encoded ∧ parse formats encoded = .ok parsed ∧
        ReadBack parsed cookie ∧ Says parsed uuid4 servers scopeurls expires blaster) ∧
    ∀ cookies : List (ScopeCookie formats Text), (∀ cookie ∈ cookies, Generated cookie) →
      ∃ encodings, cookies.mapM ScopeCookie.encode = some encodings ∧
        split encodings.flatten = encodings := by
  constructor
  · intro sign uuid4 servers scopeurls expires blaster cookie harguments hgenerate
    have hgenerated : Generated cookie :=
      ⟨sign, uuid4, servers, scopeurls, expires, blaster, harguments, hgenerate⟩
    obtain ⟨bytes, hbytes⟩ := hgenerated.encodeUtf8_str
    obtain ⟨haware, signed, _, rfl⟩ := generate_eq_ok hgenerate
    have hparse := parse_encoded formats hbytes
    have hinner := parseInner_str hformats uuid4 harguments haware (sign signed) rfl
    rw [ScopeCookie.str] at hparse
    refine ⟨_, _, ScopeCookie.encode_eq hbytes, hparse.trans hinner, ?_⟩
    exact ⟨⟨rfl, rfl, rfl, rfl, rfl, rfl, rfl⟩, ⟨rfl, rfl, rfl, rfl, rfl⟩⟩
  · intro cookies hgenerated
    induction cookies with
    | nil => exact ⟨[], rfl, rfl⟩
    | cons cookie rest ih =>
      obtain ⟨encodings, hrest, hsplit⟩ :=
        ih fun other hother => hgenerated other (List.mem_cons_of_mem _ hother)
      obtain ⟨bytes, hbytes⟩ := (hgenerated cookie List.mem_cons_self).encodeUtf8_str
      have hencode := ScopeCookie.encode_eq hbytes
      refine ⟨(boundaryStart ++ wrapped bytes ++ boundaryEnd) :: encodings, ?_, ?_⟩
      · rw [List.mapM_cons, hencode, hrest]
        rfl
      · have hne : boundaryStart ++ wrapped bytes ++ boundaryEnd ≠ [] := by simp [wrapped]
        rw [List.flatten_cons, split,
          findAll_append hne (matchItems_encodedCookie bytes encodings.flatten)]
        exact congrArg _ hsplit

/-- One date and one serial number. -/
def sampleFormats : Formats Unit Unit where
  aware _ := true
  isoformat _ := ofString "2030-01-01T00:00:00+00:00"
  parseDate text := if text = ofString "2030-01-01T00:00:00+00:00" then .ok () else .error true
  instant _ := 1893456000000000
  parseUuid text :=
    if text = ofString "6ba7b810-9dad-41d1-80b4-00c04fd430c8" then some () else none
  uuidText _ := ofString "6ba7b810-9dad-41d1-80b4-00c04fd430c8"

/-- The sample date and serial number are read back as they are written. -/
theorem sampleFormats_inverse : sampleFormats.Inverse := by
  have hplain : ∀ text : Text, (text.all fun c => isSpace c = false) = true → Plain text := by
    intro text hall c hc
    simpa using List.all_eq_true.mp hall c hc
  have hdate : Plain (sampleFormats.isoformat ()) := hplain _ (by decide)
  have huuid : Plain (sampleFormats.uuidText ()) := hplain _ (by decide)
  exact ⟨fun _ _ => rfl, fun _ => hdate, fun _ => rfl, fun _ => huuid⟩

/-- The sample servers, scope URLs and blaster are what a caller may give. -/
theorem sampleArguments :
    Arguments [ofString "a", ofString "b"] [] (some (ofString "http://c/")) := by
  have htoken : ∀ text : Text, (text.all fun c => isSpace c = false ∧ c ∉ ofString ";,") = true →
      Plain text ∧ ∀ c ∈ text, c ∉ ofString ";," := by
    intro text hall
    have hboth : ∀ c ∈ text, isSpace c = false ∧ c ∉ ofString ";," := by
      intro c hc
      simpa using List.all_eq_true.mp hall c hc
    exact ⟨fun c hc => (hboth c hc).1, fun c hc => (hboth c hc).2⟩
  constructor
  · intro server hserver
    simp only [List.mem_cons, List.not_mem_nil, or_false] at hserver
    rcases hserver with rfl | rfl
    · exact ⟨by decide, htoken _ (by decide)⟩
    · exact ⟨by decide, htoken _ (by decide)⟩
  · intro url hurl
    cases hurl
  · intro url hurl
    cases hurl
    exact (htoken (ofString "http://c/") (by decide)).1

/-- A cookie for two servers and with a blaster is read back with its arguments, and is found twice
in a file that holds it twice. -/
theorem generated_roundTrip_sample :
    ∃ cookie : ScopeCookie sampleFormats Text,
      generate sampleFormats (fun _ => [0xc0, 0x1d]) () [ofString "a", ofString "b"] [] ()
        (some (ofString "http://c/")) = .ok cookie ∧
      (∃ encoded parsed, cookie.encode = some encoded ∧ parse sampleFormats encoded = .ok parsed ∧
        ReadBack parsed cookie ∧
        Says parsed () [ofString "a", ofString "b"] [] () (some (ofString "http://c/"))) ∧
      ∃ encodings, [cookie, cookie].mapM ScopeCookie.encode = some encodings ∧
        split encodings.flatten = encodings := by
  have hencodable : (encodeUtf8 (scopeData (headers sampleFormats () [ofString "a", ofString "b"] ()
      (some (ofString "http://c/"))) [])).isSome := by
    rw [isSome_encodeUtf8_iff]
    have hall : ((scopeData (headers sampleFormats () [ofString "a", ofString "b"] ()
        (some (ofString "http://c/"))) []).all fun point => (character point).isSome) = true := by
      decide
    exact List.all_eq_true.mp hall
  obtain ⟨bytes, hbytes⟩ := Option.isSome_iff_exists.mp hencodable
  obtain ⟨cookie, hcookie⟩ : ∃ cookie, generate sampleFormats (fun _ => [0xc0, 0x1d]) ()
      [ofString "a", ofString "b"] [] () (some (ofString "http://c/")) = .ok cookie :=
    ⟨_, generate_of_encodable _ rfl hbytes⟩
  have hgenerated : Generated cookie := ⟨_, (), _, _, (), _, sampleArguments, hcookie⟩
  have hroundTrip := generated_roundTrip sampleFormats_inverse
  refine ⟨cookie, hcookie, hroundTrip.1 _ _ _ _ _ _ cookie sampleArguments hcookie,
    hroundTrip.2 [cookie, cookie] ?_⟩
  intro other hother
  simp only [List.mem_cons, List.not_mem_nil, or_false, or_self] at hother
  rw [hother]
  exact hgenerated

end OpenDiamond.Scope
