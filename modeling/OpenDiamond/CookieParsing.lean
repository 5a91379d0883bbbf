import OpenDiamond.Scope

/-!
# What cookie parsing raises and accepts

Some stages of `parse` catch an exception type that the library call no longer raises: the
errors of base64, UTF-8 and hexadecimal digits, of a header line without a colon and of a date
out of range leave `parse` as they are. The loop over the headers keeps the last value of each
header and asks for three of them only.
-/

namespace OpenDiamond.CookieParsing

open Lib.Unicode Lib.Words Lib.Splitting Lib.Patterns Lib.BinaryText Lib.Traversal Scope

variable {δ υ : Type}

/-! ## Header lines -/

/-- A header line whose exception is not a `ScopeError`. -/
inductive Escapes (formats : Formats δ υ) : Text → Prop where
  /-- The line has no colon. -/
  | noColon {line : Text} (hcut : cut (ofString ":") line = none) : Escapes formats line
  /-- The date exceeds the integers of the parser. -/
  | date {line value : Text} (hcut : cut (ofString ":") line = some (ofString "Expires", value))
    (hdate : formats.parseDate (strip value) = .error false) : Escapes formats line

/-- A header line that is answered with a `ScopeError`. -/
inductive Rejected (formats : Formats δ υ) : Text → Prop where
  /-- The version is not 1. -/
  | version {line value : Text} (hcut : cut (ofString ":") line = some (ofString "Version", value))
    (hversion : readInt (strip value) ≠ some cookieVersion) : Rejected formats line
  /-- The serial number is malformed. -/
  | serial {line value : Text} (hcut : cut (ofString ":") line = some (ofString "Serial", value))
    (hserial : formats.parseUuid (strip value) = none) : Rejected formats line
  /-- The date is malformed. -/
  | expires {line value : Text} (hcut : cut (ofString ":") line = some (ofString "Expires", value))
    (hdate : formats.parseDate (strip value) = .error true) : Rejected formats line

/-- A line with a colon is a key, and a value without the blanks around it. -/
theorem parseHeader_of_cut (formats : Formats δ υ) (parsed : Parsed δ υ) {line key value : Text}
    (hcut : cut (ofString ":") line = some (key, value)) :
    parseHeader formats parsed line = applyHeader formats parsed key (strip value) := by
  simp only [parseHeader, hcut]

/-- Keys are told apart. -/
theorem ofString_ne {first second : String} (h : first ≠ second) :
    ofString first ≠ ofString second :=
  fun heq => h (ofString_injective heq)

/-- A line whose exception escapes does so whatever was read before it. -/
theorem parseHeader_of_escapes {formats : Formats δ υ} {line : Text} (h : Escapes formats line)
    (parsed : Parsed δ υ) :
    ∃ raised, parseHeader formats parsed line = .error raised ∧ ¬raised.IsScopeError := by
  cases h with
  | noColon hcut => exact ⟨.valueError, by simp only [parseHeader, hcut], id⟩
  | date hcut hdate =>
    refine ⟨.overflowError, ?_, id⟩
    rw [parseHeader_of_cut formats parsed hcut, applyHeader, if_neg (ofString_ne (by decide)),
      if_neg (ofString_ne (by decide)), if_pos rfl, hdate]

/-- A line that is rejected is rejected with a `ScopeError` whatever was read before it. -/
theorem parseHeader_of_rejected {formats : Formats δ υ} {line : Text} (h : Rejected formats line)
    (parsed : Parsed δ υ) :
    ∃ message, parseHeader formats parsed line = .error (.scopeError message) := by
  cases h with
  | version hcut hversion =>
    rw [parseHeader_of_cut formats parsed hcut, applyHeader, if_pos rfl]
    cases hread : readInt (strip _) with
    | none => exact ⟨_, rfl⟩
    | some version =>
      have hne : version ≠ cookieVersion := fun heq => hversion (hread.trans (congrArg some heq))
      exact ⟨_, if_pos hne⟩
  | serial hcut hserial =>
    refine ⟨ofString "Invalid serial format", ?_⟩
    rw [parseHeader_of_cut formats parsed hcut, applyHeader, if_neg (ofString_ne (by decide)),
      if_pos rfl, hserial]
  | expires hcut hdate =>
    refine ⟨ofString "Invalid date format", ?_⟩
    rw [parseHeader_of_cut formats parsed hcut, applyHeader, if_neg (ofString_ne (by decide)),
      if_neg (ofString_ne (by decide)), if_pos rfl, hdate]

/-- Every other line is read. -/
theorem parseHeader_eq_ok {formats : Formats δ υ} {line : Text} (hescapes : ¬Escapes formats line)
    (hrejected : ¬Rejected formats line) (parsed : Parsed δ υ) :
    ∃ parsed', parseHeader formats parsed line = .ok parsed' := by
  cases hcut : cut (ofString ":") line with
  | none => exact absurd (.noColon hcut) hescapes
  | some header =>
    obtain ⟨key, value⟩ := header
    rw [parseHeader_of_cut formats parsed hcut]
    unfold applyHeader
    split_ifs with hversion hserial hexpires hservers hblaster
    · subst hversion
      have hread : readInt (strip value) = some cookieVersion :=
        not_ne_iff.mp fun hne => hrejected (.version hcut hne)
      rw [hread]
      exact ⟨parsed, if_neg (not_not_intro rfl)⟩
    · subst hserial
      cases huuid : formats.parseUuid (strip value) with
      | none => exact absurd (.serial hcut huuid) hrejected
      | some serial => exact ⟨_, rfl⟩
    · subst hexpires
      cases hdate : formats.parseDate (strip value) with
      | ok expires => exact ⟨_, rfl⟩
      | error isValueError =>
        cases isValueError with
        | true => exact absurd (.expires hcut hdate) hrejected
        | false => exact absurd (.date hcut hdate) hescapes
    · exact ⟨_, rfl⟩
    · exact ⟨_, rfl⟩
    · exact ⟨parsed, rfl⟩

/-! ## Only `ScopeError` -/

/-- The loop over the headers meets no line whose exception escapes before one that is
rejected. -/
def HeadersContained (formats : Formats δ υ) (lines : List Text) : Prop :=
  ∀ before line after, lines = before ++ line :: after →
    (∀ earlier ∈ before, ¬Rejected formats earlier) → ¬Escapes formats line

/-- The text has no boundary markers, or encodes a text which is malformed, or whose signature
is hexadecimal and whose headers are contained. -/
def Contained (formats : Formats δ υ) (data : Text) : Prop :=
  ∀ group rest, matchItems encodedCookie data = some ([group], rest) →
    ∃ inner, (b64decode group).bind decodeUtf8 = some inner ∧
      ∀ signature block header body, FirstCut [newline] inner signature block →
        FirstCut [newline, newline] block header body →
          (unhexlify signature).isSome ∧ HeadersContained formats (splitLines header)

/-- Headers are contained when the first line does not escape, and the rest is contained unless the
first line already ends the loop. -/
theorem headersContained_cons {formats : Formats δ υ} {line : Text} {lines : List Text} :
    HeadersContained formats (line :: lines) ↔
      ¬Escapes formats line ∧ (¬Rejected formats line → HeadersContained formats lines) := by
  constructor
  · intro h
    refine ⟨h [] line lines rfl fun earlier hearlier => absurd hearlier List.not_mem_nil, ?_⟩
    intro hrejected before later after heq hbefore
    refine h (line :: before) later after (congrArg (line :: ·) heq) ?_
    intro earlier hearlier
    rcases List.mem_cons.mp hearlier with rfl | hearlier
    · exact hrejected
    · exact hbefore earlier hearlier
  · rintro ⟨hline, hlines⟩ before later after heq hbefore
    cases before with
    | nil =>
      obtain ⟨rfl, _⟩ := List.cons.inj heq
      exact hline
    | cons first before =>
      obtain ⟨rfl, htail⟩ := List.cons.inj heq
      exact hlines (hbefore line List.mem_cons_self) before later after htail
        fun earlier hearlier => hbefore earlier (List.mem_cons_of_mem _ hearlier)

/-- The loop over the headers raises nothing but `ScopeError` exactly for contained headers. -/
theorem foldlM_raises_iff {formats : Formats δ υ} {lines : List Text} (parsed : Parsed δ υ) :
    (∀ raised, lines.foldlM (parseHeader formats) parsed = .error raised → raised.IsScopeError) ↔
      HeadersContained formats lines := by
  induction lines generalizing parsed with
  | nil =>
    constructor
    · intro _ before line after heq
      exact absurd heq (List.append_ne_nil_of_right_ne_nil before (List.cons_ne_nil line after)).symm
    · intro _ raised h
      cases h
  | cons line lines ih =>
    rw [headersContained_cons, List.foldlM_cons]
    by_cases hescapes : Escapes formats line
    · obtain ⟨raised, hraised, hno⟩ := parseHeader_of_escapes hescapes parsed
      rw [hraised]
      exact ⟨fun h => absurd (h raised rfl) hno, fun h => absurd hescapes h.1⟩
    · by_cases hrejected : Rejected formats line
      · obtain ⟨message, hmessage⟩ := parseHeader_of_rejected hrejected parsed
        rw [hmessage]
        refine ⟨fun _ => ⟨hescapes, absurd hrejected⟩, fun _ raised h => ?_⟩
        cases h
        trivial
      · obtain ⟨parsed', hparsed⟩ := parseHeader_eq_ok hescapes hrejected parsed
        rw [hparsed]
        exact (ih parsed').trans ⟨fun h => ⟨hescapes, fun _ => h⟩, fun h => h.2 hrejected⟩

/-- The last step of `parse`: a cookie of the variables, if they are bound. -/
def cookieOf (formats : Formats δ υ) (parsed : Parsed δ υ) (body data : Text)
    (signature : Bytes) : Except (Raised δ) (ScopeCookie formats υ) :=
  match parsed.serial, parsed.expires, parsed.servers with
  | some serial, some expires, some servers =>
    ScopeCookie.new serial expires parsed.blaster servers (parseBody body) data signature
  | _, _, _ => .error (.scopeError (ofString "Missing cookie header"))

section Inner

variable {formats : Formats δ υ} {inner signature data header body : Text}

/-- A text with both of its separators and a hexadecimal signature is read by the loop over its
headers and the check behind it. -/
theorem parseInner_eq {bytes : Bytes} (hsignature : FirstCut [newline] inner signature data)
    (hheader : FirstCut [newline, newline] data header body)
    (hbytes : unhexlify signature = some bytes) :
    parseInner formats inner =
      (splitLines header).foldlM (parseHeader formats) ⟨none, none, none, none⟩ >>=
        fun parsed => cookieOf formats parsed body data bytes := by
  simp only [parseInner, cut_eq_some_iff.mpr hsignature, cut_eq_some_iff.mpr hheader, hbytes]
  rfl

/-- A signature that is not hexadecimal raises a `ValueError`, which no handler catches. -/
theorem parseInner_of_malformed_signature (hsignature : FirstCut [newline] inner signature data)
    (hheader : FirstCut [newline, newline] data header body) (hbytes : unhexlify signature = none) :
    parseInner formats inner = .error .valueError := by
  simp only [parseInner, cut_eq_some_iff.mpr hsignature, cut_eq_some_iff.mpr hheader, hbytes]

/-- The check behind the headers raises nothing but a `ScopeError`. -/
theorem isScopeError_of_cookieOf {parsed : Parsed δ υ} {bytes : Bytes} {raised : Raised δ}
    (h : cookieOf formats parsed body data bytes = .error raised) : raised.IsScopeError := by
  unfold cookieOf at h
  split at h
  · unfold ScopeCookie.new at h
    split at h
    · cases h
    · cases h
      trivial
  · cases h
    trivial

/-- The parts of an inner text are found, or it is malformed. -/
theorem parts_or_malformed (formats : Formats δ υ) (inner : Text) :
    (∃ signature data header body, FirstCut [newline] inner signature data ∧
      FirstCut [newline, newline] data header body) ∨
    ((∀ signature data header body, FirstCut [newline] inner signature data →
        ¬FirstCut [newline, newline] data header body) ∧
      parseInner formats inner = .error (.scopeError (ofString "Malformed cookie"))) := by
  cases hfirst : cut [newline] inner with
  | none =>
    right
    refine ⟨fun signature data _ _ hsignature => ?_, by simp only [parseInner, hfirst]⟩
    rw [cut_eq_some_iff.mpr hsignature] at hfirst
    cases hfirst
  | some parts =>
    obtain ⟨signature, data⟩ := parts
    cases hsecond : cut [newline, newline] data with
    | none =>
      right
      refine ⟨fun signature' data' header body hsignature hheader => ?_, by
        simp only [parseInner, hfirst, hsecond]⟩
      rw [cut_eq_some_iff.mpr hsignature] at hfirst
      cases hfirst
      rw [cut_eq_some_iff.mpr hheader] at hsecond
      cases hsecond
    | some parts =>
      exact Or.inl ⟨signature, data, parts.1, parts.2, cut_eq_some_iff.mp hfirst,
        cut_eq_some_iff.mp hsecond⟩

end Inner

/-- The first cut of a list is the only one, so that the parts of a text are determined by it. -/
theorem FirstCut.unique {separator list front back front' back' : Text}
    (h : FirstCut separator list front back) (h' : FirstCut separator list front' back') :
    front = front' ∧ back = back' := by
  have hcut := cut_eq_some_iff.mpr h
  rw [cut_eq_some_iff.mpr h', Option.some.injEq, Prod.mk.injEq] at hcut
  exact ⟨hcut.1.symm, hcut.2.symm⟩

/-- The part behind the encoding raises nothing but a `ScopeError` exactly when its signature is
hexadecimal and its headers are contained, as far as it has these parts at all. -/
theorem parseInner_raises_iff (formats : Formats δ υ) (inner : Text) :
    (∀ raised, parseInner formats inner = .error raised → raised.IsScopeError) ↔
      ∀ signature block header body, FirstCut [newline] inner signature block →
        FirstCut [newline, newline] block header body →
          (unhexlify signature).isSome ∧ HeadersContained formats (splitLines header) := by
  rcases parts_or_malformed formats inner with ⟨signature, data, header, body, hfirst, hsecond⟩ |
    ⟨hno, hmalformed⟩
  · have hparts : (∀ signature block header body, FirstCut [newline] inner signature block →
        FirstCut [newline, newline] block header body →
          (unhexlify signature).isSome ∧ HeadersContained formats (splitLines header)) ↔
        (unhexlify signature).isSome ∧ HeadersContained formats (splitLines header) := by
      constructor
      · exact fun h => h signature data header body hfirst hsecond
      · intro h signature' data' header' body' hfirst' hsecond'
        obtain ⟨rfl, rfl⟩ := FirstCut.unique hfirst hfirst'
        obtain ⟨rfl, rfl⟩ := FirstCut.unique hsecond hsecond'
        exact h
    rw [hparts]
    cases hbytes : unhexlify signature with
    | none =>
      rw [parseInner_of_malformed_signature hfirst hsecond hbytes]
      exact ⟨fun h => (h .valueError rfl).elim, fun h => absurd h.1 Bool.false_ne_true⟩
    | some bytes =>
      rw [parseInner_eq hfirst hsecond hbytes, ← foldlM_raises_iff ⟨none, none, none, none⟩]
      constructor
      · intro h
        refine ⟨rfl, fun raised hraised => h raised ?_⟩
        rw [hraised]
        rfl
      · rintro ⟨_, h⟩ raised hraised
        rcases bind_eq_error hraised with hloop | ⟨parsed, _, hcookie⟩
        · exact h raised hloop
        · exact isScopeError_of_cookieOf hcookie
  · rw [hmalformed]
    constructor
    · exact fun _ signature block header body hfirst hsecond =>
        absurd hsecond (hno signature block header body hfirst)
    · intro _ raised hraised
      cases hraised
      trivial

/-- `parse` raises nothing but `ScopeError` exactly for texts that are contained: they have no
boundary markers, or what stands between them is base64 of UTF-8, is malformed or has a hexadecimal
signature, and no header line before a rejected one lets its exception out. -/
theorem parse_raises_iff (formats : Formats δ υ) (data : Text) :
    (∀ raised, parse formats data = .error raised → raised.IsScopeError) ↔
      Contained formats data := by
  unfold parse Contained
  split
  · rename_i group rest hmatch
    cases hinner : (b64decode group).bind decodeUtf8 with
    | none =>
      constructor
      · exact fun h => (h .valueError rfl).elim
      · intro h
        obtain ⟨inner, hsome, _⟩ := h group rest hmatch
        rw [hinner] at hsome
        cases hsome
    | some inner =>
      show (∀ raised, parseInner formats inner = .error raised → _) ↔ _
      rw [parseInner_raises_iff]
      constructor
      · intro h group' rest' hmatch'
        rw [hmatch] at hmatch'
        cases hmatch'
        exact ⟨inner, hinner, h⟩
      · intro h
        obtain ⟨inner', hsome, hall⟩ := h group rest hmatch
        rw [hinner] at hsome
        cases hsome
        exact hall
  · rename_i hno
    constructor
    · intro _ group rest hmatch
      exact absurd hmatch (hno group rest)
    · intro _ raised hraised
      cases hraised
      trivial

/-- A cookie whose base64 has a single symbol. -/
def lonelySymbol : Text := boundaryStart ++ ofString "A\n" ++ boundaryEnd

/-- A single symbol between the markers is no base64, and the error of its decoding leaves
`parse`. -/
theorem parse_lonelySymbol :
    ¬∀ raised, parse sampleFormats lonelySymbol = .error raised → raised.IsScopeError := by
  intro h
  have hparse : parse sampleFormats lonelySymbol = .error .valueError := by rfl
  exact h .valueError hparse

/-! ## The header grammar -/

/-- The values of the headers with a key, in order. -/
def valuesOf (key : String) (lines : List Text) : List Text :=
  lines.filterMap fun line => (cut (ofString ":") line).bind fun header =>
    if header.1 = ofString key then some (strip header.2) else none

/-- A variable holds what was read from the last of the values. -/
structure Holds {α : Type} (read : Text → Option α) (values : List Text) (bound : Option α) :
    Prop where
  /-- The last value is the one that counts. -/
  last : bound = values.getLast?.bind read
  /-- All values are well formed. -/
  every : ∀ value ∈ values, (read value).isSome

/-- The variables hold what was read from the header lines. -/
structure Reads (formats : Formats δ υ) (lines : List Text) (parsed : Parsed δ υ) : Prop where
  /-- Every line has a key and a value. -/
  colon : ∀ line ∈ lines, (cut (ofString ":") line).isSome
  /-- Every version is 1. -/
  version : ∀ value ∈ valuesOf "Version" lines, readInt value = some cookieVersion
  /-- The serial number. -/
  serial : Holds formats.parseUuid (valuesOf "Serial" lines) parsed.serial
  /-- The date. -/
  expires : Holds (fun value => (formats.parseDate value).toOption) (valuesOf "Expires" lines)
    parsed.expires
  /-- The servers. -/
  servers : Holds (fun value => some (splitServers value)) (valuesOf "Servers" lines) parsed.servers
  /-- The blaster. -/
  blaster : Holds some (valuesOf "Blaster" lines) parsed.blaster

/-- What a header that is read does to the variables. -/
inductive Applied (formats : Formats δ υ) (parsed : Parsed δ υ) (key value : Text) :
    Parsed δ υ → Prop where
  /-- A version is checked. -/
  | version (hkey : key = ofString "Version") (hread : readInt value = some cookieVersion) :
    Applied formats parsed key value parsed
  /-- A serial number is kept. -/
  | serial {serial : υ} (hkey : key = ofString "Serial")
    (hread : formats.parseUuid value = some serial) :
    Applied formats parsed key value { parsed with serial := some serial }
  /-- A date is kept. -/
  | expires {expires : δ} (hkey : key = ofString "Expires")
    (hread : formats.parseDate value = .ok expires) :
    Applied formats parsed key value { parsed with expires := some expires }
  /-- A list of servers is kept. -/
  | servers (hkey : key = ofString "Servers") :
    Applied formats parsed key value { parsed with servers := some (splitServers value) }
  /-- A blaster is kept. -/
  | blaster (hkey : key = ofString "Blaster") :
    Applied formats parsed key value { parsed with blaster := some value }
  /-- Another header is ignored. -/
  | ignored (hkey : ∀ known ∈ ["Version", "Serial", "Expires", "Servers", "Blaster"],
      key ≠ ofString known) :
    Applied formats parsed key value parsed

/-- A header line that is read has a key and a value, which are applied. -/
theorem applied_of_parseHeader {formats : Formats δ υ} {parsed parsed' : Parsed δ υ} {line : Text}
    (h : parseHeader formats parsed line = .ok parsed') :
    ∃ key value, cut (ofString ":") line = some (key, value) ∧
      Applied formats parsed key (strip value) parsed' := by
  cases hcut : cut (ofString ":") line with
  | none =>
    simp only [parseHeader, hcut] at h
    cases h
  | some header =>
    obtain ⟨key, value⟩ := header
    refine ⟨key, value, rfl, ?_⟩
    rw [parseHeader_of_cut formats parsed hcut] at h
    unfold applyHeader at h
    split_ifs at h with hversion hserial hexpires hservers hblaster
    · cases hread : readInt (strip value) with
      | none =>
        rw [hread] at h
        cases h
      | some version =>
        rw [hread] at h
        simp only [ne_eq, ite_not] at h
        split_ifs at h with heq
        cases h
        exact .version hversion (hread.trans (congrArg some heq))
    · cases hread : formats.parseUuid (strip value) with
      | none =>
        rw [hread] at h
        cases h
      | some serial =>
        rw [hread] at h
        cases h
        exact .serial hserial hread
    · cases hread : formats.parseDate (strip value) with
      | error isValueError =>
        rw [hread] at h
        cases isValueError <;> cases h
      | ok expires =>
        rw [hread] at h
        cases h
        exact .expires hexpires hread
    · cases h
      exact .servers hservers
    · cases h
      exact .blaster hblaster
    · cases h
      refine .ignored fun known hknown => ?_
      simp only [List.mem_cons, List.not_mem_nil, or_false] at hknown
      rcases hknown with rfl | rfl | rfl | rfl | rfl
      · exact hversion
      · exact hserial
      · exact hexpires
      · exact hservers
      · exact hblaster

/-- Before the first line every variable is unbound. -/
theorem Holds.nil {α : Type} (read : Text → Option α) : Holds read [] none :=
  ⟨rfl, fun _ hvalue => absurd hvalue List.not_mem_nil⟩

/-- Another value replaces the one before. -/
theorem Holds.snoc {α : Type} {read : Text → Option α} {values : List Text} {bound : Option α}
    (h : Holds read values bound) {value : Text} {result : α} (hread : read value = some result) :
    Holds read (values ++ [value]) (some result) := by
  constructor
  · rw [List.getLast?_concat, Option.bind_some, hread]
  · intro other hother
    rcases List.mem_append.mp hother with hearlier | hlast
    · exact h.every other hearlier
    · rw [List.mem_singleton.mp hlast, hread]
      rfl

/-- A line with the key adds its value to those of that key. -/
theorem valuesOf_snoc {key : String} (lines : List Text) {line value : Text}
    (hcut : cut (ofString ":") line = some (ofString key, value)) :
    valuesOf key (lines ++ [line]) = valuesOf key lines ++ [strip value] := by
  simp [valuesOf, List.filterMap_append, hcut]

/-- A line with another key adds nothing to them. -/
theorem valuesOf_snoc_of_ne {key : String} {lines : List Text} {line other value : Text}
    (hcut : cut (ofString ":") line = some (other, value)) (hne : other ≠ ofString key) :
    valuesOf key (lines ++ [line]) = valuesOf key lines := by
  simp [valuesOf, List.filterMap_append, hcut, hne]

/-- One more header line leaves the variables in step with the lines. -/
theorem Reads.snoc {formats : Formats δ υ} {lines : List Text} {parsed parsed' : Parsed δ υ}
    (h : Reads formats lines parsed) {line key value : Text}
    (hcut : cut (ofString ":") line = some (key, value))
    (happlied : Applied formats parsed key (strip value) parsed') :
    Reads formats (lines ++ [line]) parsed' := by
  have hcolon : ∀ other ∈ lines ++ [line], (cut (ofString ":") other).isSome := by
    intro other hother
    rcases List.mem_append.mp hother with hearlier | hlast
    · exact h.colon other hearlier
    · rw [List.mem_singleton.mp hlast, hcut]
      rfl
  have hkeep : ∀ known, key ≠ ofString known →
      valuesOf known (lines ++ [line]) = valuesOf known lines :=
    fun known hne => valuesOf_snoc_of_ne hcut hne
  have hother : ∀ own known : String, key = ofString own → own ≠ known →
      valuesOf known (lines ++ [line]) = valuesOf known lines :=
    fun own known hkey hne => hkeep known (hkey ▸ ofString_ne hne)
  cases happlied with
  | version hkey hread =>
    have hnew := valuesOf_snoc lines (hkey ▸ hcut)
    have hrest := fun known => hother "Version" known hkey
    constructor
    · exact hcolon
    · intro other hother
      rw [hnew, List.mem_append, List.mem_singleton] at hother
      rcases hother with hearlier | rfl
      · exact h.version other hearlier
      · exact hread
    · exact hrest "Serial" (by decide) ▸ h.serial
    · exact hrest "Expires" (by decide) ▸ h.expires
    · exact hrest "Servers" (by decide) ▸ h.servers
    · exact hrest "Blaster" (by decide) ▸ h.blaster
  | serial hkey hread =>
    have hnew := valuesOf_snoc lines (hkey ▸ hcut)
    have hrest := fun known => hother "Serial" known hkey
    exact ⟨hcolon, hrest "Version" (by decide) ▸ h.version, hnew ▸ h.serial.snoc hread,
      hrest "Expires" (by decide) ▸ h.expires, hrest "Servers" (by decide) ▸ h.servers,
      hrest "Blaster" (by decide) ▸ h.blaster⟩
  | expires hkey hread =>
    have hnew := valuesOf_snoc lines (hkey ▸ hcut)
    have hrest := fun known => hother "Expires" known hkey
    have hdate : (formats.parseDate (strip value)).toOption = some _ := congrArg _ hread
    exact ⟨hcolon, hrest "Version" (by decide) ▸ h.version, hrest "Serial" (by decide) ▸ h.serial,
      hnew ▸ h.expires.snoc hdate, hrest "Servers" (by decide) ▸ h.servers,
      hrest "Blaster" (by decide) ▸ h.blaster⟩
  | servers hkey =>
    have hnew := valuesOf_snoc lines (hkey ▸ hcut)
    have hrest := fun known => hother "Servers" known hkey
    exact ⟨hcolon, hrest "Version" (by decide) ▸ h.version, hrest "Serial" (by decide) ▸ h.serial,
      hrest "Expires" (by decide) ▸ h.expires, hnew ▸ h.servers.snoc rfl,
      hrest "Blaster" (by decide) ▸ h.blaster⟩
  | blaster hkey =>
    have hnew := valuesOf_snoc lines (hkey ▸ hcut)
    have hrest := fun known => hother "Blaster" known hkey
    exact ⟨hcolon, hrest "Version" (by decide) ▸ h.version, hrest "Serial" (by decide) ▸ h.serial,
      hrest "Expires" (by decide) ▸ h.expires, hrest "Servers" (by decide) ▸ h.servers,
      hnew ▸ h.blaster.snoc rfl⟩
  | ignored hkey =>
    have hrest := fun known hknown => hkeep known (hkey known hknown)
    exact ⟨hcolon, hrest "Version" (by decide) ▸ h.version, hrest "Serial" (by decide) ▸ h.serial,
      hrest "Expires" (by decide) ▸ h.expires, hrest "Servers" (by decide) ▸ h.servers,
      hrest "Blaster" (by decide) ▸ h.blaster⟩

/-- The loop over the headers reads all lines, and each variable holds what the last line of its key
gave. -/
theorem reads_of_foldlM {formats : Formats δ υ} {lines : List Text} {parsed : Parsed δ υ}
    (h : lines.foldlM (parseHeader formats) ⟨none, none, none, none⟩ = .ok parsed) :
    Reads formats lines parsed := by
  induction lines using List.reverseRecOn generalizing parsed with
  | nil =>
    cases h
    exact ⟨fun _ hline => absurd hline List.not_mem_nil,
      fun _ hvalue => absurd hvalue List.not_mem_nil, .nil _, .nil _, .nil _, .nil _⟩
  | append_singleton lines line ih =>
    rw [List.foldlM_append] at h
    obtain ⟨earlier, hearlier, hlast⟩ := bind_eq_ok h
    rw [List.foldlM_cons] at hlast
    obtain ⟨parsed', hline, hend⟩ := bind_eq_ok hlast
    cases hend
    obtain ⟨key, value, hcut, happlied⟩ := applied_of_parseHeader hline
    exact (ih hearlier).snoc hcut happlied

/-- The text between the boundary markers encodes a payload. -/
def Encodes (text payload : Text) : Prop :=
  ∃ group rest, matchItems encodedCookie text = some ([group], rest) ∧
    (b64decode group).bind decodeUtf8 = some payload

/-- The payload of a cookie in its parts, with the fields that `parse` gives the cookie. -/
structure Grammar (formats : Formats δ υ) (payload signature header body : Text)
    (cookie : ScopeCookie formats υ) : Prop where
  /-- The first line is the signature. -/
  line : FirstCut [newline] payload signature cookie.data
  /-- The first blank line ends the header block. -/
  blank : FirstCut [newline, newline] cookie.data header body
  /-- The signature has hexadecimal digits only. -/
  hexadecimal : ∀ c ∈ signature, (hexValue? c).isSome
  /-- The signature is that of the first line. -/
  signature : unhexlify signature = some cookie.signature
  /-- The lines of the header block have a key and a value. -/
  colon : ∀ line ∈ splitLines header, (cut (ofString ":") line).isSome
  /-- Every version is 1. -/
  version : ∀ value ∈ valuesOf "Version" (splitLines header), readInt value = some cookieVersion
  /-- The serial number is that of the last such header. -/
  serial : ∃ value, (valuesOf "Serial" (splitLines header)).getLast? = some value ∧
    formats.parseUuid value = some cookie.serial
  /-- The date is that of the last such header. -/
  expires : ∃ value, (valuesOf "Expires" (splitLines header)).getLast? = some value ∧
    formats.parseDate value = .ok cookie.expires
  /-- The servers are those of the last such header. -/
  servers : ∃ value, (valuesOf "Servers" (splitLines header)).getLast? = some value ∧
    splitServers value = cookie.servers
  /-- The blaster is that of the last such header, if there is one. -/
  blaster : (valuesOf "Blaster" (splitLines header)).getLast? = cookie.blaster
  /-- The scope URLs are those of the body. -/
  scopeurls : parseBody body = cookie.scopeurls

/-- A payload whose headers stand there once. -/
structure StrictGrammar (formats : Formats δ υ) (payload signature header body : Text)
    (cookie : ScopeCookie formats υ) : Prop
    extends Grammar formats payload signature header body cookie where
  /-- The mandatory headers. -/
  once : ∀ key ∈ ["Version", "Serial", "Expires", "Servers"],
    (valuesOf key (splitLines header)).length = 1
  /-- The optional header. -/
  optional : (valuesOf "Blaster" (splitLines header)).length ≤ 1

/-- A variable that is bound holds what was read from the last value of its key. -/
theorem Holds.exists_last {α : Type} {read : Text → Option α} {values : List Text} {result : α}
    (h : Holds read values (some result)) :
    ∃ value, values.getLast? = some value ∧ read value = some result :=
  Option.bind_eq_some_iff.mp h.last.symm

/-- A cookie is made of variables that are bound, and has their values. -/
theorem eq_of_cookieOf {formats : Formats δ υ} {parsed : Parsed δ υ} {body data : Text}
    {signature : Bytes} {cookie : ScopeCookie formats υ}
    (h : cookieOf formats parsed body data signature = .ok cookie) :
    parsed = ⟨cookie.blaster, some cookie.serial, some cookie.expires, some cookie.servers⟩ ∧
      parseBody body = cookie.scopeurls ∧ data = cookie.data ∧ signature = cookie.signature := by
  obtain ⟨blaster, serial, expires, servers⟩ := parsed
  unfold cookieOf at h
  split at h
  · rename_i hserial hexpires hservers
    unfold ScopeCookie.new at h
    split at h
    · cases h
      exact ⟨congr (congr (congrArg (Parsed.mk blaster) hserial) hexpires) hservers, rfl, rfl, rfl⟩
    · cases h
  · cases h

/-- A cookie that `parse` returns is one of the grammar, with all its parts in their places, except
that headers may be repeated; then the last one counts. -/
theorem grammar_of_parse {formats : Formats δ υ} {text : Text} {cookie : ScopeCookie formats υ}
    (h : parse formats text = .ok cookie) :
    ∃ payload signature header body, Encodes text payload ∧
      Grammar formats payload signature header body cookie := by
  unfold parse at h
  split at h
  · rename_i group rest hmatch
    split at h
    · rename_i payload hpayload
      rcases parts_or_malformed formats payload with
        ⟨signature, data, header, body, hline, hblank⟩ | ⟨_, hmalformed⟩
      · cases hbytes : unhexlify signature with
        | none =>
          rw [parseInner_of_malformed_signature hline hblank hbytes] at h
          cases h
        | some bytes =>
          rw [parseInner_eq hline hblank hbytes] at h
          obtain ⟨parsed, hloop, hcookie⟩ := bind_eq_ok h
          obtain ⟨hparsed, hurls, rfl, rfl⟩ := eq_of_cookieOf hcookie
          have hreads := reads_of_foldlM hloop
          rw [hparsed] at hreads
          obtain ⟨servers, hservers, hread⟩ := hreads.servers.exists_last
          obtain ⟨expires, hexpires, hdate⟩ := hreads.expires.exists_last
          refine ⟨payload, signature, header, body, ⟨group, rest, hmatch, hpayload⟩, hline, hblank,
            isSome_hexValue?_of_unhexlify hbytes, hbytes, hreads.colon, hreads.version,
            hreads.serial.exists_last, ⟨expires, hexpires, ?_⟩,
            ⟨servers, hservers, Option.some.inj hread⟩, ?_, hurls⟩
          · cases hresult : formats.parseDate expires with
            | error _ =>
              rw [hresult] at hdate
              cases hdate
            | ok date =>
              rw [hresult] at hdate
              cases hdate
              rfl
          · have hlast := hreads.blaster.last
            rw [Option.bind_fun_some] at hlast
            exact hlast.symm
      · rw [hmalformed] at h
        cases h
    · cases h
  · cases h

/-- Headers with two serial numbers. -/
def doubledHeaders : List (Text × Text) :=
  [(ofString "Version", ofString "1"),
    (ofString "Serial", ofString "6ba7b810-9dad-41d1-80b4-00c04fd430c8"),
    (ofString "Serial", ofString "6ba7b810-9dad-41d1-80b4-00c04fd430c8"),
    (ofString "Expires", ofString "2030-01-01T00:00:00+00:00"), (ofString "Servers", ofString "a")]

/-- The payload with these headers and no scope URL. -/
def doubledPayload : Text := hexlify [0xc0, 0x1d] ++ [newline] ++ scopeData doubledHeaders []

/-- The encoded cookie with these headers. -/
def doubledText : Text :=
  boundaryStart ++ wrapped ((encodeUtf8 doubledPayload).getD []) ++ boundaryEnd

/-- The cookie that is read from it. -/
def doubledCookie : ScopeCookie sampleFormats Unit :=
  ⟨(), (), none, [ofString "a"], [], scopeData doubledHeaders [], [0xc0, 0x1d], rfl⟩

/-- The payload with the repeated header has an encoding. -/
theorem encodeUtf8_doubledPayload : ∃ bytes, encodeUtf8 doubledPayload = some bytes := by
  rw [← Option.isSome_iff_exists, isSome_encodeUtf8_iff]
  have hall : (doubledPayload.all fun point => (character point).isSome) = true := by decide
  exact List.all_eq_true.mp hall

/-- Its headers are lines with keys and values of their own. -/
theorem doubledHeaders_ok : ∀ header ∈ doubledHeaders, HeaderOk header := by
  have hall : doubledHeaders.all (fun header => decide (58 ∉ header.1) &&
      (header.1.all fun c => isLineBreak c = false) && header.2.all fun c => isSpace c = false) =
        true := by decide
  intro header hheader
  have hok := List.all_eq_true.mp hall header hheader
  simp only [Bool.and_eq_true, decide_eq_true_eq, List.all_eq_true] at hok
  exact ⟨hok.1.1, hok.1.2, hok.2⟩

/-- The parts of the payload. -/
theorem doubledPayload_parts :
    FirstCut [newline] doubledPayload (hexlify [0xc0, 0x1d]) (scopeData doubledHeaders []) ∧
      FirstCut [newline, newline] (scopeData doubledHeaders [])
        ([newline].intercalate (doubledHeaders.map headerLine)) [newline] := by
  have hnewline : newline ∉ hexlify [0xc0, 0x1d] := by decide
  have hne : doubledHeaders ≠ [] := List.cons_ne_nil _ _
  refine ⟨cut_eq_some_iff.mp (cut_append hnewline _), cut_eq_some_iff.mp ?_⟩
  exact cut_scopeData hne doubledHeaders_ok []

/-- The loop over its headers keeps the last of the repeated ones. -/
theorem foldlM_doubledHeaders :
    (doubledHeaders.map headerLine).foldlM (parseHeader sampleFormats) ⟨none, none, none, none⟩ =
      .ok ⟨none, some (), some (), some [ofString "a"]⟩ := by
  rw [foldlM_parseHeader sampleFormats doubledHeaders_ok]
  rfl

/-- The cookie with two serial numbers is accepted. -/
theorem parse_doubledText : parse sampleFormats doubledText = .ok doubledCookie := by
  obtain ⟨bytes, hbytes⟩ := encodeUtf8_doubledPayload
  obtain ⟨hline, hblank⟩ := doubledPayload_parts
  have htext : doubledText = boundaryStart ++ wrapped bytes ++ boundaryEnd := by
    rw [doubledText, hbytes, Option.getD_some]
  have hsignature : unhexlify (hexlify [0xc0, 0x1d]) = some [0xc0, 0x1d] := unhexlify_hexlify _
  rw [htext, parse_encoded sampleFormats hbytes, parseInner_eq hline hblank hsignature,
    splitLines_headerLines doubledHeaders_ok, foldlM_doubledHeaders]
  rfl

/-- The text with the repeated header is read, and so it encodes a payload of this grammar. -/
theorem grammar_of_parse_doubledText :
    ∃ payload signature header body, Encodes doubledText payload ∧
      Grammar sampleFormats payload signature header body doubledCookie :=
  grammar_of_parse parse_doubledText

/-- The cookie that was accepted has a header block with two serial numbers, which the grammar with
each header at most once does not allow. -/
theorem doubledText_not_strict :
    parse sampleFormats doubledText = .ok doubledCookie ∧
      ¬∃ payload signature header body, Encodes doubledText payload ∧
        StrictGrammar sampleFormats payload signature header body doubledCookie := by
  refine ⟨parse_doubledText, ?_⟩
  rintro ⟨payload, signature, header, body, _, hstrict⟩
  have honce := hstrict.once "Serial" (by decide)
  have hheader := (FirstCut.unique doubledPayload_parts.2 hstrict.blank).1
  have htwice : (valuesOf "Serial" (doubledHeaders.map headerLine)).length = 2 := by decide
  rw [← hheader, splitLines_headerLines doubledHeaders_ok, htwice] at honce
  exact absurd honce (by decide)

end OpenDiamond.CookieParsing
