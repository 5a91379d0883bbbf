import Mathlib.Data.List.DropRight
import OpenDiamond.Lib.Unicode

/-!
# URLs and their parts

A URL is taken apart into scheme, network location, path, parameters, query and fragment,
put together again, and resolved against a base URL. Which network locations raise
`ValueError` is a parameter. A URL that was resolved against one base stays what it is when
it is resolved against another one.
-/

namespace OpenDiamond.Lib.Urls

open Unicode

/-- `/`. -/
def slash : CodePoint := 47

/-- `:`. -/
def colon : CodePoint := 58

/-- `;`. -/
def semicolon : CodePoint := 59

/-- `?`. -/
def question : CodePoint := 63

/-- `#`. -/
def hash : CodePoint := 35

/-- The scheme of the web. -/
def http : Text := ofString "http"

/-- A decimal digit. -/
def isDigit (c : CodePoint) : Bool := 48 ≤ c.val ∧ c.val ≤ 57

/-- A character of `scheme_chars`. -/
def schemeChar (c : CodePoint) : Bool :=
  isDigit c || (65 ≤ c.val ∧ c.val ≤ 90) || (97 ≤ c.val ∧ c.val ≤ 122) ||
    c.val = 43 || c.val = 45 || c.val = 46

/-- `str.lower` on a character of a scheme. -/
def lower (c : CodePoint) : CodePoint := if 65 ≤ c.val ∧ c.val ≤ 90 then c + 32 else c

/-- A character that ends the network location. -/
def isDelimiter (c : CodePoint) : Bool := c = slash || c = question || c = hash

/-- `uses_relative`. -/
def usesRelative : List Text :=
  ["", "ftp", "http", "gopher", "nntp", "imap", "wais", "file", "https", "shttp", "mms",
    "prospero", "rtsp", "rtspu", "sftp", "svn", "svn+ssh", "ws", "wss"].map ofString

/-- `uses_netloc`. -/
def usesNetloc : List Text :=
  ["", "ftp", "http", "gopher", "nntp", "telnet", "imap", "wais", "file", "mms", "https", "shttp",
    "snews", "prospero", "rtsp", "rtspu", "rsync", "svn", "svn+ssh", "sftp", "nfs", "git",
    "git+ssh", "ws", "wss"].map ofString

/-- `uses_params`. -/
def usesParams : List Text :=
  ["", "ftp", "hdl", "prospero", "http", "imap", "https", "shttp", "rtsp", "rtspu", "sip", "sips",
    "mms", "sftp", "tel"].map ofString

/-- `split(c, 1)`: what stands before the first `c` and what stands behind it. -/
def partition (c : CodePoint) (text : Text) : Text × Text :=
  (text.takeWhile (· ≠ c), (text.dropWhile (· ≠ c)).drop 1)

/-- What stands behind the last slash. -/
def lastPiece (text : Text) : Text := text.rtakeWhile (· ≠ slash)

/-- The parts of a URL. -/
structure Parts where
  scheme : Text
  netloc : Text
  path : Text
  params : Text
  query : Text
  fragment : Text
  deriving DecidableEq

/-- The scheme of a URL, with a default, and the rest: digits after the colon are taken for
a port. -/
def splitScheme (scheme url : Text) : Text × Text :=
  let (front, rest) := partition colon url
  if colon ∉ url ∨ front = [] then (scheme, url)
  else if front = http then (http, rest)
  else if front.all schemeChar && (rest = [] || rest.any fun c => !isDigit c) then
    (front.map lower, rest)
  else (scheme, url)

/-- `_splitnetloc` behind two slashes. -/
def splitNetloc (url : Text) : Text × Text :=
  if url.take 2 = [slash, slash] then
    ((url.drop 2).takeWhile (!isDelimiter ·), (url.drop 2).dropWhile (!isDelimiter ·))
  else ([], url)

/-- `_splitparams`. -/
def splitParams (url : Text) : Text × Text :=
  let (front, params) := partition semicolon (lastPiece url)
  (url.rdropWhile (· ≠ slash) ++ front, params)

section Accepts

variable (accepts : Text → Bool)

/-- `urlparse`, `none` for its `ValueError`. -/
def urlparse (scheme url : Text) : Option Parts :=
  let (scheme, rest) := splitScheme scheme url
  let (netloc, rest) := splitNetloc rest
  let (rest, fragment) := partition hash rest
  let (rest, query) := partition question rest
  let (path, params) := if scheme ∈ usesParams then splitParams rest else (rest, [])
  if accepts netloc then some ⟨scheme, netloc, path, params, query, fragment⟩ else none

/-- A text with a further part, unless the part is empty. -/
def withPart (c : CodePoint) (text part : Text) : Text :=
  if part = [] then text else text ++ c :: part

/-- The path of a URL that has a network location. -/
def rooted (path : Text) : Text :=
  if path ≠ [] ∧ path.head? ≠ some slash then slash :: path else path

/-- `urlunparse`. -/
def urlunparse (parts : Parts) : Text :=
  let url := withPart semicolon parts.path parts.params
  let url :=
    if parts.netloc ≠ [] ∨
        (parts.scheme ≠ [] ∧ parts.scheme ∈ usesNetloc ∧ url.take 2 ≠ [slash, slash]) then
      slash :: slash :: (parts.netloc ++ rooted url)
    else url
  let url := if parts.scheme = [] then url else parts.scheme ++ colon :: url
  withPart hash (withPart question url parts.query) parts.fragment

/-- A list without the empty texts that have neighbours on both sides. -/
def squeeze (segments : List Text) : List Text :=
  segments.take 1 ++ (segments.drop 1).dropLast.filter (· ≠ []) ++
    (segments.drop 1).getLast?.toList

/-- The segments of a path that is resolved against another one. -/
def segments (base path : Text) : List Text :=
  if path.head? = some slash then path.splitOn slash
  else
    let parts := base.splitOn slash
    squeeze ((if parts.getLast? = some [] then parts else parts.dropLast) ++ path.splitOn slash)

/-- The segment of this directory. -/
def dot : Text := ofString "."

/-- The segment of the directory above. -/
def dots : Text := ofString ".."

/-- One segment on the way. -/
def follow (resolved : List Text) (segment : Text) : List Text :=
  if segment = dots then resolved.dropLast
  else if segment = dot then resolved
  else resolved ++ [segment]

/-- The segments without dots. -/
def resolve (segments : List Text) : List Text :=
  let resolved := segments.foldl follow []
  if segments.getLast? = some dot ∨ segments.getLast? = some dots then resolved ++ [[]]
  else resolved

/-- The path that is resolved. -/
def joinPath (base path : Text) : Text :=
  let joined := [slash].intercalate (resolve (segments base path))
  if joined = [] then [slash] else joined

/-- `urljoin`, `none` for a `ValueError`. -/
def urljoin (base url : Text) : Option Text :=
  if base = [] then some url
  else if url = [] then some base
  else do
    let b ← urlparse accepts [] base
    let u ← urlparse accepts b.scheme url
    if u.scheme ≠ b.scheme ∨ u.scheme ∉ usesRelative then some url
    else if u.scheme ∈ usesNetloc ∧ u.netloc ≠ [] then some (urlunparse u)
    else
      let netloc := if u.scheme ∈ usesNetloc then b.netloc else u.netloc
      if u.path = [] ∧ u.params = [] then
        some (urlunparse { u with
          netloc := netloc
          path := b.path
          params := b.params
          query := if u.query = [] then b.query else u.query })
      else some (urlunparse { u with netloc := netloc, path := joinPath b.path u.path })

end Accepts

/-! ## Cutting and joining -/

/-- A text without the separator is its own first part. -/
theorem partition_of_notMem {c : CodePoint} {text : Text} (h : c ∉ text) :
    partition c text = (text, []) := by
  have hall : ∀ d ∈ text, decide (d ≠ c) = true := fun d hd =>
    decide_eq_true fun heq => h (heq ▸ hd)
  have htake : (text ++ []).takeWhile (· ≠ c) = text ++ [] := List.takeWhile_append_of_pos hall
  have hdrop : (text ++ []).dropWhile (· ≠ c) = [] := List.dropWhile_append_of_pos hall
  rw [List.append_nil] at htake hdrop
  rw [partition, htake, hdrop]
  rfl

/-- The first separator is where the text is cut. -/
theorem partition_append {c : CodePoint} {front : Text} (h : c ∉ front) (back : Text) :
    partition c (front ++ c :: back) = (front, back) := by
  have hall : ∀ d ∈ front, decide (d ≠ c) = true := fun d hd =>
    decide_eq_true fun heq => h (heq ▸ hd)
  rw [partition, List.takeWhile_append_of_pos hall, List.dropWhile_append_of_pos hall]
  simp

/-- A text without the symbol is whole, every other one is cut at the first occurrence. -/
theorem partition_cases (c : CodePoint) (text : Text) :
    (c ∉ text ∧ partition c text = (text, [])) ∨
      ∃ front back, c ∉ front ∧ text = front ++ c :: back ∧ partition c text = (front, back) := by
  by_cases h : c ∈ text
  · obtain ⟨front, back, htext, hfront⟩ := List.eq_append_cons_of_mem h
    subst htext
    exact Or.inr ⟨front, back, hfront, rfl, partition_append hfront back⟩
  · exact Or.inl ⟨h, partition_of_notMem h⟩

/-- The first part has no separator. -/
theorem notMem_partition (c : CodePoint) (text : Text) : c ∉ (partition c text).1 := by
  rcases partition_cases c text with ⟨h, heq⟩ | ⟨front, back, h, -, heq⟩
  · rwa [heq]
  · rwa [heq]

/-- The parts have no characters that the text does not have. -/
theorem mem_of_mem_partition {c d : CodePoint} {text : Text}
    (h : d ∈ (partition c text).1 ++ (partition c text).2) : d ∈ text := by
  rcases partition_cases c text with ⟨-, heq⟩ | ⟨front, back, -, rfl, heq⟩
  · simpa [heq] using h
  · rw [heq] at h
    rcases List.mem_append.mp h with h | h
    · exact List.mem_append_left _ h
    · exact List.mem_append_right _ (List.mem_cons_of_mem c h)

/-- The first part begins like the text. -/
theorem head_partition {c d : CodePoint} {text : Text} (h : (partition c text).1.head? = some d) :
    text.head? = some d := by
  rcases partition_cases c text with ⟨-, heq⟩ | ⟨front, back, -, rfl, heq⟩
  · rwa [heq] at h
  · rw [heq] at h
    rw [List.head?_append, h]
    rfl

/-- A part that was put behind a text is cut off again. -/
theorem partition_withPart {c : CodePoint} {text : Text} (h : c ∉ text) (part : Text) :
    partition c (withPart c text part) = (text, part) := by
  rw [withPart]
  split
  · rename_i hpart
    rw [partition_of_notMem h, hpart]
  · exact partition_append h part

/-- Adding a part adds its characters and its separator, and no others. -/
theorem mem_withPart {c d : CodePoint} {text part : Text} (h : d ∈ withPart c text part) :
    d = c ∨ d ∈ text ++ part := by
  rw [withPart] at h
  split at h
  · exact Or.inr (List.mem_append_left part h)
  · simp only [List.mem_append, List.mem_cons] at h ⊢
    tauto

/-- The last piece is what follows a slash that no other one follows. -/
theorem lastPiece_append {last : Text} (h : slash ∉ last) (front : Text) :
    lastPiece (front ++ slash :: last) = last ∧ lastPiece last = last := by
  have hall : ∀ c ∈ last.reverse, decide (c ≠ slash) = true := fun c hc =>
    decide_eq_true fun heq => h (heq ▸ List.mem_reverse.mp hc)
  constructor
  · rw [lastPiece, List.rtakeWhile, List.reverse_append, List.reverse_cons, List.append_assoc,
      List.takeWhile_append_of_pos hall]
    simp
  · rw [lastPiece, List.rtakeWhile_eq_self_iff]
    intro c hc
    exact hall c (List.mem_reverse.mpr hc)

/-- A path is what stands up to its last slash, and its last piece. -/
theorem rdropWhile_append_lastPiece (text : Text) :
    text.rdropWhile (· ≠ slash) ++ lastPiece text = text :=
  List.rdropWhile_append_rtakeWhile ..

/-- The last piece has no slash. -/
theorem slash_notMem_lastPiece (text : Text) : slash ∉ lastPiece text := by
  intro h
  have hne := List.mem_rtakeWhile_imp h
  simp at hne

/-- A text is its last piece, or has a slash in front of it. -/
theorem lastPiece_cases (text : Text) :
    (text = lastPiece text ∧ text.rdropWhile (· ≠ slash) = []) ∨
      ∃ front, text = front ++ slash :: lastPiece text ∧
        text.rdropWhile (· ≠ slash) = front ++ [slash] := by
  have hjoin := rdropWhile_append_lastPiece text
  by_cases hempty : text.rdropWhile (· ≠ slash) = []
  · left
    rw [hempty, List.nil_append] at hjoin
    exact ⟨hjoin.symm, hempty⟩
  · right
    have hslash := List.rdropWhile_last_not (· ≠ slash) text hempty
    have hgetLast : (text.rdropWhile (· ≠ slash)).getLast hempty = slash := by
      simpa using hslash
    have hfront := List.dropLast_append_getLast hempty
    rw [hgetLast] at hfront
    refine ⟨_, ?_, hfront.symm⟩
    rw [← List.singleton_append, ← List.append_assoc, hfront, hjoin]

/-- What precedes the last piece is not touched by what is put behind it. -/
theorem lastPiece_append_of_notMem {part : Text} (h : slash ∉ part) (text : Text) :
    lastPiece (text ++ part) = lastPiece text ++ part ∧
      (text ++ part).rdropWhile (· ≠ slash) = text.rdropWhile (· ≠ slash) := by
  have hlast : slash ∉ lastPiece text ++ part := by
    rw [List.mem_append]
    exact not_or_intro (slash_notMem_lastPiece text) h
  have hpiece : lastPiece (text ++ part) = lastPiece text ++ part := by
    rcases lastPiece_cases text with ⟨htext, -⟩ | ⟨front, htext, -⟩
    · rw [← htext] at hlast ⊢
      exact (lastPiece_append hlast []).2
    · have hpieces := (lastPiece_append hlast front).1
      rwa [← List.cons_append, ← List.append_assoc, ← htext] at hpieces
  refine ⟨hpiece, ?_⟩
  have hjoin := rdropWhile_append_lastPiece (text ++ part)
  rw [hpiece, ← List.append_assoc] at hjoin
  have hfront := List.append_cancel_right hjoin
  exact List.append_cancel_right (hfront.trans (rdropWhile_append_lastPiece text).symm)

/-! ## Parameters -/

/-- The last piece of a path is cut at its first semicolon. -/
theorem splitParams_spec (url : Text) :
    ∃ path params, splitParams url = (path, params) ∧ slash ∉ params ∧
      semicolon ∉ lastPiece path ∧
      ((url = path ∧ params = []) ∨ url = path ++ semicolon :: params) := by
  have hjoin := rdropWhile_append_lastPiece url
  have hlast := slash_notMem_lastPiece url
  have hpath : ∀ front, slash ∉ front →
      lastPiece (url.rdropWhile (· ≠ slash) ++ front) = front := by
    intro front hfront
    rcases lastPiece_cases url with ⟨-, hempty⟩ | ⟨before, -, hbefore⟩
    · rw [hempty]
      exact (lastPiece_append hfront []).2
    · rw [hbefore, List.append_assoc]
      exact (lastPiece_append hfront before).1
  rw [splitParams]
  rcases partition_cases semicolon (lastPiece url) with
    ⟨hno, heq⟩ | ⟨front, params, hno, hpiece, heq⟩
  · refine ⟨_, _, by rw [heq], List.not_mem_nil, ?_, Or.inl ⟨hjoin.symm, rfl⟩⟩
    rwa [hpath _ hlast]
  · rw [hpiece] at hlast hjoin
    have hfront : slash ∉ front := fun h => hlast (List.mem_append_left _ h)
    have hparams : slash ∉ params := fun h =>
      hlast (List.mem_append_right _ (List.mem_cons_of_mem _ h))
    refine ⟨_, _, by rw [heq], hparams, ?_, Or.inr ?_⟩
    · rwa [hpath front hfront]
    · rw [List.append_assoc]
      exact hjoin.symm

/-- Parameters that were added to a last piece without a semicolon are split off again, and nothing
else is. -/
theorem splitParams_withPart {path params : Text} (hlast : semicolon ∉ lastPiece path)
    (hparams : slash ∉ params) : splitParams (withPart semicolon path params) = (path, params) := by
  have hjoin := rdropWhile_append_lastPiece path
  rw [withPart]
  split
  · rename_i hempty
    rw [splitParams, partition_of_notMem hlast, hempty]
    exact congrArg (·, []) hjoin
  · have hpart : slash ∉ semicolon :: params := by
      rw [List.mem_cons]
      exact not_or_intro (by decide) hparams
    obtain ⟨hpiece, hfront⟩ := lastPiece_append_of_notMem hpart path
    rw [splitParams, hpiece, hfront, partition_append hlast]
    exact congrArg (·, params) hjoin

/-! ## The parts of a URL -/

section Parsing

variable {accepts : Text → Bool}

/-- What the parts of every URL obey. -/
structure Tidy (accepts : Text → Bool) (parts : Parts) : Prop where
  /-- The network location raises no exception. -/
  accepted : accepts parts.netloc = true
  /-- It has no delimiters. -/
  host : ∀ c ∈ parts.netloc, isDelimiter c = false
  /-- The path ends before the query and the fragment. -/
  path : question ∉ parts.path ∧ hash ∉ parts.path
  /-- Its last piece ends before the parameters. -/
  last : semicolon ∉ lastPiece parts.path
  /-- The parameters are part of one piece. -/
  params : slash ∉ parts.params ∧ question ∉ parts.params ∧ hash ∉ parts.params
  /-- The query ends before the fragment. -/
  query : hash ∉ parts.query

/-- The path begins with a slash, unless nothing is there. -/
def Grounded (parts : Parts) : Prop :=
  parts.path.head? = some slash ∨ (parts.path = [] ∧ parts.params = [])

/-- The symbols of all parts but the scheme. -/
def Parts.symbols (parts : Parts) : Text :=
  parts.netloc ++ (parts.path ++ parts.params ++ parts.query ++ parts.fragment)

/-- The characters of a URL's parts are those of the parts behind its scheme. -/
theorem Parts.mem_symbols {parts : Parts} {c : CodePoint} :
    c ∈ parts.symbols ↔ c ∈ parts.netloc ∨ c ∈ parts.path ∨ c ∈ parts.params ∨
      c ∈ parts.query ∨ c ∈ parts.fragment := by
  simp only [symbols, List.mem_append, or_assoc]

/-- Splitting the scheme off adds no characters. -/
theorem mem_of_mem_splitScheme {scheme url : Text} {c : CodePoint}
    (h : c ∈ (splitScheme scheme url).2) : c ∈ url := by
  rw [splitScheme] at h
  dsimp only at h
  split at h
  · exact h
  · split at h
    · exact mem_of_mem_partition (List.mem_append_right _ h)
    · split at h
      · exact mem_of_mem_partition (List.mem_append_right _ h)
      · exact h

/-- The network location ends before a delimiter. -/
theorem splitNetloc_spec (url : Text) :
    (∀ c ∈ (splitNetloc url).1, isDelimiter c = false) ∧
      ((splitNetloc url).1 ≠ [] →
        ∀ c, (splitNetloc url).2.head? = some c → isDelimiter c = true) ∧
      ∀ c ∈ (splitNetloc url).1 ++ (splitNetloc url).2, c ∈ url := by
  rw [splitNetloc]
  split
  · refine ⟨fun c hc => ?_, fun _ c hc => ?_, fun c hc => ?_⟩
    · simpa using List.mem_takeWhile_imp hc
    · have hhead := List.head?_dropWhile_not (fun c => !isDelimiter c) (url.drop 2)
      rw [hc] at hhead
      simpa using hhead
    · rw [List.takeWhile_append_dropWhile] at hc
      exact List.mem_of_mem_drop hc
  · refine ⟨fun c hc => absurd hc List.not_mem_nil, fun hne => absurd rfl hne, fun c hc => hc⟩

/-- What stands behind the network location is cut at the first `#`, and before it at the
first `?`. -/
theorem partition_tail (rest : Text) :
    ∃ before fragment body query, partition hash rest = (before, fragment) ∧
      partition question before = (body, query) ∧ question ∉ body ∧
      (∀ c ∈ body ++ query, c ≠ hash) ∧
      (∀ c, body.head? = some c → rest.head? = some c) ∧
      ∀ c, c ∈ body ∨ c ∈ query ∨ c ∈ fragment → c ∈ rest := by
  have hhash := notMem_partition hash rest
  have hrest : ∀ c ∈ (partition hash rest).1 ++ (partition hash rest).2, c ∈ rest :=
    fun c => mem_of_mem_partition
  have hfirst : ∀ c, (partition hash rest).1.head? = some c → rest.head? = some c :=
    fun c => head_partition
  generalize partition hash rest = tail at hhash hrest hfirst
  have hquestion := notMem_partition question tail.1
  have htail : ∀ c ∈ (partition question tail.1).1 ++ (partition question tail.1).2, c ∈ tail.1 :=
    fun c => mem_of_mem_partition
  refine ⟨tail.1, tail.2, _, _, rfl, rfl, hquestion, fun c hc heq => ?_, fun c hc => ?_,
    fun c hc => ?_⟩
  · exact hhash (heq ▸ htail c hc)
  · exact hfirst c (head_partition hc)
  · apply hrest
    rw [List.mem_append]
    rcases hc with hc | hc | hc
    · exact Or.inl (htail c (List.mem_append_left _ hc))
    · exact Or.inl (htail c (List.mem_append_right _ hc))
    · exact Or.inr hc

/-- When the path and the parameters begin with a slash, if at all, so does the path. -/
theorem grounded_of_head {body path params : Text}
    (hbody : (body = path ∧ params = []) ∨ body = path ++ semicolon :: params)
    (hhead : ∀ c, body.head? = some c → c = slash) :
    path.head? = some slash ∨ (path = [] ∧ params = []) := by
  cases path with
  | cons c rest =>
    refine Or.inl (congrArg some (hhead c ?_))
    rcases hbody with ⟨heq, -⟩ | heq <;> rw [heq] <;> rfl
  | nil =>
    rcases hbody with ⟨-, hempty⟩ | heq
    · exact Or.inr ⟨rfl, hempty⟩
    · have hbad : semicolon = slash := hhead semicolon (by rw [heq]; rfl)
      exact absurd hbad (by decide)

/-- The parts of a URL, where the scheme is one that has parameters. -/
theorem urlparse_spec {scheme url : Text} {parts : Parts}
    (h : urlparse accepts scheme url = some parts) (hparams : parts.scheme ∈ usesParams) :
    Tidy accepts parts ∧ (parts.netloc ≠ [] → Grounded parts) ∧
      ∀ c ∈ parts.symbols, c ∈ url := by
  rw [urlparse] at h
  dsimp only at h
  have hurl : ∀ c ∈ (splitScheme scheme url).2, c ∈ url := fun c => mem_of_mem_splitScheme
  generalize splitScheme scheme url = whole at h hurl
  obtain ⟨hhost, hdelimiter, hwhole⟩ := splitNetloc_spec whole.2
  generalize splitNetloc whole.2 = place at h hhost hdelimiter hwhole
  obtain ⟨before, fragment, body, query, hbefore, hcut, hquestion, hhash, hfirst, hplace⟩ :=
    partition_tail place.2
  obtain ⟨path, params, hsplit, hslash, hlast, hbody⟩ := splitParams_spec body
  rw [hbefore] at h
  dsimp only at h
  rw [hcut] at h
  dsimp only at h
  rw [Option.ite_none_right_eq_some, Option.some.injEq] at h
  obtain ⟨haccepts, rfl⟩ := h
  rw [if_pos hparams, hsplit]
  have hroute : ∀ c, c ∈ path ∨ c ∈ params → c ∈ body := by
    intro c hc
    rcases hbody with ⟨heq, hempty⟩ | heq
    · rw [hempty] at hc
      rw [heq]
      exact hc.resolve_right List.not_mem_nil
    · rw [heq, List.mem_append, List.mem_cons]
      exact hc.imp_right Or.inr
  have hclean : ∀ c, c ∈ path ∨ c ∈ params → c ≠ question ∧ c ≠ hash := by
    intro c hc
    refine ⟨fun heq => hquestion (heq ▸ hroute c hc), ?_⟩
    exact hhash c (List.mem_append_left _ (hroute c hc))
  refine ⟨⟨haccepts, hhost, ?_, hlast, ?_, ?_⟩, fun hnetloc => ?_, fun c hc => ?_⟩
  · exact ⟨fun hmem => (hclean _ (Or.inl hmem)).1 rfl, fun hmem => (hclean _ (Or.inl hmem)).2 rfl⟩
  · exact ⟨hslash, fun hmem => (hclean _ (Or.inr hmem)).1 rfl,
      fun hmem => (hclean _ (Or.inr hmem)).2 rfl⟩
  · exact fun hmem => hhash _ (List.mem_append_right _ hmem) rfl
  · -- the first symbol behind the network location is a slash
    refine grounded_of_head hbody fun c hc => ?_
    have hmem : c ∈ body := List.mem_of_mem_head? hc
    have hdelim := hdelimiter hnetloc c (hfirst c hc)
    have hnotHash := hhash c (List.mem_append_left _ hmem)
    have hnotQuestion : c ≠ question := fun heq => hquestion (heq ▸ hmem)
    simpa [isDelimiter, hnotHash, hnotQuestion] using hdelim
  · apply hurl
    apply hwhole
    rw [List.mem_append]
    rcases Parts.mem_symbols.mp hc with hnetloc | hpath | hparam | hquery | hfragment
    · exact Or.inl hnetloc
    · exact Or.inr (hplace c (Or.inl (hroute c (Or.inl hpath))))
    · exact Or.inr (hplace c (Or.inl (hroute c (Or.inr hparam))))
    · exact Or.inr (hplace c (Or.inr (Or.inl hquery)))
    · exact Or.inr (hplace c (Or.inr (Or.inr hfragment)))

/-! ## Absolute URLs -/

/-- The parts of an absolute URL of the web. -/
structure Absolute (accepts : Text → Bool) (parts : Parts) : Prop extends Tidy accepts parts where
  /-- The scheme. -/
  scheme : parts.scheme = http
  /-- There is a network location. -/
  netloc : parts.netloc ≠ []
  /-- The path begins with a slash, unless nothing is there. -/
  grounded : Grounded parts

/-- What stands behind the network location. -/
def Parts.tail (parts : Parts) : Text :=
  withPart hash (withPart question (withPart semicolon parts.path parts.params) parts.query)
    parts.fragment

/-- A part is added at the end, so that it does not matter what stands in front. -/
theorem withPart_append (c : CodePoint) (front text part : Text) :
    withPart c (front ++ text) part = front ++ withPart c text part := by
  rw [withPart, withPart]
  split
  · rfl
  · rw [List.append_assoc]

/-- With a part a text begins as before, or with the separator if it was empty. -/
theorem head_withPart {c d : CodePoint} {text part : Text}
    (h : (withPart c text part).head? = some d) : text.head? = some d ∨ (text = [] ∧ d = c) := by
  rw [withPart] at h
  split at h
  · exact Or.inl h
  · cases text with
    | nil =>
      rw [List.nil_append, List.head?_cons, Option.some.injEq] at h
      exact Or.inr ⟨rfl, h.symm⟩
    | cons e text => exact Or.inl h

/-- The path and the parameters begin with a slash. -/
theorem Absolute.head_route {parts : Parts} (h : Absolute accepts parts) {c : CodePoint}
    (hc : (withPart semicolon parts.path parts.params).head? = some c) : c = slash := by
  rcases h.grounded with hpath | ⟨hpath, hparams⟩
  · rcases head_withPart hc with hhead | ⟨hempty, -⟩
    · exact Option.some.inj (hhead.symm.trans hpath)
    · rw [hempty] at hpath
      cases hpath
  · rw [hpath, hparams] at hc
    cases hc

/-- What follows the host of an absolute URL begins with a delimiter. -/
theorem Absolute.head_tail {parts : Parts} (h : Absolute accepts parts) {c : CodePoint}
    (hc : parts.tail.head? = some c) : isDelimiter c = true := by
  rcases head_withPart hc with hc | ⟨-, rfl⟩
  · rcases head_withPart hc with hc | ⟨-, rfl⟩
    · rw [h.head_route hc]
      rfl
    · rfl
  · rfl

/-- An absolute URL is put together from its scheme, its host and what follows. -/
theorem Absolute.urlunparse_eq {parts : Parts} (h : Absolute accepts parts) :
    urlunparse parts = http ++ colon :: slash :: slash :: (parts.netloc ++ parts.tail) := by
  have hscheme : parts.scheme ≠ [] := by
    rw [h.scheme]
    decide
  have hrooted : rooted (withPart semicolon parts.path parts.params) =
      withPart semicolon parts.path parts.params := by
    rw [rooted, if_neg]
    rintro ⟨hne, hhead⟩
    obtain ⟨c, rest, hcons⟩ := List.exists_cons_of_ne_nil hne
    have hc : (withPart semicolon parts.path parts.params).head? = some c := by rw [hcons]; rfl
    rw [hc, h.head_route hc] at hhead
    exact hhead rfl
  have hfront : http ++ colon :: slash :: slash ::
      (parts.netloc ++ withPart semicolon parts.path parts.params) =
        (http ++ [colon, slash, slash] ++ parts.netloc) ++
          withPart semicolon parts.path parts.params := by
    simp
  rw [urlunparse, if_neg hscheme, if_pos (Or.inl h.netloc), hrooted, h.scheme, hfront, withPart_append,
    withPart_append, Parts.tail]
  simp

/-- The parts of an absolute URL are found again. -/
theorem urlparse_urlunparse {parts : Parts} (h : Absolute accepts parts) (scheme : Text) :
    urlparse accepts scheme (urlunparse parts) = some parts := by
  have hscheme : splitScheme scheme (urlunparse parts) =
      (http, slash :: slash :: (parts.netloc ++ parts.tail)) := by
    have hcolon : colon ∉ http := by decide
    have hne : http ≠ [] := by decide
    rw [h.urlunparse_eq, splitScheme, partition_append hcolon]
    simp [hne]
  have hhost : ∀ c ∈ parts.netloc, (!isDelimiter c) = true := fun c hc => by
    rw [h.host c hc]
    rfl
  have hstop : parts.tail.takeWhile (!isDelimiter ·) = [] ∧
      parts.tail.dropWhile (!isDelimiter ·) = parts.tail := by
    cases htail : parts.tail with
    | nil => exact ⟨rfl, rfl⟩
    | cons c rest =>
      have hc : isDelimiter c = true := h.head_tail (by rw [htail]; rfl)
      simp [hc]
  have hnetloc : splitNetloc (slash :: slash :: (parts.netloc ++ parts.tail)) =
      (parts.netloc, parts.tail) := by
    have htwo : (slash :: slash :: (parts.netloc ++ parts.tail)).take 2 = [slash, slash] := rfl
    rw [splitNetloc, if_pos htwo]
    show ((parts.netloc ++ parts.tail).takeWhile _, (parts.netloc ++ parts.tail).dropWhile _) = _
    rw [List.takeWhile_append_of_pos hhost, List.dropWhile_append_of_pos hhost, hstop.1, hstop.2,
      List.append_nil]
  have hroute : ∀ {c : CodePoint}, c ≠ semicolon → c ∉ parts.path → c ∉ parts.params →
      c ∉ withPart semicolon parts.path parts.params := by
    intro c hc hpath hparams hmem
    rcases mem_withPart hmem with heq | hmem
    · exact hc heq
    · exact (List.mem_append.mp hmem).elim hpath hparams
  have hquestion := hroute (by decide) h.path.1 h.params.2.1
  have hhash : hash ∉ withPart question (withPart semicolon parts.path parts.params)
      parts.query := by
    intro hmem
    rcases mem_withPart hmem with heq | hmem
    · exact absurd heq (by decide)
    · exact (List.mem_append.mp hmem).elim (hroute (by decide) h.path.2 h.params.2.2) h.query
  have hparams : http ∈ usesParams := by decide
  rw [urlparse, hscheme]
  dsimp only
  rw [hnetloc]
  dsimp only
  rw [Parts.tail, partition_withPart hhash]
  dsimp only
  rw [partition_withPart hquestion, if_pos hparams]
  dsimp only
  rw [splitParams_withPart h.last h.params.1, if_pos h.accepted, ← h.scheme]

/-! ## Paths -/

/-- Only what stands behind the last slash counts for the last piece. -/
theorem lastPiece_slash (front text : Text) : lastPiece (front ++ slash :: text) = lastPiece text := by
  have hlast := slash_notMem_lastPiece text
  rcases lastPiece_cases text with ⟨htext, -⟩ | ⟨before, htext, -⟩
  · rw [htext]
    rw [(lastPiece_append hlast front).1, (lastPiece_append hlast []).2]
  · have hjoin : front ++ slash :: text = (front ++ slash :: before) ++ slash :: lastPiece text := by
      rw [List.append_assoc, List.cons_append, ← htext]
    rw [hjoin]
    exact (lastPiece_append hlast _).1

/-- The last piece of joined parts. -/
theorem lastPiece_intercalate (front : List Text) (last : Text) :
    lastPiece ([slash].intercalate (front ++ [last])) = lastPiece last := by
  induction front with
  | nil => rw [List.nil_append, List.intercalate_singleton]
  | cons part front ih =>
    have hne : front ++ [last] ≠ [] := by simp
    rw [List.cons_append, List.intercalate_cons_of_ne_nil hne, List.append_assoc,
      List.singleton_append, lastPiece_slash, ih]

/-- A joined path has the characters of its segments, and slashes. -/
theorem mem_intercalate {parts : List Text} {c : CodePoint}
    (h : c ∈ [slash].intercalate parts) : c = slash ∨ ∃ part ∈ parts, c ∈ part := by
  induction parts with
  | nil => cases h
  | cons part rest ih =>
    cases rest with
    | nil =>
      rw [List.intercalate_singleton] at h
      exact Or.inr ⟨part, List.mem_singleton_self part, h⟩
    | cons next rest =>
      rw [List.intercalate_cons_cons, List.append_assoc, List.mem_append, List.mem_append,
        List.mem_singleton] at h
      rcases h with h | h | h
      · exact Or.inr ⟨part, List.mem_cons_self, h⟩
      · exact Or.inl h
      · obtain hslash | ⟨other, hother, hc⟩ := ih h
        · exact Or.inl hslash
        · exact Or.inr ⟨other, List.mem_cons_of_mem part hother, hc⟩

/-- Every character of a segment is in the joined path. -/
theorem mem_intercalate_of_mem {parts : List Text} {part : Text} {c : CodePoint}
    (h : part ∈ parts) (hc : c ∈ part) : c ∈ [slash].intercalate parts := by
  induction parts with
  | nil => cases h
  | cons first rest ih =>
    cases rest with
    | nil =>
      rw [List.mem_singleton] at h
      rwa [List.intercalate_singleton, ← h]
    | cons next rest =>
      rw [List.intercalate_cons_cons, List.mem_append]
      rcases List.mem_cons.mp h with rfl | h
      · exact Or.inl (List.mem_append_left _ hc)
      · exact Or.inr (ih h)

/-- The segments of a path have no characters that the path does not have. -/
theorem mem_of_mem_splitOn {text part : Text} (h : part ∈ text.splitOn slash) {c : CodePoint}
    (hc : c ∈ part) : c ∈ text := by
  have hjoin : [slash].intercalate (text.splitOn slash) = text := List.intercalate_splitOn slash
  rw [← hjoin]
  exact mem_intercalate_of_mem h hc

/-- The pieces of a path. -/
theorem splitOn_spec (text : Text) :
    ∃ front, text.splitOn slash = front ++ [lastPiece text] ∧
      ∀ part ∈ front, ∀ c ∈ part, c ∈ text := by
  have hsplit : ∃ front, text.splitOn slash = front ++ [lastPiece text] := by
    have hlast := List.splitOn_eq_singleton (slash_notMem_lastPiece text)
    rcases lastPiece_cases text with ⟨htext, -⟩ | ⟨before, htext, -⟩
    · refine ⟨[], ?_⟩
      rw [← htext] at hlast ⊢
      exact hlast
    · refine ⟨before.splitOn slash, ?_⟩
      nth_rewrite 1 [htext]
      rw [List.splitOn_append_cons_self, hlast]
  obtain ⟨front, hfront⟩ := hsplit
  refine ⟨front, hfront, fun part hpart c hc => ?_⟩
  have hmem : part ∈ text.splitOn slash := by
    rw [hfront]
    exact List.mem_append_left _ hpart
  exact mem_of_mem_splitOn hmem hc

/-- Leaving out empty segments in the middle keeps the last one, and adds none. -/
theorem squeeze_concat (front : List Text) (last : Text) :
    ∃ kept, squeeze (front ++ [last]) = kept ++ [last] ∧ ∀ part ∈ kept, part ∈ front := by
  cases front with
  | nil => exact ⟨[], rfl, fun _ h => h⟩
  | cons part front =>
    refine ⟨part :: front.filter (· ≠ []), ?_, ?_⟩
    · simp [squeeze]
    · intro other hother
      rcases List.mem_cons.mp hother with rfl | hother
      · exact List.mem_cons_self
      · exact List.mem_cons_of_mem part (List.mem_of_mem_filter hother)

/-- The last segment is that of the path, the others come from both paths. -/
theorem segments_spec (base path : Text) :
    ∃ front, segments base path = front ++ [lastPiece path] ∧
      ∀ part ∈ front, ∀ c ∈ part, c ∈ base ∨ c ∈ path := by
  obtain ⟨pieces, hpieces, hpath⟩ := splitOn_spec path
  rw [segments]
  split
  · exact ⟨pieces, hpieces, fun part hpart c hc => Or.inr (hpath part hpart c hc)⟩
  · dsimp only
    have hparts : ∀ part ∈ (if (base.splitOn slash).getLast? = some [] then base.splitOn slash
        else (base.splitOn slash).dropLast), part ∈ base.splitOn slash := by
      intro part hpart
      split at hpart
      · exact hpart
      · exact List.dropLast_subset _ hpart
    rw [hpieces, ← List.append_assoc]
    obtain ⟨kept, hkept, hmem⟩ := squeeze_concat ((if (base.splitOn slash).getLast? = some [] then
      base.splitOn slash else (base.splitOn slash).dropLast) ++ pieces) (lastPiece path)
    refine ⟨kept, hkept, fun part hpart c hc => ?_⟩
    rcases List.mem_append.mp (hmem part hpart) with hpart | hpart
    · exact Or.inl (mem_of_mem_splitOn (hparts part hpart) hc)
    · exact Or.inr (hpath part hpart c hc)

/-- Following a path only keeps or takes its segments, and never makes new ones. -/
theorem mem_foldl_follow {parts : List Text} {resolved : List Text} {part : Text}
    (h : part ∈ parts.foldl follow resolved) : part ∈ resolved ∨ part ∈ parts := by
  induction parts generalizing resolved with
  | nil => exact Or.inl h
  | cons first rest ih =>
    rcases ih h with h | h
    · rw [follow] at h
      split at h
      · exact Or.inl (List.dropLast_subset _ h)
      · split at h
        · exact Or.inl h
        · rcases List.mem_append.mp h with h | h
          · exact Or.inl h
          · exact Or.inr (List.mem_cons.mpr (Or.inl (List.mem_singleton.mp h)))
    · exact Or.inr (List.mem_cons_of_mem first h)

/-- The last segment stays the last one, unless it is made of dots. -/
theorem resolve_spec (front : List Text) (last : Text) :
    ∃ before final, resolve (front ++ [last]) = before ++ [final] ∧
      (final = [] ∨ final = last) ∧ ∀ part ∈ before, part ∈ front := by
  have hmem : ∀ part ∈ front.foldl follow [], part ∈ front := fun part hpart =>
    (mem_foldl_follow hpart).resolve_left List.not_mem_nil
  rw [resolve, List.foldl_append, List.getLast?_concat, List.foldl_cons, List.foldl_nil, follow]
  by_cases hdots : last = dots
  · rw [if_pos hdots, hdots, if_pos (Or.inr rfl)]
    exact ⟨_, _, rfl, Or.inl rfl, fun part hpart => hmem part (List.dropLast_subset _ hpart)⟩
  · rw [if_neg hdots]
    by_cases hdot : last = dot
    · rw [if_pos hdot, hdot, if_pos (Or.inl rfl)]
      exact ⟨_, _, rfl, Or.inl rfl, hmem⟩
    · rw [if_neg hdot, if_neg]
      · exact ⟨_, _, rfl, Or.inr rfl, hmem⟩
      · rw [Option.some.injEq, Option.some.injEq]
        exact not_or_intro hdot hdots

/-- The path that two paths are joined to. -/
theorem joinPath_spec (base path : Text) :
    joinPath base path ≠ [] ∧
      (lastPiece (joinPath base path) = [] ∨
        lastPiece (joinPath base path) = lastPiece path) ∧
      ∀ c ∈ joinPath base path, c = slash ∨ c ∈ base ∨ c ∈ path := by
  obtain ⟨front, hsegments, hfront⟩ := segments_spec base path
  obtain ⟨before, final, hresolve, hfinal, hbefore⟩ := resolve_spec front (lastPiece path)
  have hpath : ∀ c ∈ lastPiece path, c ∈ path := fun c hc =>
    (List.rtakeWhile_suffix _ path).subset hc
  rw [joinPath, hsegments, hresolve]
  split
  · refine ⟨List.cons_ne_nil _ _, Or.inl rfl, fun c hc => Or.inl (List.mem_singleton.mp hc)⟩
  · rename_i hne
    refine ⟨hne, ?_, fun c hc => ?_⟩
    · rw [lastPiece_intercalate]
      rcases hfinal with rfl | rfl
      · exact Or.inl rfl
      · exact Or.inr (lastPiece_append (slash_notMem_lastPiece path) []).2
    · rcases mem_intercalate hc with hslash | ⟨part, hpart, hc⟩
      · exact Or.inl hslash
      · right
        rcases List.mem_append.mp hpart with hpart | hpart
        · exact hfront part (hbefore part hpart) c hc
        · rw [List.mem_singleton.mp hpart] at hc
          rcases hfinal with rfl | rfl
          · cases hc
          · exact Or.inr (hpath c hc)

/-! ## Resolved URLs -/

/-- A URL of the web with a network location. -/
def Web (accepts : Text → Bool) (url : Text) : Prop :=
  ∃ parts, urlparse accepts [] url = some parts ∧ parts.scheme = http ∧ parts.netloc ≠ []

/-- Parameters are added to a path after a slash was put in front of it, or before, with one
result. -/
theorem rooted_withPart {path : Text} (hpath : path ≠ []) (params : Text) :
    rooted (withPart semicolon (rooted path) params) = rooted (withPart semicolon path params) := by
  obtain ⟨c, rest, rfl⟩ := List.exists_cons_of_ne_nil hpath
  by_cases hc : c = slash
  · simp [rooted, hc]
  · by_cases hparams : params = [] <;> simp [rooted, withPart, hc, hparams]

/-- Behind a network location every path begins with a slash. -/
theorem urlunparse_rooted {parts rootedParts : Parts} (hnetloc : parts.netloc ≠ [])
    (hpath : parts.path ≠ []) (hrooted : rootedParts = { parts with path := rooted parts.path }) :
    urlunparse rootedParts = urlunparse parts := by
  subst hrooted
  rw [urlunparse, urlunparse, if_pos (Or.inl hnetloc), if_pos (Or.inl hnetloc),
    rooted_withPart hpath]

/-- A path with a slash put in front begins with it, ends as before, and has no other new
character. -/
theorem rooted_spec {path : Text} (hpath : path ≠ []) :
    (rooted path).head? = some slash ∧ lastPiece (rooted path) = lastPiece path ∧
      ∀ c ∈ rooted path, c = slash ∨ c ∈ path := by
  rw [rooted]
  split
  · exact ⟨rfl, lastPiece_slash [] path, fun c hc => List.mem_cons.mp hc⟩
  · rename_i h
    have hhead : path.head? = some slash := by
      by_contra hno
      exact h ⟨hpath, hno⟩
    exact ⟨hhead, rfl, fun c hc => Or.inr hc⟩

/-- The parts of a URL without a path of its own. -/
theorem absolute_basePath {b u : Parts} (hb : Absolute accepts b) (hu : Tidy accepts u)
    (hscheme : u.scheme = http) {parts : Parts}
    (hparts : parts = { u with
      netloc := b.netloc
      path := b.path
      params := b.params
      query := if u.query = [] then b.query else u.query }) :
    Absolute accepts parts ∧ ∀ c ∈ parts.symbols, c = slash ∨ c ∈ b.symbols ∨ c ∈ u.symbols := by
  subst hparts
  have hquery : ∀ c ∈ (if u.query = [] then b.query else u.query), c ∈ b.query ∨ c ∈ u.query := by
    intro c hc
    split at hc
    · exact Or.inl hc
    · exact Or.inr hc
  constructor
  · exact ⟨⟨hb.accepted, hb.host, hb.path, hb.last, hb.params,
      fun hmem => (hquery hash hmem).elim hb.query hu.query⟩, hscheme, hb.netloc, hb.grounded⟩
  · intro c hc
    right
    rw [Parts.mem_symbols, Parts.mem_symbols]
    rcases Parts.mem_symbols.mp hc with hc | hc | hc | hc | hc
    · exact Or.inl (Or.inl hc)
    · exact Or.inl (Or.inr (Or.inl hc))
    · exact Or.inl (Or.inr (Or.inr (Or.inl hc)))
    · rcases hquery c hc with hc | hc
      · exact Or.inl (Or.inr (Or.inr (Or.inr (Or.inl hc))))
      · exact Or.inr (Or.inr (Or.inr (Or.inr (Or.inl hc))))
    · exact Or.inr (Or.inr (Or.inr (Or.inr (Or.inr hc))))

/-- The parts of a URL whose path was resolved against another one. -/
theorem absolute_joinPath {b u : Parts} (hb : Absolute accepts b) (hu : Tidy accepts u)
    (hscheme : u.scheme = http) {parts : Parts}
    (hparts : parts =
      { u with netloc := b.netloc, path := rooted (joinPath b.path u.path) }) :
    Absolute accepts parts ∧ ∀ c ∈ parts.symbols, c = slash ∨ c ∈ b.symbols ∨ c ∈ u.symbols := by
  subst hparts
  obtain ⟨hne, hpiece, hmem⟩ := joinPath_spec b.path u.path
  obtain ⟨hhead, hlast, hrooted⟩ := rooted_spec hne
  have hall : ∀ c ∈ rooted (joinPath b.path u.path), c = slash ∨ c ∈ b.path ∨ c ∈ u.path :=
    fun c hc => (hrooted c hc).elim Or.inl (hmem c)
  constructor
  · refine ⟨⟨hb.accepted, hb.host, ⟨fun hin => ?_, fun hin => ?_⟩, ?_, hu.params, hu.query⟩,
      hscheme, hb.netloc, Or.inl hhead⟩
    · rcases hall question hin with heq | hpath | hpath
      · exact absurd heq (by decide)
      · exact hb.path.1 hpath
      · exact hu.path.1 hpath
    · rcases hall hash hin with heq | hpath | hpath
      · exact absurd heq (by decide)
      · exact hb.path.2 hpath
      · exact hu.path.2 hpath
    · show semicolon ∉ lastPiece (rooted (joinPath b.path u.path))
      rw [hlast]
      rcases hpiece with hpiece | hpiece
      · rw [hpiece]
        exact List.not_mem_nil
      · rw [hpiece]
        exact hu.last
  · intro c hc
    rw [Parts.mem_symbols, Parts.mem_symbols]
    rcases Parts.mem_symbols.mp hc with hc | hc | hc
    · exact Or.inr (Or.inl (Or.inl hc))
    · rcases hall c hc with hslash | hc | hc
      · exact Or.inl hslash
      · exact Or.inr (Or.inl (Or.inr (Or.inl hc)))
      · exact Or.inr (Or.inr (Or.inr (Or.inl hc)))
    · exact Or.inr (Or.inr (Or.inr (Or.inr hc)))

/-- A URL of the web is not empty. -/
theorem Web.ne_nil {url : Text} (h : Web accepts url) : url ≠ [] := by
  obtain ⟨parts, hparts, hscheme, hnetloc⟩ := h
  have hparams : parts.scheme ∈ usesParams := by
    rw [hscheme]
    decide
  obtain ⟨c, rest, hcons⟩ := List.exists_cons_of_ne_nil hnetloc
  have hc : c ∈ parts.symbols := by
    rw [Parts.symbols, hcons]
    exact List.mem_cons_self
  exact List.ne_nil_of_mem ((urlparse_spec hparts hparams).2.2 c hc)

/-- A URL with a host that is read under `http` is absolute, and its parts come from it. -/
theorem absolute_of_urlparse {scheme url : Text} {parts : Parts}
    (h : urlparse accepts scheme url = some parts) (hscheme : parts.scheme = http)
    (hnetloc : parts.netloc ≠ []) :
    Absolute accepts parts ∧ ∀ c ∈ parts.symbols, c ∈ url := by
  have hparams : parts.scheme ∈ usesParams := by
    rw [hscheme]
    decide
  obtain ⟨htidy, hgrounded, hmem⟩ := urlparse_spec h hparams
  exact ⟨⟨htidy, hscheme, hnetloc, hgrounded hnetloc⟩, hmem⟩

/-- `urljoin` against a URL of the web. -/
theorem urljoin_eq {base url : Text} {b : Parts} (hb : urlparse accepts [] base = some b)
    (hscheme : b.scheme = http) (hbase : base ≠ []) (hurl : url ≠ []) :
    urljoin accepts base url = (urlparse accepts http url).map fun u =>
      if u.scheme ≠ http then url
      else if u.netloc ≠ [] then urlunparse u
      else if u.path = [] ∧ u.params = [] then
        urlunparse { u with
          netloc := b.netloc
          path := b.path
          params := b.params
          query := if u.query = [] then b.query else u.query }
      else urlunparse { u with netloc := b.netloc, path := joinPath b.path u.path } := by
  have hrelative : http ∈ usesRelative := by decide
  have hnetloc : http ∈ usesNetloc := by decide
  rw [urljoin, if_neg hbase, if_neg hurl, hb, ← hscheme]
  simp only [Option.bind_eq_bind, Option.bind_some]
  rw [hscheme]
  cases urlparse accepts http url with
  | none => rfl
  | some u =>
    rw [Option.bind_some, Option.map_some]
    by_cases hu : u.scheme = http
    · have hno : ¬(u.scheme ≠ http ∨ u.scheme ∉ usesRelative) := by
        rw [hu]
        exact not_or_intro (fun hne => hne rfl) (fun hne => hne hrelative)
      rw [if_neg hno, if_neg (not_not_intro hu), hu]
      simp only [hnetloc, true_and, if_true]
      split
      · rfl
      · split <;> rfl
    · rw [if_pos (Or.inl hu), if_pos hu]

/-- A URL of another scheme stays as it is, every other one becomes an absolute URL that is
made of symbols of the two URLs. -/
theorem urljoin_spec {base url joined : Text} (hbase : Web accepts base) (hurl : url ≠ [])
    (h : urljoin accepts base url = some joined) :
    (joined = url ∧ ∃ u, urlparse accepts http url = some u ∧ u.scheme ≠ http) ∨
      ∃ parts, Absolute accepts parts ∧ joined = urlunparse parts ∧
        ∀ c ∈ parts.symbols, c = slash ∨ c ∈ base ∨ c ∈ url := by
  obtain ⟨b, hb, hscheme, hnetloc⟩ := id hbase
  obtain ⟨habsolute, hbmem⟩ := absolute_of_urlparse hb hscheme hnetloc
  have hparams : http ∈ usesParams := by decide
  rw [urljoin_eq hb hscheme hbase.ne_nil hurl, Option.map_eq_some_iff] at h
  obtain ⟨u, hu, heq⟩ := h
  by_cases huscheme : u.scheme = http
  · right
    obtain ⟨htidy, -, humem⟩ := urlparse_spec hu (by rwa [huscheme])
    have hsymbols : ∀ c, (c = slash ∨ c ∈ b.symbols ∨ c ∈ u.symbols) →
        c = slash ∨ c ∈ base ∨ c ∈ url := fun c hc =>
      hc.imp_right (Or.imp (hbmem c) (humem c))
    rw [if_neg (not_not_intro huscheme)] at heq
    by_cases hunetloc : u.netloc = []
    · rw [if_neg (not_not_intro hunetloc)] at heq
      by_cases hempty : u.path = [] ∧ u.params = []
      · rw [if_pos hempty] at heq
        obtain ⟨hown, hmem⟩ := absolute_basePath habsolute htidy huscheme rfl
        exact ⟨_, hown, heq.symm, fun c hc => hsymbols c (hmem c hc)⟩
      · rw [if_neg hempty] at heq
        obtain ⟨hown, hmem⟩ := absolute_joinPath habsolute htidy huscheme rfl
        refine ⟨_, hown, ?_, fun c hc => hsymbols c (hmem c hc)⟩
        rw [← heq, eq_comm]
        refine urlunparse_rooted ?_ ?_ rfl
        · exact hnetloc
        · exact (joinPath_spec b.path u.path).1
    · rw [if_pos hunetloc] at heq
      obtain ⟨hown, -⟩ := absolute_of_urlparse hu huscheme hunetloc
      exact ⟨u, hown, heq.symm, fun c hc => hsymbols c (Or.inr (Or.inr hc))⟩
  · left
    rw [if_pos huscheme] at heq
    exact ⟨heq.symm, u, hu, huscheme⟩

/-- An absolute URL is not empty when it is put together. -/
theorem Absolute.urlunparse_ne_nil {parts : Parts} (h : Absolute accepts parts) :
    urlunparse parts ≠ [] := by
  rw [h.urlunparse_eq]
  exact List.append_ne_nil_of_right_ne_nil _ (List.cons_ne_nil _ _)

/-- The symbols that are added when parts become a URL. -/
def glue : Text := http ++ [colon, slash, semicolon, question, hash]

/-- A URL that is put together has the characters of its parts, and the delimiters between them. -/
theorem Absolute.mem_urlunparse {parts : Parts} (h : Absolute accepts parts) {c : CodePoint}
    (hc : c ∈ urlunparse parts) : c ∈ glue ∨ c ∈ parts.symbols := by
  have hglue : ∀ {d : CodePoint}, d ∈ glue → c = d → c ∈ glue ∨ c ∈ parts.symbols :=
    fun hd heq => Or.inl (heq ▸ hd)
  rw [h.urlunparse_eq] at hc
  rcases List.mem_append.mp hc with hc | hc
  · exact Or.inl (List.mem_append_left _ hc)
  rcases List.mem_cons.mp hc with heq | hc
  · exact hglue (by decide) heq
  rcases List.mem_cons.mp hc with heq | hc
  · exact hglue (by decide) heq
  rcases List.mem_cons.mp hc with heq | hc
  · exact hglue (by decide) heq
  rcases List.mem_append.mp hc with hc | hc
  · exact Or.inr (Parts.mem_symbols.mpr (Or.inl hc))
  rcases mem_withPart hc with heq | hc
  · exact hglue (by decide) heq
  rcases List.mem_append.mp hc with hc | hc
  · rcases mem_withPart hc with heq | hc
    · exact hglue (by decide) heq
    rcases List.mem_append.mp hc with hc | hc
    · rcases mem_withPart hc with heq | hc
      · exact hglue (by decide) heq
      · right
        rw [Parts.mem_symbols]
        rcases List.mem_append.mp hc with hc | hc
        · exact Or.inr (Or.inl hc)
        · exact Or.inr (Or.inr (Or.inl hc))
    · exact Or.inr (Parts.mem_symbols.mpr (Or.inr (Or.inr (Or.inr (Or.inl hc)))))
  · exact Or.inr (Parts.mem_symbols.mpr (Or.inr (Or.inr (Or.inr (Or.inr hc)))))

/-- A URL is made of symbols of the base, of what is resolved against it and of the symbols
between the parts. -/
theorem mem_urljoin {base url joined : Text} (hbase : Web accepts base) (hurl : url ≠ [])
    (h : urljoin accepts base url = some joined) {c : CodePoint} (hc : c ∈ joined) :
    c ∈ glue ∨ c ∈ base ∨ c ∈ url := by
  rcases urljoin_spec hbase hurl h with ⟨rfl, -⟩ | ⟨parts, habsolute, rfl, hmem⟩
  · exact Or.inr (Or.inr hc)
  · rcases habsolute.mem_urlunparse hc with hc | hc
    · exact Or.inl hc
    · rcases hmem c hc with rfl | hc
      · exact Or.inl (by decide)
      · exact Or.inr hc

/-- A reference that is not empty gives a URL that is not empty, against a URL of the web. -/
theorem urljoin_ne_nil {base url joined : Text} (hbase : Web accepts base) (hurl : url ≠ [])
    (h : urljoin accepts base url = some joined) : joined ≠ [] := by
  rcases urljoin_spec hbase hurl h with ⟨rfl, -⟩ | ⟨parts, habsolute, rfl, -⟩
  · exact hurl
  · exact habsolute.urlunparse_ne_nil

/-- A URL that was resolved against one base stays as it is under every other base. -/
theorem urljoin_urljoin {base other url joined : Text} (hbase : Web accepts base)
    (hother : Web accepts other) (hurl : url ≠ [])
    (h : urljoin accepts base url = some joined) :
    urljoin accepts other joined = some joined := by
  obtain ⟨b, hb, hscheme, -⟩ := id hother
  rcases urljoin_spec hbase hurl h with ⟨rfl, u, hu, huscheme⟩ | ⟨parts, habsolute, rfl, -⟩
  · rw [urljoin_eq hb hscheme hother.ne_nil hurl, hu, Option.map_some, if_pos huscheme]
  · rw [urljoin_eq hb hscheme hother.ne_nil habsolute.urlunparse_ne_nil,
      urlparse_urlunparse habsolute, Option.map_some, if_neg (not_not_intro habsolute.scheme),
      if_pos habsolute.netloc]

/-- Segments without dots stay as they are. -/
theorem resolve_of_noDots {segments : List Text}
    (h : ∀ segment ∈ segments, segment ≠ dot ∧ segment ≠ dots) : resolve segments = segments := by
  have hfollow : ∀ resolved, segments.foldl follow resolved = resolved ++ segments := by
    induction segments with
    | nil => exact fun resolved => (List.append_nil resolved).symm
    | cons segment rest ih =>
      intro resolved
      obtain ⟨hdot, hdots⟩ := h segment List.mem_cons_self
      rw [List.foldl_cons, follow, if_neg hdots, if_neg hdot,
        ih fun other hother => h other (List.mem_cons_of_mem segment hother), List.append_assoc,
        List.singleton_append]
  have hlast : ¬ (segments.getLast? = some dot ∨ segments.getLast? = some dots) := by
    rintro (hdot | hdots)
    · exact (h dot (List.mem_of_getLast? hdot)).1 rfl
    · exact (h dots (List.mem_of_getLast? hdots)).2 rfl
  rw [resolve, hfollow [], List.nil_append]
  exact if_neg hlast

/-- A path from the root of the server without dots, parameters, query and fragment stays as it
is behind the network location. -/
theorem urljoin_of_rooted {base rest : Text} {b : Parts} (haccepts : accepts [] = true)
    (hb : urlparse accepts [] base = some b) (hbscheme : b.scheme = http) (hbnetloc : b.netloc ≠ [])
    (hrest : rest.head? ≠ some slash) (hplain : ∀ c ∈ rest, c ∉ [semicolon, question, hash])
    (hdots : ∀ segment ∈ (slash :: rest).splitOn slash, segment ≠ dot ∧ segment ≠ dots) :
    urljoin accepts base (slash :: rest) =
        some (http ++ colon :: slash :: slash :: (b.netloc ++ slash :: rest)) ∧
      Web accepts (http ++ colon :: slash :: slash :: (b.netloc ++ slash :: rest)) := by
  have hnotMem : ∀ c ∈ [semicolon, question, hash], c ∉ slash :: rest := by
    intro c hc hmem
    rcases List.mem_cons.mp hmem with rfl | hmem
    · revert hc
      decide
    · exact hplain c hmem hc
  have hscheme : splitScheme http (slash :: rest) = (http, slash :: rest) := by
    unfold splitScheme
    dsimp only
    have hfront : (partition colon (slash :: rest)).1 = slash :: (partition colon rest).1 := rfl
    have hslash : schemeChar slash = false := by decide
    have hhttp : slash :: (partition colon rest).1 ≠ http := fun heq =>
      absurd (List.cons.inj heq).1 (by decide)
    rw [hfront, if_neg hhttp, List.all_cons, hslash]
    simp
  have hnetloc : splitNetloc (slash :: rest) = ([], slash :: rest) := by
    refine if_neg fun htwo => hrest ?_
    cases rest with
    | nil => cases htwo
    | cons c rest => rw [(List.cons.inj (List.cons.inj htwo).2).1]; rfl
  have hparams : splitParams (slash :: rest) = (slash :: rest, []) := by
    have hlast : semicolon ∉ lastPiece (slash :: rest) := fun hmem =>
      hnotMem semicolon (by decide) ((List.rtakeWhile_suffix _ (slash :: rest)).subset hmem)
    rw [splitParams, partition_of_notMem hlast]
    exact Prod.ext (rdropWhile_append_lastPiece (slash :: rest)) rfl
  have hu : urlparse accepts http (slash :: rest) =
      some ⟨http, [], slash :: rest, [], [], []⟩ := by
    have hhttp : http ∈ usesParams := by decide
    rw [urlparse, hscheme]
    dsimp only
    rw [hnetloc]
    dsimp only
    rw [partition_of_notMem (hnotMem hash (by decide))]
    dsimp only
    rw [partition_of_notMem (hnotMem question (by decide))]
    dsimp only
    rw [if_pos hhttp, hparams, if_pos haccepts]
  have hne : slash :: rest ≠ [] := List.cons_ne_nil _ _
  have hweb : Web accepts base := ⟨b, hb, hbscheme, hbnetloc⟩
  have hjoinPath : joinPath b.path (slash :: rest) = slash :: rest := by
    have hintercalate : [slash].intercalate ((slash :: rest).splitOn slash) = slash :: rest :=
      List.intercalate_splitOn slash
    have hsegments : segments b.path (slash :: rest) = (slash :: rest).splitOn slash := if_pos rfl
    rw [joinPath, hsegments, resolve_of_noDots hdots, hintercalate]
    exact if_neg hne
  have hjoined : urljoin accepts base (slash :: rest) =
      some (http ++ colon :: slash :: slash :: (b.netloc ++ slash :: rest)) := by
    rw [urljoin_eq hb hbscheme hweb.ne_nil hne, hu, Option.map_some]
    dsimp only
    rw [if_neg (fun h => h rfl), if_neg (fun h => h rfl), if_neg (fun h => hne h.1), hjoinPath]
    have hhttp : http ≠ [] := by decide
    have hpath : rooted (slash :: rest) = slash :: rest := if_neg fun h => h.2 rfl
    simp only [urlunparse, withPart, if_true, if_neg hhttp, if_pos (Or.inl hbnetloc), hpath]
  refine ⟨hjoined, ?_⟩
  rcases urljoin_spec hweb hne hjoined with ⟨-, v, hv, hvscheme⟩ | ⟨parts, habsolute, heq, -⟩
  · rw [hu] at hv
    cases hv
    exact absurd rfl hvscheme
  · rw [heq]
    exact ⟨parts, urlparse_urlunparse habsolute [], habsolute.scheme, habsolute.netloc⟩

end Parsing

end OpenDiamond.Lib.Urls
