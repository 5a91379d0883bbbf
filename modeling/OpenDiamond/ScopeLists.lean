import OpenDiamond.Lib.Draining
import OpenDiamond.Lib.OrderedDict
import OpenDiamond.Lib.Unicode

/-!
# Reading scope lists

One parser and one handler go through the scope lists of all URLs. The handler gathers the
objects that the parser reports; after each chunk that was fed without an error they are
yielded, with the URL that is being read. What an error leaves in the handler waits for the
next such chunk.
-/

namespace OpenDiamond.ScopeLists

open Lib.OrderedDict Lib.Unicode Lib.Draining

/-- A sequence of bytes. -/
abbrev Bytes := List UInt8

/-- The attributes of an element. -/
abbrev Attrs := Dict Text Text

/-- The start of an element. -/
structure Element where
  /-- Tag. -/
  name : Text
  /-- Attributes. -/
  attrs : Attrs

/-- What a call of the parser does. -/
structure Report (P : Type*) where
  /-- The elements whose start it reports, in order. -/
  elements : List Element
  /-- It does not raise `SAXParseException` after that. -/
  ok : Bool
  /-- The parser afterwards. -/
  state : P

/-- An incremental parser. -/
structure Parser (P : Type*) where
  /-- `feed`. -/
  feed : P → Bytes → Report P
  /-- `close`. -/
  close : P → Report P
  /-- `reset`. -/
  reset : P → P

/-- `_ScopeListHandler`. -/
structure Handler where
  /-- `count`. -/
  count : ℤ
  /-- `pending_objects`. -/
  pending : List Attrs

/-- What a URL answers: the results of `read`, or `none` for a `URLError`. -/
abbrev Response := Option (List Bytes)

/-- How reading a response ends. -/
inductive Ended where
  | read
  /-- `SAXParseException`. -/
  | parseError
  /-- Another exception, which the handler raised. -/
  | raised
  deriving DecidableEq

/-- What was yielded so far, and where everything is. -/
structure Progress (P : Type*) where
  /-- Objects with their scope URLs. -/
  yielded : List (Attrs × Text)
  /-- The handler. -/
  handler : Handler
  /-- The parser. -/
  state : P
  /-- How it ended. -/
  ended : Ended

/-- The progress with what was yielded before. -/
def Progress.after {P : Type*} (progress : Progress P) (yielded : List (Attrs × Text)) :
    Progress P :=
  { progress with yielded := yielded ++ progress.yielded }

section Reading

variable {P : Type*} (toInt : Text → Option ℤ) (urljoin : Text → Option Text) (parser : Parser P)

/-- `startElement`, `none` for the `ValueError` of `int` and for `KeyError`. -/
def Handler.startElement (handler : Handler) (element : Element) : Option Handler :=
  if element.name = ofString "objectlist" then
    match element.attrs.get? (ofString "count") with
    | none => some handler
    | some count => (toInt count).map fun n => { handler with count := handler.count + n }
  else if element.name = ofString "count" then
    ((element.attrs.get? (ofString "adjust")).bind toInt).map fun n =>
      { handler with count := handler.count + n }
  else if element.name = ofString "object" then
    some { handler with pending := handler.pending ++ [element.attrs] }
  else some handler

/-- The calls of the handler, and whether none of them raised an exception. -/
def Handler.startElements : Handler → List Element → Handler × Bool
  | handler, [] => (handler, true)
  | handler, element :: rest =>
    match handler.startElement toInt element with
    | none => (handler, false)
    | some handler => handler.startElements rest

/-- The loop over the chunks of a response. -/
def feedAll (url : Text) : Handler → P → List Bytes → Progress P
  | handler, state, [] => ⟨[], handler, state, .read⟩
  | handler, state, buf :: rest =>
    if buf = [] then ⟨[], handler, state, .read⟩
    else
      let report := parser.feed state buf
      match handler.startElements toInt report.elements with
      | (handler, false) => ⟨[], handler, report.state, .raised⟩
      | (handler, true) =>
        if report.ok then
          (feedAll url { handler with pending := [] } report.state rest).after
            (handler.pending.map fun attrs => (attrs, url))
        else ⟨[], handler, report.state, .parseError⟩

/-- The `try` clause for a scope URL. -/
def fetch (url : Text) (handler : Handler) (state : P) : Response → Progress P
  | none => ⟨[], handler, state, .read⟩
  | some chunks => feedAll toInt parser url handler state chunks

/-- One scope URL, with the `finally` clause. -/
def readList (url : Text) (handler : Handler) (state : P) (response : Response) : Progress P :=
  let fetched := fetch toInt parser url handler state response
  let report := parser.close fetched.state
  match fetched.handler.startElements toInt report.elements with
  | (handler, false) => ⟨fetched.yielded, handler, report.state, .raised⟩
  | (handler, true) =>
    ⟨fetched.yielded, handler, parser.reset report.state, fetched.ended⟩

/-- `_generator_func`: the objects that are yielded, with their scope URLs. `urljoin` is the
one with `BASE_URL`, `none` for its `ValueError`. -/
def generatorFunc : Handler → P → List (Text × Response) → List (Attrs × Text)
  | _, _, [] => []
  | handler, state, (scopeUrl, response) :: rest =>
    match urljoin scopeUrl with
    | none => []
    | some url =>
      let list := readList toInt parser url handler state response
      if list.ended = .raised then list.yielded
      else list.yielded ++ generatorFunc list.handler list.state rest

/-! ## What the parser reports -/

/-- The `object` elements. -/
def objects (elements : List Element) : List Attrs :=
  (elements.filter fun element => element.name = ofString "object").map Element.attrs

/-- The handler raises no exception, whatever it holds. -/
def acceptable (element : Element) : Bool := (Handler.startElement toInt ⟨0, []⟩ element).isSome

/-- The elements of one call of the parser. -/
def segment (url : Text) (elements : List Element) (drains : Bool) : Segment Attrs Text :=
  ⟨url, objects elements, drains, !elements.all (acceptable toInt)⟩

/-- The calls of `feed` for a response, up to a parse error. -/
def feedSegments (url : Text) : P → List Bytes → List (Segment Attrs Text) × P
  | state, [] => ([], state)
  | state, buf :: rest =>
    if buf = [] then ([], state)
    else
      let report := parser.feed state buf
      if report.ok then
        let next := feedSegments url report.state rest
        (segment toInt url report.elements true :: next.1, next.2)
      else ([segment toInt url report.elements false], report.state)

/-- The calls before `close`. -/
def fetchSegments (url : Text) (state : P) : Response → List (Segment Attrs Text) × P
  | none => ([], state)
  | some chunks => feedSegments toInt parser url state chunks

/-- All calls for a scope URL. -/
def listSegments (url : Text) (state : P) (response : Response) :
    List (Segment Attrs Text) × P :=
  let fed := fetchSegments toInt parser url state response
  let report := parser.close fed.2
  (fed.1 ++ [segment toInt url report.elements false], parser.reset report.state)

/-- All calls; a scope URL that cannot be joined stops everything. -/
def segments : P → List (Text × Response) → List (Segment Attrs Text)
  | _, [] => []
  | state, (scopeUrl, response) :: rest =>
    match urljoin scopeUrl with
    | none => ⟨scopeUrl, [], false, true⟩ :: segments state rest
    | some url =>
      let next := listSegments toInt parser url state response
      next.1 ++ segments next.2 rest

/-! ## The generator hands out what the parser reports -/

theorem objects_cons (element : Element) (rest : List Element) :
    objects (element :: rest) = objects [element] ++ objects rest := by
  rw [objects, objects, objects, ← List.map_append, ← List.filter_append]
  rfl

/-- What a call of the handler does to the objects that wait. -/
theorem startElement_pending (handler : Handler) (element : Element) :
    (handler.startElement toInt element).map Handler.pending =
      if acceptable toInt element then some (handler.pending ++ objects [element]) else none := by
  rw [acceptable, Handler.startElement, Handler.startElement]
  by_cases hlist : element.name = ofString "objectlist"
  · have hobject : element.name ≠ ofString "object" := by
      rw [hlist]
      decide
    simp only [if_pos hlist, objects, List.filter_cons, hobject, decide_false, Bool.false_eq_true,
      if_false, List.filter_nil, List.map_nil, List.append_nil]
    cases element.attrs.get? (ofString "count") with
    | none => rfl
    | some count => cases hint : toInt count <;> simp [hint]
  · rw [if_neg hlist, if_neg hlist]
    by_cases hcount : element.name = ofString "count"
    · have hobject : element.name ≠ ofString "object" := by
        rw [hcount]
        decide
      simp only [if_pos hcount, objects, List.filter_cons, hobject, decide_false,
        Bool.false_eq_true, if_false, List.filter_nil, List.map_nil, List.append_nil]
      cases (element.attrs.get? (ofString "adjust")).bind toInt <;> rfl
    · rw [if_neg hcount, if_neg hcount]
      by_cases hobject : element.name = ofString "object"
      · simp [hobject, objects]
      · simp [hobject, objects]

/-- The objects of a call wait behind those that wait already, as far as the handler gets through
the call. -/
theorem startElements_spec (handler : Handler) (elements : List Element) :
    (handler.startElements toInt elements).2 = elements.all (acceptable toInt) ∧
      (elements.all (acceptable toInt) = true →
        (handler.startElements toInt elements).1.pending =
          handler.pending ++ objects elements) := by
  induction elements generalizing handler with
  | nil => simp [Handler.startElements, objects]
  | cons element rest ih =>
    have hfirst := startElement_pending toInt handler element
    rw [Handler.startElements, List.all_cons]
    cases hstart : handler.startElement toInt element with
    | none =>
      rw [hstart] at hfirst
      cases hacceptable : acceptable toInt element with
      | true => simp [hacceptable] at hfirst
      | false => simp
    | some next =>
      rw [hstart] at hfirst
      cases hacceptable : acceptable toInt element with
      | false => simp [hacceptable] at hfirst
      | true =>
        simp only [hacceptable, Option.map_some, if_true, Option.some.injEq] at hfirst
        obtain ⟨hraises, hpending⟩ := ih next
        rw [Bool.true_and]
        refine ⟨hraises, fun h => ?_⟩
        rw [hpending h, hfirst, List.append_assoc, ← objects_cons]

/-- The two ways in which the handler goes through the elements of a call: to the end, or to an
exception, behind which it looks at nothing. -/
theorem startElements_cases (handler : Handler) (elements : List Element) :
    (∃ after, handler.startElements toInt elements = (after, false) ∧
      ∀ url drains, (segment toInt url elements drains).stops = true) ∨
    ∃ after, handler.startElements toInt elements = (after, true) ∧
      (∀ url drains, (segment toInt url elements drains).stops = false) ∧
      after.pending = handler.pending ++ objects elements := by
  obtain ⟨hraises, hpending⟩ := startElements_spec toInt handler elements
  generalize handler.startElements toInt elements = result at hraises hpending
  obtain ⟨after, quiet⟩ := result
  cases quiet with
  | false =>
    have hall : elements.all (acceptable toInt) = false := hraises.symm
    exact Or.inl ⟨after, rfl, fun url drains => by rw [segment, hall]; rfl⟩
  | true =>
    have hall : elements.all (acceptable toInt) = true := hraises.symm
    exact Or.inr ⟨after, rfl, fun url drains => by rw [segment, hall]; rfl, hpending hall⟩

/-- The rest of what is handed out, unless an exception was raised. -/
def Progress.withRest (progress : Progress P) (rest : List (Segment Attrs Text)) :
    List (Attrs × Text) :=
  if progress.ended = .raised then progress.yielded
  else progress.yielded ++ handOut progress.handler.pending rest

theorem Progress.withRest_after (progress : Progress P) (yielded : List (Attrs × Text))
    (rest : List (Segment Attrs Text)) :
    (progress.after yielded).withRest rest = yielded ++ progress.withRest rest := by
  rw [Progress.withRest, Progress.withRest]
  show (if progress.ended = .raised then _ else _) = _
  split
  · rfl
  · exact List.append_assoc _ _ _

theorem feedAll_spec (url : Text) (handler : Handler) (state : P) (chunks : List Bytes)
    (rest : List (Segment Attrs Text)) :
    handOut handler.pending ((feedSegments toInt parser url state chunks).1 ++ rest) =
        (feedAll toInt parser url handler state chunks).withRest rest ∧
      ((feedAll toInt parser url handler state chunks).ended ≠ .raised →
        (feedAll toInt parser url handler state chunks).state =
          (feedSegments toInt parser url state chunks).2) := by
  induction chunks generalizing handler state with
  | nil => exact ⟨rfl, fun _ => rfl⟩
  | cons buf more ih =>
    rw [feedSegments, feedAll]
    by_cases hbuf : buf = []
    · rw [if_pos hbuf, if_pos hbuf]
      exact ⟨rfl, fun _ => rfl⟩
    · rw [if_neg hbuf, if_neg hbuf]
      dsimp only
      generalize parser.feed state buf = report
      rcases startElements_cases toInt handler report.elements with
        ⟨after, hstart, hstops⟩ | ⟨after, hstart, hstops, hpending⟩
      · rw [hstart]
        refine ⟨?_, fun h => absurd rfl h⟩
        cases report.ok with
        | true => simp [handOut, hstops, Progress.withRest]
        | false => simp [handOut, hstops, Progress.withRest]
      · rw [hstart]
        cases hok : report.ok with
        | true =>
          obtain ⟨hrest, hstate⟩ := ih { after with pending := [] } report.state
          simp only [if_true]
          refine ⟨?_, hstate⟩
          rw [Progress.withRest_after, ← hrest, List.cons_append, handOut, hstops,
            hpending]
          rfl
        | false =>
          refine ⟨?_, fun _ => rfl⟩
          show handOut handler.pending (segment toInt url report.elements false :: rest) =
            handOut after.pending rest
          rw [handOut, hstops, hpending]
          rfl

theorem fetch_spec (url : Text) (handler : Handler) (state : P) (response : Response)
    (rest : List (Segment Attrs Text)) :
    handOut handler.pending ((fetchSegments toInt parser url state response).1 ++ rest) =
        (fetch toInt parser url handler state response).withRest rest ∧
      ((fetch toInt parser url handler state response).ended ≠ .raised →
        (fetch toInt parser url handler state response).state =
          (fetchSegments toInt parser url state response).2) := by
  cases response with
  | none => exact ⟨rfl, fun _ => rfl⟩
  | some chunks => exact feedAll_spec toInt parser url handler state chunks rest

/-- What `close` reports is not drained any more under its own URL: it waits for the next list. -/
theorem readList_spec (url : Text) (handler : Handler) (state : P) (response : Response)
    (rest : List (Segment Attrs Text)) :
    handOut handler.pending ((listSegments toInt parser url state response).1 ++ rest) =
        (readList toInt parser url handler state response).withRest rest ∧
      ((readList toInt parser url handler state response).ended ≠ .raised →
        (readList toInt parser url handler state response).state =
          (listSegments toInt parser url state response).2) := by
  rw [listSegments, readList]
  dsimp only
  obtain ⟨hfetch, hstate⟩ := fetch_spec toInt parser url handler state
    response (segment toInt url
      (parser.close (fetchSegments toInt parser url state response).2).elements false :: rest)
  generalize fetch toInt parser url handler state response = fetched at hfetch hstate
  rw [List.append_assoc, List.singleton_append, hfetch, Progress.withRest]
  by_cases hraised : fetched.ended = .raised
  · rw [if_pos hraised]
    generalize Handler.startElements toInt fetched.handler (parser.close fetched.state).elements =
      result
    obtain ⟨after, quiet⟩ := result
    cases quiet with
    | false => exact ⟨rfl, fun h => absurd rfl h⟩
    | true =>
      refine ⟨?_, fun h => absurd hraised h⟩
      rw [Progress.withRest, if_pos hraised]
  · rw [if_neg hraised, hstate hraised]
    generalize parser.close (fetchSegments toInt parser url state response).2 = report
    rcases startElements_cases toInt fetched.handler report.elements with
      ⟨after, hstart, hstops⟩ | ⟨after, hstart, hstops, hpending⟩
    · rw [hstart]
      refine ⟨?_, fun h => absurd rfl h⟩
      rw [handOut, hstops, if_pos rfl, List.append_nil]
      rfl
    · rw [hstart]
      refine ⟨?_, fun _ => rfl⟩
      rw [Progress.withRest, if_neg hraised, handOut, hstops, hpending]
      rfl

/-- The generator yields what the parser reports, drained segment by segment. -/
theorem generatorFunc_eq (handler : Handler) (state : P) (requests : List (Text × Response)) :
    generatorFunc toInt urljoin parser handler state requests =
      handOut handler.pending (segments toInt urljoin parser state requests) := by
  induction requests generalizing handler state with
  | nil => rfl
  | cons request rest ih =>
    obtain ⟨scopeUrl, response⟩ := request
    rw [generatorFunc, segments]
    cases urljoin scopeUrl with
    | none => rfl
    | some url =>
      dsimp only
      obtain ⟨hlist, hstate⟩ := readList_spec toInt parser url handler state
        response (segments toInt urljoin parser (listSegments toInt parser url state response).2
          rest)
      rw [hlist, Progress.withRest]
      by_cases hraised : (readList toInt parser url handler state response).ended = .raised
      · rw [if_pos hraised, if_pos hraised]
      · rw [if_neg hraised, if_neg hraised, ih, hstate hraised]

end Reading

/-- An element with one attribute. -/
def sampleObject (id : String) : Element :=
  ⟨ofString "object", Dict.empty.set (ofString "id") (ofString id)⟩

/-- The bytes of a text of ASCII characters. -/
def ascii (text : String) : Bytes := text.toList.map fun c => UInt8.ofNat c.toNat

/-- A list that breaks off after its first object. -/
def brokenList : Bytes := ascii "<objectlist><object id='a'/></x>"

/-- A list with one object. -/
def wholeList : Bytes := ascii "<objectlist><object id='b'/></objectlist>"

/-- What a parser reports on the two lists. -/
def sampleParser : Parser Unit where
  feed _ chunk :=
    if chunk = brokenList then ⟨[⟨ofString "objectlist", Dict.empty⟩, sampleObject "a"], false, ()⟩
    else ⟨[⟨ofString "objectlist", Dict.empty⟩, sampleObject "b"], true, ()⟩
  close _ := ⟨[], true, ()⟩
  reset _ := ()

/-- `urljoin` of `BASE_URL` and an absolute path. -/
def sampleJoin (path : Text) : Option Text := some (ofString "http://localhost:5873" ++ path)

/-- The broken list and the whole one. -/
def sampleRequests : List (Text × Response) :=
  [(ofString "/1", some [brokenList]), (ofString "/2", some [wholeList])]

/-- What is yielded for the two lists, when the object of the broken one comes with a URL. -/
def sampleYield (url : String) : List (Attrs × Text) :=
  [((sampleObject "a").attrs, ofString url),
    ((sampleObject "b").attrs, ofString "http://localhost:5873/2")]

end OpenDiamond.ScopeLists
