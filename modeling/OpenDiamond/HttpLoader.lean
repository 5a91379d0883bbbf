import Mathlib.Data.List.DropRight
import OpenDiamond.Lib.OrderedDict
import OpenDiamond.Lib.Splitting
import OpenDiamond.Lib.Unicode

/-!
# Loading object data over HTTP

One loader fetches many objects. Header lines and body chunks reach it through callbacks
and are collected in two buffers, which a successful fetch hands out and replaces. A failed
fetch leaves what it has delivered in the buffers, for the next fetch to return.
-/

namespace OpenDiamond.HttpLoader

open Lib.OrderedDict Lib.Splitting Lib.Unicode

abbrev Bytes := List UInt8

/-! ## The callbacks -/

/-- `_HttpLoader`: the buffers that its callbacks fill. -/
structure Loader where
  /-- `_headers`. -/
  headers : Dict Text Bytes
  /-- `_body`. -/
  body : Bytes

/-- `_HttpLoader.__init__`. -/
def Loader.new : Loader := ⟨Dict.empty, []⟩

/-- What `_handle_header` makes of a line. -/
inductive HeaderLine where
  /-- A status line, which starts over. -/
  | status
  /-- The blank line at the end. -/
  | blank
  /-- A header with its value. -/
  | field (key : Text) (value : Bytes)

/-- The decoding of a header line; `none` where the callback raises: the line is not UTF-8,
or has no colon followed by a space. -/
def headerLine (hdr : Bytes) : Option HeaderLine := do
  let text ← decodeUtf8 hdr
  let line := text.rdropWhile fun c => c ∈ ofString "\r\n"
  if ofString "HTTP/" <+: line then return .status
  else if line = [] then return .blank
  else
    let (key, value) ← cut (ofString ": ") line
    return .field key (← encodeUtf8 value)

/-- The headers after a line. -/
def HeaderLine.apply (headers : Dict Text Bytes) : HeaderLine → Dict Text Bytes
  | .status => Dict.empty
  | .blank => headers
  | .field key value => headers.set key value

/-- `_handle_header`, `none` where it raises. -/
def Loader.handleHeader (loader : Loader) (hdr : Bytes) : Option Loader :=
  (headerLine hdr).map fun line => { loader with headers := line.apply loader.headers }

/-- `_handle_body`. -/
def Loader.handleBody (loader : Loader) (data : Bytes) : Loader :=
  { loader with body := loader.body ++ data }

/-! ## Fetches -/

/-- What a transfer delivers to a callback. -/
inductive Delivery where
  | header (hdr : Bytes)
  | body (data : Bytes)

/-- A transfer: what it delivers, and whether curl ends it without an error of its own. -/
structure Transfer where
  /-- The calls of the callbacks, in order. -/
  deliveries : List Delivery
  /-- The server and the connection did not fail. -/
  completed : Bool

/-- `perform`: `false` for a `curl.error`, which also a callback that raises leads to. -/
def Loader.perform (completed : Bool) : Loader → List Delivery → Bool × Loader
  | loader, [] => (completed, loader)
  | loader, .header hdr :: rest =>
    match loader.handleHeader hdr with
    | none => (false, loader)
    | some loader => loader.perform completed rest
  | loader, .body data :: rest => (loader.handleBody data).perform completed rest

/-- `get`: the headers and the body, or `none` for an `ObjectLoadError`. -/
def Loader.get (loader : Loader) (transfer : Transfer) :
    Option (Dict Text Bytes × Bytes) × Loader :=
  match loader.perform transfer.completed transfer.deliveries with
  | (false, loader) => (none, loader)
  | (true, loader) => (some (loader.headers, loader.body), .new)

/-- The loader after a sequence of fetches. -/
def Loader.after (transfers : List Transfer) : Loader :=
  transfers.foldl (fun loader transfer => (loader.get transfer).2) .new

/-! ## What a transfer delivers -/

/-- What is delivered before a callback raises. -/
def delivered : List Delivery → List Delivery
  | [] => []
  | .header hdr :: rest =>
    if (headerLine hdr).isSome then .header hdr :: delivered rest else []
  | .body data :: rest => .body data :: delivered rest

/-- No callback raises. -/
def accepted : List Delivery → Bool
  | [] => true
  | .header hdr :: rest => (headerLine hdr).isSome && accepted rest
  | .body _ :: rest => accepted rest

/-- A transfer that ends without a `curl.error`. -/
def Transfer.succeeds (transfer : Transfer) : Bool :=
  accepted transfer.deliveries && transfer.completed

/-- The chunks of the body, joined. -/
def bodyOf : List Delivery → Bytes
  | [] => []
  | .header _ :: rest => bodyOf rest
  | .body data :: rest => data ++ bodyOf rest

/-- The headers after some deliveries. -/
def headersFrom (headers : Dict Text Bytes) : List Delivery → Dict Text Bytes
  | [] => headers
  | .header hdr :: rest =>
    headersFrom (((headerLine hdr).map fun line => line.apply headers).getD headers) rest
  | .body _ :: rest => headersFrom headers rest

/-- The headers since the last status line. -/
def headersOf (deliveries : List Delivery) : Dict Text Bytes := headersFrom Dict.empty deliveries

/-- There is a status line. -/
def hasStatus : List Delivery → Bool
  | [] => false
  | .header hdr :: rest =>
    (match headerLine hdr with
    | some .status => true
    | _ => false) || hasStatus rest
  | .body _ :: rest => hasStatus rest

/-- The body is collected in the order in which its chunks are delivered. -/
theorem bodyOf_append (first second : List Delivery) :
    bodyOf (first ++ second) = bodyOf first ++ bodyOf second := by
  induction first with
  | nil => rfl
  | cons delivery rest ih =>
    cases delivery with
    | header hdr => exact ih
    | body data => simp [bodyOf, ih]

/-- The headers of two deliveries are those of the second, set over those of the first. -/
theorem headersFrom_append (headers : Dict Text Bytes) (first second : List Delivery) :
    headersFrom headers (first ++ second) = headersFrom (headersFrom headers first) second := by
  induction first generalizing headers with
  | nil => rfl
  | cons delivery rest ih =>
    cases delivery with
    | header hdr => exact ih _
    | body data => exact ih _

/-- A transfer that is accepted delivers everything. -/
theorem delivered_of_accepted {deliveries : List Delivery} (h : accepted deliveries = true) :
    delivered deliveries = deliveries := by
  induction deliveries with
  | nil => rfl
  | cons delivery rest ih =>
    cases delivery with
    | header hdr =>
      rw [accepted, Bool.and_eq_true] at h
      rw [delivered, if_pos h.1, ih h.2]
    | body data => rw [delivered, ih h]

/-- A transfer appends to the body and goes on from the headers it finds. -/
theorem Loader.perform_eq (completed : Bool) (loader : Loader) (deliveries : List Delivery) :
    loader.perform completed deliveries =
      (accepted deliveries && completed,
        ⟨headersFrom loader.headers (delivered deliveries),
          loader.body ++ bodyOf (delivered deliveries)⟩) := by
  induction deliveries generalizing loader with
  | nil => simp [perform, accepted, delivered, headersFrom, bodyOf]
  | cons delivery rest ih =>
    cases delivery with
    | header hdr =>
      cases hline : headerLine hdr with
      | none => simp [perform, handleHeader, hline, accepted, delivered, headersFrom, bodyOf]
      | some line =>
        simp only [perform, handleHeader, hline, Option.map_some, ih]
        simp [accepted, delivered, hline, headersFrom, bodyOf]
    | body data =>
      rw [perform, ih]
      simp [handleBody, accepted, delivered, headersFrom, bodyOf]

/-- Headers that were there before count only where no status line comes, and only where
they are not set again. -/
theorem headersFrom_get? (headers : Dict Text Bytes) (deliveries : List Delivery) (key : Text) :
    (headersFrom headers deliveries).get? key =
      if hasStatus deliveries then (headersOf deliveries).get? key
      else ((headersOf deliveries).get? key).or (headers.get? key) := by
  induction deliveries generalizing headers with
  | nil => simp [headersFrom, headersOf, hasStatus]
  | cons delivery rest ih =>
    cases delivery with
    | body data => exact ih headers
    | header hdr =>
      have hempty := ih (((headerLine hdr).map fun line => line.apply Dict.empty).getD Dict.empty)
      rw [headersFrom, headersOf, headersFrom, ih, hempty]
      cases hline : headerLine hdr with
      | none => simp [hasStatus, hline]
      | some line =>
        cases line with
        | status => simp [hasStatus, hline, HeaderLine.apply]
        | blank => simp [hasStatus, hline, HeaderLine.apply]
        | field name value =>
          simp only [hasStatus, hline, HeaderLine.apply, Option.map_some, Option.getD_some,
            Bool.false_or, Dict.get?_set, Dict.get?_empty]
          split
          · rfl
          · split
            · cases (headersOf rest).get? key <;> rfl
            · simp

/-! ## Fetches that follow failed ones -/

/-- What the fetches delivered that failed after the last successful one. -/
def leftover : List Transfer → List Delivery :=
  List.foldl (fun left transfer =>
    if transfer.succeeds then [] else left ++ delivered transfer.deliveries) []

/-- The buffers hold what failed fetches have left. -/
theorem Loader.after_eq (transfers : List Transfer) :
    after transfers = ⟨headersOf (leftover transfers), bodyOf (leftover transfers)⟩ := by
  induction transfers using List.reverseRecOn with
  | nil => rfl
  | append_singleton transfers transfer ih =>
    have hafter : after (transfers ++ [transfer]) = ((after transfers).get transfer).2 := by
      simp [after]
    have hleft : leftover (transfers ++ [transfer]) = if transfer.succeeds then [] else
        leftover transfers ++ delivered transfer.deliveries := by
      simp [leftover]
    rw [hafter, hleft, get, ih, perform_eq]
    cases hsucceeds : transfer.succeeds with
    | true =>
      rw [Transfer.succeeds] at hsucceeds
      rw [hsucceeds]
      rfl
    | false =>
      rw [Transfer.succeeds] at hsucceeds
      rw [hsucceeds]
      simp [headersOf, headersFrom_append, bodyOf_append]

/-- Deliveries are accepted when each part is. -/
theorem accepted_append (first second : List Delivery) :
    accepted (first ++ second) = (accepted first && accepted second) := by
  induction first with
  | nil => rfl
  | cons delivery rest ih =>
    cases delivery with
    | header hdr => simp [accepted, ih, Bool.and_assoc]
    | body data => exact ih

/-- What was delivered before a refusal is accepted itself. -/
theorem accepted_delivered (deliveries : List Delivery) :
    accepted (delivered deliveries) = true := by
  induction deliveries with
  | nil => rfl
  | cons delivery rest ih =>
    cases delivery with
    | header hdr =>
      rw [delivered]
      split
      · rename_i hline
        rw [accepted, hline, ih]
        rfl
      · rfl
    | body data => exact ih

/-- Behind accepted deliveries the next ones begin as they would alone. -/
theorem delivered_append {first : List Delivery} (h : accepted first = true)
    (second : List Delivery) : delivered (first ++ second) = first ++ delivered second := by
  induction first with
  | nil => rfl
  | cons delivery rest ih =>
    cases delivery with
    | header hdr =>
      rw [accepted, Bool.and_eq_true] at h
      rw [List.cons_append, delivered, if_pos h.1, ih h.2, List.cons_append]
    | body data =>
      rw [List.cons_append, delivered, ih h, List.cons_append]

/-- No callback raised on what is left. -/
theorem accepted_leftover (transfers : List Transfer) : accepted (leftover transfers) = true := by
  induction transfers using List.reverseRecOn with
  | nil => rfl
  | append_singleton transfers transfer ih =>
    have hleft : leftover (transfers ++ [transfer]) = if transfer.succeeds then [] else
        leftover transfers ++ delivered transfer.deliveries := by
      simp [leftover]
    rw [hleft]
    split
    · rfl
    · rw [accepted_append, ih, accepted_delivered]
      rfl

/-- The transfer with other deliveries in front of its own. -/
def Transfer.behind (left : List Delivery) (transfer : Transfer) : Transfer :=
  { transfer with deliveries := left ++ transfer.deliveries }

/-- What an earlier transfer left does not decide whether the next one succeeds. -/
theorem Transfer.succeeds_behind {left : List Delivery} (h : accepted left = true)
    (transfer : Transfer) : (transfer.behind left).succeeds = transfer.succeeds := by
  rw [succeeds, behind, accepted_append, h, Bool.true_and, succeeds]

/-- After some fetches a fetch goes as the first one would, with what is left in front of what it
delivers. -/
theorem Loader.get_after (transfers : List Transfer) (transfer : Transfer) :
    (after transfers).get transfer = new.get (transfer.behind (leftover transfers)) := by
  have hleft := accepted_leftover transfers
  rw [get, get, perform_eq, perform_eq, after_eq, Transfer.behind, accepted_append, hleft,
    Bool.true_and, delivered_append hleft, new, bodyOf_append, headersFrom_append, headersOf,
    List.nil_append]

/-- A fetch returns its own data. -/
def ReturnsOwn (transfer : Transfer) (headers : Dict Text Bytes) (body : Bytes) : Prop :=
  (∀ key, headers.get? key = (headersOf transfer.deliveries).get? key) ∧
    body = bodyOf transfer.deliveries

/-- The failed fetches before it have left no byte of a body, and no header that it would
return: it has a status line of its own, or sets every header they left again. -/
def Unspoiled (transfers : List Transfer) (transfer : Transfer) : Prop :=
  bodyOf (leftover transfers) = [] ∧
    (hasStatus transfer.deliveries = true ∨
      ∀ key, ((headersOf (leftover transfers)).get? key).isSome →
        ((headersOf transfer.deliveries).get? key).isSome)

/-- After any sequence of fetches, a successful fetch returns the chunks of its own body and
the headers since its own last status line exactly when the failed fetches since the last
successful one have spoiled neither. -/
theorem get_returnsOwn_iff {transfers : List Transfer} {transfer : Transfer}
    {headers : Dict Text Bytes} {body : Bytes}
    (h : ((Loader.after transfers).get transfer).1 = some (headers, body)) :
    ReturnsOwn transfer headers body ↔ Unspoiled transfers transfer := by
  rw [Loader.get, Loader.perform_eq, Loader.after_eq] at h
  cases hsucceeds : (accepted transfer.deliveries && transfer.completed) with
  | false =>
    rw [hsucceeds] at h
    cases h
  | true =>
    have haccepted := (Bool.and_eq_true _ _ ▸ hsucceeds).1
    rw [hsucceeds, delivered_of_accepted haccepted] at h
    cases h
    refine and_comm.trans (and_congr ?_ ?_)
    · constructor
      · intro hbody
        exact List.append_left_eq_self.mp hbody
      · intro hbody
        rw [hbody, List.nil_append]
    · simp only [headersFrom_get?]
      cases hstatus : hasStatus transfer.deliveries with
      | true => simp
      | false =>
        simp only [Bool.false_eq_true, if_false, false_or]
        apply forall_congr'
        intro key
        cases hown : (headersOf transfer.deliveries).get? key <;>
          cases hleft : (headersOf (leftover transfers)).get? key <;> simp

/-- The bytes of the line `HTTP/1.1 200 OK`. -/
def okLine : Bytes := [72, 84, 84, 80, 47, 49, 46, 49, 32, 50, 48, 48, 32, 79, 75, 13, 10]

/-- The sample status line is one. -/
theorem headerLine_okLine : headerLine okLine = some .status := by
  have htext : decodeUtf8 okLine = some (ofString "HTTP/1.1 200 OK\r\n") :=
    decodeUtf8_encodeUtf8 rfl
  simp only [headerLine, htext]
  rfl

/-- A transfer of some bytes. -/
def sampleTransfer (data : Bytes) (completed : Bool) : Transfer :=
  ⟨[.header okLine, .body data], completed⟩

/-- The bytes of the line `x-attr-a: 1`. -/
def attrLine : Bytes := [120, 45, 97, 116, 116, 114, 45, 97, 58, 32, 49, 13, 10]

/-- The sample header line is a field with its value. -/
theorem headerLine_attrLine : headerLine attrLine = some (.field (ofString "x-attr-a") [49]) := by
  have htext : decodeUtf8 attrLine = some (ofString "x-attr-a: 1\r\n") :=
    decodeUtf8_encodeUtf8 rfl
  simp only [headerLine, htext]
  rfl

/-- A fetch that fails after a header. -/
def cutTransfer : Transfer := ⟨[.header okLine, .header attrLine], false⟩

/-- A failed fetch leaves a header behind; the next one has a status line of its own, which clears
it, so that its result is its own. -/
theorem get_returnsOwn_retried :
    ((Loader.after [cutTransfer]).get (sampleTransfer [99, 100] true)).1 =
        some (Dict.empty, [99, 100]) ∧
      ReturnsOwn (sampleTransfer [99, 100] true) Dict.empty [99, 100] := by
  have hget : ((Loader.after [cutTransfer]).get (sampleTransfer [99, 100] true)).1 =
      some (Dict.empty, [99, 100]) := by
    simp [Loader.get, Loader.perform, Loader.handleHeader, sampleTransfer, cutTransfer,
      headerLine_okLine, headerLine_attrLine, HeaderLine.apply, Loader.handleBody, Loader.after,
      Loader.new]
  refine ⟨hget, (get_returnsOwn_iff hget).mpr ⟨?_, Or.inl ?_⟩⟩
  · simp [leftover, cutTransfer, Transfer.succeeds, delivered, headerLine_okLine,
      headerLine_attrLine, bodyOf]
  · simp [sampleTransfer, hasStatus, headerLine_okLine]

/-- A fetch that fails after two bytes leaves them in the buffer, and the next fetch returns them in
front of its own. -/
theorem failed_body_returned :
    ((Loader.after [sampleTransfer [97, 98] false]).get (sampleTransfer [99, 100] true)).1 =
        some (Dict.empty, [97, 98, 99, 100]) ∧
      ¬ReturnsOwn (sampleTransfer [99, 100] true) Dict.empty [97, 98, 99, 100] := by
  constructor
  · simp [Loader.get, Loader.perform, Loader.handleHeader, sampleTransfer, headerLine_okLine,
      HeaderLine.apply, Loader.handleBody, Loader.after, Loader.new]
  · intro h
    exact absurd h.2 (by decide)

end OpenDiamond.HttpLoader
