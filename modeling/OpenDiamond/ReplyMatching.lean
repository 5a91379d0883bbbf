import OpenDiamond.RpcClient

/-!
# Replies and the calls they answer

A reply carries the sequence number of its request. The callback-based client keeps the
calls that wait by their numbers and drops every other reply. The synchronous client takes
the next message for the reply to its call, whatever its number and status.
-/

namespace OpenDiamond.ReplyMatching

open Lib.Sockets Xdr Protocol Rpc RpcClient

/-! ## The synchronous client -/

/-- `_RPCClientConnection._call` of `client/rpc.py`. -/
def call (client : Client) (tag : Tag) (request : Option Value) : CallResult × Client :=
  match tag.send request client with
  | (.error result, client) => (result, client)
  | (.ok (), client) =>
    match client.getReply with
    | (.error result, client) => (result, client)
    | (.ok (status, data), client) => (tag.result status data, client)

/-- A call, and the stray messages that the server sends before the reply to it: requests,
and replies to no outstanding call. -/
structure Exchange where
  /-- The stub. -/
  tag : Tag
  /-- Its argument. -/
  request : Option Value
  /-- The stray messages that arrive before the call is made. -/
  early : List Frame
  /-- The stray messages that arrive after it. -/
  late : List Frame

/-- The messages in front of the reply. -/
def Exchange.strays (exchange : Exchange) : List Frame := exchange.early ++ exchange.late

/-- The call reaches the server, and the stray messages are messages. -/
structure Exchange.Valid (exchange : Exchange) : Prop where
  /-- The request can be encoded. -/
  sendable : ∃ body, exchange.tag.encodeRequest exchange.request = .ok body ∧ body.length < 2 ^ 32
  /-- The command number can be encoded. -/
  cmd : -2 ^ 31 ≤ exchange.tag.cmd ∧ exchange.tag.cmd < 2 ^ 31
  /-- The stray messages can be encoded. -/
  strays : ∀ frame ∈ exchange.strays, frame.InRange

/-- A reply without its sequence number. -/
structure Reply where
  /-- The status. -/
  status : ℤ
  /-- The command number. -/
  cmd : ℤ
  /-- The body. -/
  body : Bytes

/-- The reply message for a sequence number. -/
def Reply.frame (reply : Reply) (sequence : ℕ) : Frame :=
  ⟨sequence, reply.status, reply.cmd, reply.body⟩

/-- A reply that a server can send. -/
structure Reply.Valid (reply : Reply) : Prop where
  /-- It is not a request. -/
  answer : reply.status ≠ rpcPending
  /-- The status can be encoded. -/
  status : -2 ^ 31 ≤ reply.status ∧ reply.status < 2 ^ 31
  /-- The command number can be encoded. -/
  cmd : -2 ^ 31 ≤ reply.cmd ∧ reply.cmd < 2 ^ 31
  /-- The length can be encoded. -/
  body : reply.body.length < 2 ^ 32

/-- What the server sends: the replies in the order of the calls, each after its stray
messages. -/
def stream (sequence : ℕ) : List (Exchange × Reply) → List Frame
  | [] => []
  | (exchange, reply) :: rest =>
    exchange.strays ++ reply.frame sequence :: stream (sequence + 1) rest

/-- Calls one after the other. -/
def callAll (client : Client) : List Exchange → List CallResult × Client
  | [] => ([], client)
  | exchange :: rest =>
    let (result, client) := call client exchange.tag exchange.request
    let (results, client) := callAll client rest
    (result :: results, client)

/-- What the calls give when each is answered by the reply with its number. -/
def answers (exchanges : List (Exchange × Reply)) : List CallResult :=
  exchanges.map fun entry => entry.1.tag.result entry.2.status entry.2.body

/-- Whatever the replies say and however the bytes arrive, every call returns or raises
according to the reply with its number. -/
def Matched (exchanges : List Exchange) (trailing : List Frame) : Prop :=
  ∀ answered : List (Exchange × Reply), answered.map Prod.fst = exchanges →
    (∀ entry ∈ answered, entry.2.Valid) →
      ∀ sock : Socket, sock.incoming = wire (stream 0 answered ++ trailing) →
        (callAll ⟨0, sock⟩ exchanges).1 = answers answered

/-- A valid reply to a call whose number fits is a frame in range. -/
theorem Reply.Valid.inRange {reply : Reply} (h : reply.Valid) {sequence : ℕ}
    (hsequence : sequence < 2 ^ 32) : (reply.frame sequence).InRange :=
  ⟨hsequence, h.status, h.cmd, h.body⟩

/-- The next message is taken for the reply. -/
theorem getReply_next {client : Client} {frame : Frame} {rest : Bytes} (hrange : frame.InRange)
    (hincoming : client.sock.incoming = frame.wire ++ rest) :
    ∃ after : Client, client.getReply = (.ok (frame.status, frame.body), after) ∧
      after.sequence = client.sequence ∧ after.sock.incoming = rest := by
  obtain ⟨schedule, hread⟩ := readMessage_frame hrange hincoming
  have hrequest : frame.request = ⟨frame.header, frame.body⟩ := rfl
  have hheader : frame.header.status = frame.status := rfl
  by_cases hpending : frame.status = rpcPending
  · have herror : (-2 ^ 31 : ℤ) ≤ rpcEncodingError ∧ rpcEncodingError < 2 ^ 31 := by decide
    have hanswer : (Frame.mk frame.sequence rpcEncodingError frame.cmd []).InRange :=
      ⟨hrange.sequence, herror, hrange.cmd, Nat.pow_pos (by omega)⟩
    obtain ⟨head, hhead, _, _⟩ := hanswer.encodeHeader_eq
    have hfields : (Frame.mk frame.sequence rpcEncodingError frame.cmd []).header =
        ⟨frame.header.sequence, rpcEncodingError, frame.header.cmd, 0⟩ := rfl
    rw [hfields] at hhead
    refine ⟨⟨client.sequence, (client.sock.facing rest schedule).sendAll (head ++ [])⟩, ?_,
      rfl, rfl⟩
    simp only [Client.getReply, hread, hrequest, hheader, if_pos hpending, Client.sendMessage,
      hhead, Option.bind_eq_bind, Option.bind_some, Option.pure_def]
  · refine ⟨⟨client.sequence, client.sock.facing rest schedule⟩, ?_, rfl, rfl⟩
    simp only [Client.getReply, hread, hrequest, hheader, if_neg hpending]

/-- A call consumes exactly the next message and acts on it. -/
theorem call_next {exchange : Exchange} (hvalid : exchange.Valid) {client : Client} {frame : Frame}
    {rest : Bytes} (hsequence : client.sequence < 2 ^ 32) (hrange : frame.InRange)
    (hincoming : client.sock.incoming = frame.wire ++ rest) :
    ∃ after : Client, call client exchange.tag exchange.request =
        (exchange.tag.result frame.status frame.body, after) ∧
      after.sequence = client.sequence + 1 ∧ after.sock.incoming = rest := by
  obtain ⟨body, hencode, hlength⟩ := hvalid.sendable
  have hrequest : (Frame.mk client.sequence rpcPending exchange.tag.cmd body).InRange :=
    ⟨hsequence, rpcPending_inRange, hvalid.cmd, hlength⟩
  have hsend := Tag.send_eq hencode hrequest
  generalize hsent : Client.mk (client.sequence + 1) (client.sock.sendAll
    (Frame.mk client.sequence rpcPending exchange.tag.cmd body).wire) = sent at hsend
  have hincoming' : sent.sock.incoming = frame.wire ++ rest := by
    rw [← hsent]
    exact hincoming
  obtain ⟨after, hreply, hafter, hrest⟩ := getReply_next hrange hincoming'
  refine ⟨after, ?_, ?_, hrest⟩
  swap
  · rw [hafter, ← hsent]
  simp only [call, hsend, hreply]

/-- The stream of replies goes on with the numbers of the later calls. -/
theorem stream_append (sequence : ℕ) (first second : List (Exchange × Reply)) :
    stream sequence (first ++ second) =
      stream sequence first ++ stream (sequence + first.length) second := by
  induction first generalizing sequence with
  | nil => rfl
  | cons entry rest ih =>
    have hlength : sequence + (rest.length + 1) = sequence + 1 + rest.length := by omega
    simp [stream, ih, hlength]

/-- Calls without stray messages are matched, and leave what follows to the next calls. -/
theorem callAll_clean {answered : List (Exchange × Reply)}
    (hexchange : ∀ entry ∈ answered, entry.1.Valid ∧ entry.1.strays = [])
    (hreply : ∀ entry ∈ answered, entry.2.Valid) {client : Client}
    (hcount : client.sequence + answered.length ≤ 2 ^ 32) {rest : Bytes}
    (hincoming : client.sock.incoming = wire (stream client.sequence answered) ++ rest)
    (others : List Exchange) :
    ∃ after : Client, (callAll client (answered.map Prod.fst ++ others)).1 =
        answers answered ++ (callAll after others).1 ∧
      after.sequence = client.sequence + answered.length ∧ after.sock.incoming = rest := by
  induction answered generalizing client with
  | nil => exact ⟨client, rfl, rfl, hincoming⟩
  | cons entry tail ih =>
    rcases entry with ⟨exchange, reply⟩
    obtain ⟨hvalid, hclean⟩ := hexchange (exchange, reply) List.mem_cons_self
    have hreply' := hreply (exchange, reply) List.mem_cons_self
    rw [List.length_cons] at hcount
    have hsequence : client.sequence < 2 ^ 32 := by omega
    rw [stream, hclean, List.nil_append, wire_cons, List.append_assoc] at hincoming
    obtain ⟨after, hcall, hafter, hrest⟩ :=
      call_next hvalid hsequence (hreply'.inRange hsequence) hincoming
    rw [← hafter] at hrest
    obtain ⟨final, hresults, hfinal, hleft⟩ := ih
      (fun entry hentry => hexchange entry (List.mem_cons_of_mem _ hentry))
      (fun entry hentry => hreply entry (List.mem_cons_of_mem _ hentry))
      (by rw [hafter]; omega) hrest
    refine ⟨final, ?_, ?_, hleft⟩
    · simp only [List.map_cons, List.cons_append, callAll, hcall, hresults, answers]
      rfl
    · rw [hfinal, hafter, List.length_cons]
      omega

/-- The first call that has stray messages in front of its reply. -/
theorem exists_stray_split {exchanges : List Exchange}
    (h : ∃ exchange ∈ exchanges, exchange.strays ≠ []) :
    ∃ before exchange after, exchanges = before ++ exchange :: after ∧
      (∀ other ∈ before, other.strays = []) ∧ exchange.strays ≠ [] := by
  induction exchanges with
  | nil => simp at h
  | cons first rest ih =>
    by_cases hfirst : first.strays = []
    · have hrest : ∃ exchange ∈ rest, exchange.strays ≠ [] := by
        obtain ⟨exchange, hmem, hstrays⟩ := h
        rcases List.mem_cons.mp hmem with rfl | hmem
        · exact absurd hfirst hstrays
        · exact ⟨exchange, hmem, hstrays⟩
      obtain ⟨before, exchange, after, heq, hbefore, hstrays⟩ := ih hrest
      refine ⟨first :: before, exchange, after, by rw [heq, List.cons_append], ?_, hstrays⟩
      intro other hother
      rcases List.mem_cons.mp hother with rfl | hother
      · exact hfirst
      · exact hbefore other hother
    · exact ⟨[], first, rest, rfl, fun other hother => by simp at hother, hfirst⟩

/-- An empty reply with an error status. -/
def errorReply (status : ℤ) : Reply := ⟨status, 0, []⟩

/-- A reply with one of the errors of the protocol is valid. -/
theorem errorReply_valid {status : ℤ} (h : status = 500 ∨ status = 501) :
    (errorReply status).Valid := by
  rcases h with rfl | rfl <;> exact ⟨by decide, by decide, by decide, by decide⟩

/-- Some reply gives another result than a given one. -/
theorem exists_other_reply (tag : Tag) (result : CallResult) :
    ∃ reply : Reply, reply.Valid ∧ tag.result reply.status reply.body ≠ result := by
  by_cases h : tag.result 500 [] = result
  · refine ⟨errorReply 501, errorReply_valid (Or.inr rfl), ?_⟩
    rw [← h, Tag.result_raised (by decide : (500 : ℤ) ≠ 0)]
    rw [errorReply, Tag.result_raised (by decide : (501 : ℤ) ≠ 0)]
    simp
  · exact ⟨errorReply 500, errorReply_valid (Or.inl rfl), h⟩

/-- A call with a stray message in front of its reply acts on the stray message. -/
theorem callAll_stray {first last : List (Exchange × Reply)} {exchange : Exchange} {reply : Reply}
    {frame : Frame} {strays : List Frame} (hfront : exchange.strays = frame :: strays)
    (hexchange : exchange.Valid)
    (hfirst : ∀ entry ∈ first, entry.1.Valid ∧ entry.1.strays = [])
    (hreply : ∀ entry ∈ first, entry.2.Valid) (hcount : first.length < 2 ^ 32) {sock : Socket}
    {trailing : List Frame}
    (hincoming : sock.incoming = wire (stream 0 (first ++ (exchange, reply) :: last) ++ trailing)) :
    ∃ others, (callAll ⟨0, sock⟩ (first.map Prod.fst ++ exchange :: last.map Prod.fst)).1 =
      answers first ++ exchange.tag.result frame.status frame.body :: others := by
  have hincoming' : sock.incoming = wire (stream 0 first) ++ (frame.wire ++
      wire (strays ++ reply.frame first.length :: stream (first.length + 1) last ++
        trailing)) := by
    rw [hincoming, stream_append, stream, hfront]
    simp
  have hstart : (Client.mk 0 sock).sequence + first.length ≤ 2 ^ 32 := by
    dsimp only
    omega
  obtain ⟨client, hclean, hsequence, hrest⟩ :=
    callAll_clean hfirst hreply hstart hincoming' (exchange :: last.map Prod.fst)
  have hbound : client.sequence < 2 ^ 32 := by
    rw [hsequence]
    dsimp only
    omega
  have hframe : frame.InRange := hexchange.strays frame (by simp [hfront])
  obtain ⟨next, hcall, _, _⟩ := call_next hexchange hbound hframe hrest
  refine ⟨(callAll next (last.map Prod.fst)).1, ?_⟩
  rw [hclean]
  simp only [callAll, hcall]

/-- Every call is answered with an error. -/
def refused (exchanges : List Exchange) : List (Exchange × Reply) :=
  exchanges.map fun exchange => (exchange, errorReply 500)

/-- Refusing calls keeps the calls. -/
@[simp] theorem map_fst_refused (exchanges : List Exchange) :
    (refused exchanges).map Prod.fst = exchanges := by
  simp [refused, Function.comp_def]

/-- A refused call is one of the calls, with a valid reply. -/
theorem valid_of_mem_refused {exchanges : List Exchange} {entry : Exchange × Reply}
    (h : entry ∈ refused exchanges) : entry.1 ∈ exchanges ∧ entry.2.Valid := by
  obtain ⟨exchange, hexchange, rfl⟩ := List.mem_map.mp h
  exact ⟨hexchange, errorReply_valid (Or.inl rfl)⟩

/-- The first stray message is taken for a reply, so that the call behind it does not act on its own
one for some contents of the replies. -/
theorem not_matched_of_stray {before after : List Exchange} {exchange : Exchange}
    (trailing : List Frame) (hvalid : ∀ other ∈ before ++ exchange :: after, other.Valid)
    (hcount : (before ++ exchange :: after).length ≤ 2 ^ 32)
    (hbefore : ∀ other ∈ before, other.strays = []) (hstrays : exchange.strays ≠ []) :
    ¬Matched (before ++ exchange :: after) trailing := by
  intro hmatched
  obtain ⟨frame, strays, hfront⟩ := List.exists_cons_of_ne_nil hstrays
  -- a reply that does not give what the stray message gives
  obtain ⟨reply, hreply, hother⟩ :=
    exists_other_reply exchange.tag (exchange.tag.result frame.status frame.body)
  have hall : ∀ entry ∈ refused before ++ (exchange, reply) :: refused after,
      entry.2.Valid := by
    intro entry hentry
    rcases List.mem_append.mp hentry with hentry | hentry
    · exact (valid_of_mem_refused hentry).2
    · rcases List.mem_cons.mp hentry with rfl | hentry
      · exact hreply
      · exact (valid_of_mem_refused hentry).2
  let sock : Socket :=
    ⟨wire (stream 0 (refused before ++ (exchange, reply) :: refused after) ++ trailing),
      fun _ => 0, [], false⟩
  have hresults := hmatched _ (by simp) hall sock rfl
  have hfirst : ∀ entry ∈ refused before, entry.1.Valid ∧ entry.1.strays = [] := by
    intro entry hentry
    have hmem := (valid_of_mem_refused hentry).1
    exact ⟨hvalid entry.1 (List.mem_append_left _ hmem), hbefore entry.1 hmem⟩
  have hlength : (refused before).length < 2 ^ 32 := by
    rw [List.length_append, List.length_cons] at hcount
    rw [refused, List.length_map]
    omega
  have hexchange : exchange.Valid := hvalid exchange (by simp)
  obtain ⟨others, hstray⟩ := callAll_stray hfront hexchange hfirst
    (fun entry hentry => (valid_of_mem_refused hentry).2) hlength (rfl : sock.incoming = _)
  rw [map_fst_refused, map_fst_refused, hresults] at hstray
  simp only [answers, List.map_append, List.map_cons, List.append_cancel_left_eq,
    List.cons.injEq] at hstray
  exact hother hstray.1

/-- The synchronous client matches replies to calls exactly when no stray message comes before the
last reply; the client takes whatever message comes next for the reply, and never looks at its
number. -/
theorem matched_iff {exchanges : List Exchange} (trailing : List Frame)
    (hvalid : ∀ exchange ∈ exchanges, exchange.Valid) (hcount : exchanges.length ≤ 2 ^ 32) :
    Matched exchanges trailing ↔ ∀ exchange ∈ exchanges, exchange.strays = [] := by
  constructor
  · intro hmatched
    by_contra hcon
    simp only [not_forall] at hcon
    obtain ⟨stray, hmem, hstray⟩ := hcon
    obtain ⟨before, exchange, after, rfl, hbefore, hstrays⟩ :=
      exists_stray_split ⟨stray, hmem, hstray⟩
    exact not_matched_of_stray trailing hvalid hcount hbefore hstrays hmatched
  · intro hclean answered hentries hreply sock hincoming
    rw [wire_append] at hincoming
    subst hentries
    rw [List.length_map] at hcount
    have hexchange : ∀ entry ∈ answered, entry.1.Valid ∧ entry.1.strays = [] := by
      intro entry hentry
      have hentry' : entry.1 ∈ answered.map Prod.fst := List.mem_map_of_mem hentry
      exact ⟨hvalid _ hentry', hclean _ hentry'⟩
    have hstart : (Client.mk 0 sock).sequence + answered.length ≤ 2 ^ 32 := by
      dsimp only
      omega
    obtain ⟨after, hresults, _, _⟩ := callAll_clean hexchange hreply hstart hincoming []
    rw [List.append_nil] at hresults
    rw [hresults]
    simp [callAll]

/-- A call of `get_object` with a request of the server in front of the reply. -/
def strayExchange (late : List Frame) : Exchange := ⟨stub .getObject, none, [], late⟩

/-- A request that a server sends to its client. -/
def strayRequest : Frame := ⟨7, rpcPending, 2, []⟩

/-- An exchange with stray frames behind its reply is valid if the frames are in range. -/
theorem strayExchange_valid {late : List Frame} (h : ∀ frame ∈ late, frame.InRange) :
    (strayExchange late).Valid := by
  constructor
  · exact ⟨[], rfl, Nat.pow_pos (by omega)⟩
  · have hcmd : -2 ^ 31 ≤ (stub .getObject).cmd ∧ (stub .getObject).cmd < 2 ^ 31 := by decide
    exact hcmd
  · intro frame hframe
    exact h frame hframe

/-- Three calls with replies of their own are matched, with a request of the server behind the last
reply. -/
theorem matched_iff_strayless :
    Matched (List.replicate 3 (strayExchange [])) [strayRequest] ∧
      (strayExchange []).strays = [] := by
  have hvalid : ∀ exchange ∈ List.replicate 3 (strayExchange []), exchange.Valid := by
    intro exchange hexchange
    rw [List.eq_of_mem_replicate hexchange]
    exact strayExchange_valid (by simp)
  refine ⟨(matched_iff [strayRequest] hvalid (by decide)).mpr ?_, rfl⟩
  intro exchange hexchange
  rw [List.eq_of_mem_replicate hexchange]
  rfl

/-- A request of the server comes before the reply: the client answers it, and then takes the same
message for the reply. -/
theorem strayRequest_not_matched : ¬ Matched [strayExchange [strayRequest]] [] := by
  intro hmatched
  have hrange : strayRequest.InRange := ⟨by decide, by decide, by decide, by decide⟩
  have hvalid : (strayExchange [strayRequest]).Valid := by
    apply strayExchange_valid
    intro frame hframe
    rw [List.mem_singleton.mp hframe]
    exact hrange
  have hreply : ∀ entry ∈ [(strayExchange [strayRequest], errorReply 500)], entry.2.Valid := by
    intro entry hentry
    rw [List.mem_singleton.mp hentry]
    exact errorReply_valid (Or.inl rfl)
  let sock : Socket :=
    ⟨wire (stream 0 [(strayExchange [strayRequest], errorReply 500)] ++ []), fun _ => 0, [], false⟩
  have hresults := hmatched _ rfl hreply sock rfl
  have hincoming : (Client.mk 0 sock).sock.incoming =
      strayRequest.wire ++ wire [(errorReply 500).frame 0] := rfl
  obtain ⟨after, hcall, _, _⟩ := call_next hvalid (by decide) hrange hincoming
  simp only [callAll, hcall, answers, List.map_cons, List.map_nil, List.cons.injEq] at hresults
  have hstray : (strayExchange [strayRequest]).tag.result strayRequest.status [] = _ :=
    Tag.result_raised (by decide)
  have hanswer : (strayExchange [strayRequest]).tag.result (errorReply 500).status [] = _ :=
    Tag.result_raised (by decide)
  have heq := hstray.symm.trans (hresults.1.trans hanswer)
  have hstatus : strayRequest.status = (errorReply 500).status := (CallResult.raised.inj heq).2
  exact absurd hstatus (by decide)

/-! ## The callback-based client -/

/-- What is sent behind the header of a message. -/
inductive Body where
  /-- An encoded request. -/
  | bytes (body : Bytes)
  /-- A text. -/
  | text (body : String)

/-- The body can be added to the bytes of the header; for a text that is a `TypeError`. -/
def Body.addable : Body → Bool
  | .bytes _ => true
  | .text _ => false

/-- The default body of `_send_message`, which `_call` also gives to a call without a request. -/
def defaultBody : Body := .text ""

/-- The body of a call: the bytes of its request, if it has one. -/
def requestBody (request : Option Value) (encoded : Bytes) : Body :=
  if request.isSome then .bytes encoded else defaultBody

/-- A `_RPCClientConnection` of `blaster/rpc.py` with an open stream. -/
structure Blaster where
  /-- The next number of `_sequence`. -/
  sequence : ℕ
  /-- `_pending`, by sequence number: the stub of a call, or nothing when its coroutine has ended
  before it could wait. -/
  pending : ℕ → Option (Option Tag)
  /-- The calls that have been called back, with their outcomes. -/
  finished : List (ℕ × CallResult)
  /-- `_reply_handler` has ended. -/
  ended : Bool

/-- A stub of `blaster/rpc.py` and `_call` up to the wait for the reply, or to the `TypeError` of a
body that cannot be added. Before that a request that is refused takes no number. -/
def Blaster.call (blaster : Blaster) (tag : Tag) (request : Option Value) : Blaster :=
  match tag.encodeRequest request with
  | .error _ => blaster
  | .ok encoded =>
    { blaster with
      sequence := blaster.sequence + 1
      pending := Function.update blaster.pending blaster.sequence
        (some (if (requestBody request encoded).addable then some tag else none)) }

/-- `_reply_handler` on one message. The callback of a coroutine that has ended does nothing. -/
def Blaster.receive (blaster : Blaster) (frame : Frame) : Blaster :=
  if blaster.ended then blaster
  else if frame.status = rpcPending then
    -- the answer has the default body
    if defaultBody.addable then blaster else { blaster with ended := true }
  else
    match blaster.pending frame.sequence with
    | none => blaster
    | some waiting =>
      { blaster with
        pending := Function.update blaster.pending frame.sequence none
        finished := blaster.finished ++
          (waiting.map fun tag => (frame.sequence, tag.result frame.status frame.body)).toList }

/-- A call with the messages up to its reply. -/
def Blaster.exchange (blaster : Blaster) (entry : Exchange × Reply) : Blaster :=
  let called := (entry.1.early.foldl Blaster.receive blaster).call entry.1.tag entry.1.request
  (entry.1.late.foldl Blaster.receive called).receive (entry.2.frame blaster.sequence)

/-- The stray messages are replies to no outstanding call. -/
structure Exchange.StrayReplies (exchange : Exchange) (sequence : ℕ) : Prop where
  /-- No call is outstanding before the call is made. -/
  early : ∀ frame ∈ exchange.early, frame.status ≠ rpcPending
  /-- Only this call is outstanding after it. -/
  late : ∀ frame ∈ exchange.late, frame.status ≠ rpcPending ∧ frame.sequence ≠ sequence

/-- A reply to no outstanding call is dropped. -/
theorem Blaster.receive_stray {blaster : Blaster} {frame : Frame}
    (hstatus : frame.status ≠ rpcPending) (hpending : blaster.pending frame.sequence = none) :
    blaster.receive frame = blaster := by
  simp only [receive, if_neg hstatus, hpending, ite_self]

/-- Replies that nobody waits for leave the callback-based client as it is. -/
theorem Blaster.foldl_receive_stray {blaster : Blaster} {frames : List Frame}
    (h : ∀ frame ∈ frames, frame.status ≠ rpcPending ∧ blaster.pending frame.sequence = none) :
    frames.foldl Blaster.receive blaster = blaster := by
  induction frames with
  | nil => rfl
  | cons frame rest ih =>
    have hframe := h frame List.mem_cons_self
    rw [List.foldl_cons, receive_stray hframe.1 hframe.2]
    exact ih fun other hother => h other (List.mem_cons_of_mem _ hother)

/-- Between two calls nothing is outstanding. -/
structure Blaster.Idle (blaster : Blaster) : Prop where
  /-- No call waits. -/
  pending : ∀ sequence, blaster.pending sequence = none
  /-- The handler runs. -/
  running : blaster.ended = false

/-- What the calls with the numbers from `sequence` on give when each is answered by its own reply:
nothing for those without a request. -/
def numbered (sequence : ℕ) : List (Exchange × Reply) → List (ℕ × CallResult)
  | [] => []
  | entry :: rest =>
    (if entry.1.request.isSome then
      [(sequence, entry.1.tag.result entry.2.status entry.2.body)] else []) ++
      numbered (sequence + 1) rest

/-- A call with a request gets the reply with its number, and no other call gets one. -/
theorem Blaster.Idle.exchange {blaster : Blaster} (hidle : blaster.Idle)
    {entry : Exchange × Reply} (hvalid : entry.1.Valid)
    (hstrays : entry.1.StrayReplies blaster.sequence) (hreply : entry.2.Valid) :
    blaster.exchange entry = ⟨blaster.sequence + 1, blaster.pending, blaster.finished ++
      numbered blaster.sequence [entry], false⟩ := by
  obtain ⟨encoded, hencode, -⟩ := hvalid.sendable
  have hearly : entry.1.early.foldl Blaster.receive blaster = blaster :=
    foldl_receive_stray fun frame hframe => ⟨hstrays.early frame hframe, hidle.pending _⟩
  have hcall : blaster.call entry.1.tag entry.1.request =
      { blaster with
        sequence := blaster.sequence + 1
        pending := Function.update blaster.pending blaster.sequence
          (some (if entry.1.request.isSome then some entry.1.tag else none)) } := by
    rw [call, hencode]
    cases entry.1.request <;> rfl
  have hlate : entry.1.late.foldl Blaster.receive (blaster.call entry.1.tag entry.1.request) =
      blaster.call entry.1.tag entry.1.request := by
    apply foldl_receive_stray
    intro frame hframe
    obtain ⟨hstatus, hsequence⟩ := hstrays.late frame hframe
    refine ⟨hstatus, ?_⟩
    simp only [hcall, Function.update_of_ne hsequence, hidle.pending]
  have hrestored : Function.update blaster.pending blaster.sequence none = blaster.pending := by
    rw [← hidle.pending blaster.sequence, Function.update_eq_self]
  simp only [Blaster.exchange, hearly, hlate]
  rw [hcall]
  cases hrequest : entry.1.request <;>
    simp [receive, hidle.running, hreply.answer, Reply.frame, hrestored, numbered, hrequest]

/-- The stray messages of every call are replies to no outstanding call. -/
def StrayRepliesOnly (sequence : ℕ) : List (Exchange × Reply) → Prop
  | [] => True
  | entry :: rest => entry.1.StrayReplies sequence ∧ StrayRepliesOnly (sequence + 1) rest

/-- Stray replies change the outcome of no call of the callback-based client, and the calls
without a request, which end with a `TypeError`, have none. -/
theorem Blaster.Idle.finished_foldl {answered : List (Exchange × Reply)} {blaster : Blaster}
    (hidle : blaster.Idle) (hvalid : ∀ entry ∈ answered, entry.1.Valid)
    (hstrays : StrayRepliesOnly blaster.sequence answered)
    (hreply : ∀ entry ∈ answered, entry.2.Valid) :
    (answered.foldl Blaster.exchange blaster).finished =
      blaster.finished ++ numbered blaster.sequence answered := by
  induction answered generalizing blaster with
  | nil => simp [numbered]
  | cons entry rest ih =>
    have hstep := hidle.exchange (hvalid entry List.mem_cons_self) hstrays.1
      (hreply entry List.mem_cons_self)
    have hidle' : (blaster.exchange entry).Idle := by
      rw [hstep]
      exact ⟨hidle.pending, rfl⟩
    have hstrays' : StrayRepliesOnly (blaster.exchange entry).sequence rest := by
      rw [hstep]
      exact hstrays.2
    have hrest := ih hidle' (fun other hother => hvalid other (List.mem_cons_of_mem _ hother))
      hstrays' fun other hother => hreply other (List.mem_cons_of_mem _ hother)
    rw [List.foldl_cons, hrest, hstep]
    simp [numbered]

end OpenDiamond.ReplyMatching
