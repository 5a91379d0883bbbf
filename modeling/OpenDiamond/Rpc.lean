import OpenDiamond.Lib.Sockets
import OpenDiamond.Protocol

/-!
# RPC connections

A message is a header of sixteen bytes and a body whose length the header gives. The
server end receives requests, skipping every other message, and answers each with one
reply: `dispatch` looks the command up, decodes the request, calls the handler, and
sends the encoded result or the code of the error. Whatever way the bytes arrive,
successive calls of `dispatch` answer exactly the requests, in order.
-/

namespace OpenDiamond.Rpc

open Lib.BigEndian Lib.OrderedDict Lib.Sockets Lib.Streams Xdr Protocol

/-- The status of a message that is a request. -/
def rpcPending : ℤ := -1

/-- `RPCEncodingError.code`. -/
def rpcEncodingError : ℤ := -2

/-- `RPCProcedureUnavailable.code`. -/
def rpcProcedureUnavailable : ℤ := -3

/-- `RPCHeader.ENCODED_LENGTH`. -/
def encodedLength : ℕ := 16

/-! ## Headers -/

/-- The attributes of an `RPCHeader`. -/
structure Header where
  /-- The number that ties a reply to its request. -/
  sequence : ℕ
  /-- `rpcPending` for a request, else zero or the code of an error. -/
  status : ℤ
  /-- The number of the procedure. -/
  cmd : ℤ
  /-- The length of the body. -/
  datalen : ℕ
deriving DecidableEq, Repr

/-- The attributes as the struct class keeps them. -/
def Header.fields (hdr : Header) : List (String × Value) :=
  [("sequence", .int hdr.sequence), ("status", .int hdr.status), ("cmd", .int hdr.cmd),
    ("datalen", .int hdr.datalen)]

/-- Read the attributes of a decoded header. -/
def Header.ofFields (fields : List (String × Value)) : Option Header := do
  let .int sequence ← find fields "sequence" | none
  let .int status ← find fields "status" | none
  let .int cmd ← find fields "cmd" | none
  let .int datalen ← find fields "datalen" | none
  return ⟨sequence.toNat, status, cmd, datalen.toNat⟩

/-- `RPCHeader.encode`. -/
def encodeHeader (hdr : Header) : Option Bytes := encode rpcHeader hdr.fields

/-- `RPCHeader.decode`. -/
def decodeHeader (data : Bytes) : Except DecodeError Header := do
  let .struct _ fields ← decode rpcHeader data | throw .encoding
  match Header.ofFields fields with
  | some hdr => return hdr
  | none => throw .encoding

/-! ## The server end -/

/-- What a call of the connection raises. -/
inductive Failure where
  /-- `ConnectionFailure`; the socket has been closed. -/
  | connection
  /-- Data that could not be decoded and is not answered. -/
  | decoding (error : DecodeError)
  /-- `XDREncodingError` from a reply. -/
  | encoding
  /-- `AssertionError` or `TypeError` for a reply that is not of the declared class. -/
  | assertion
  /-- An exception of the handler that is not an `RPCError`. -/
  | handler
deriving DecidableEq, Repr

/-- `_RPCRequest`. -/
structure Request where
  /-- The header. -/
  hdr : Header
  /-- The body. -/
  data : Bytes

/-- `_RPCRequest.make_reply_header`. -/
def Request.makeReplyHeader (request : Request) (status : ℤ) (data : Bytes) : Header :=
  ⟨request.hdr.sequence, status, request.hdr.cmd, data.length⟩

/-- `read_bytes` of `_receive`. -/
def readBytes (sock : Socket) (count : ℕ) : Except Failure Bytes × Socket :=
  match sock.readExactly count with
  | (some data, sock) => (.ok data, sock)
  | (none, sock) => (.error .connection, sock)

/-- One round of the loop of `_receive`: a whole message. -/
def readMessage (sock : Socket) : Except Failure Request × Socket :=
  match readBytes sock encodedLength with
  | (.error failure, sock) => (.error failure, sock)
  | (.ok head, sock) =>
    match decodeHeader head with
    | .error error => (.error (.decoding error), sock)
    | .ok hdr =>
      match readBytes sock hdr.datalen with
      | (.error failure, sock) => (.error failure, sock)
      | (.ok data, sock) => (.ok ⟨hdr, data⟩, sock)

/-- What was read is missing from the socket, and nothing else. -/
theorem readBytes_incoming_length {sock sock' : Socket} {count : ℕ} {data : Bytes}
    (h : readBytes sock count = (.ok data, sock')) :
    sock'.incoming.length + count = sock.incoming.length := by
  rcases Nat.lt_or_ge sock.incoming.length count with hshort | hlong
  · obtain ⟨schedule, hread⟩ := Socket.readExactly_eq_none hshort
    simp [readBytes, hread] at h
  · obtain ⟨schedule, hread⟩ := Socket.readExactly_eq_some hlong
    simp only [readBytes, hread, Prod.mk.injEq] at h
    rw [← h.2, Socket.skip, List.length_drop]
    omega

/-- A message takes at least its header off the stream. -/
theorem readMessage_incoming_length {sock sock' : Socket} {request : Request}
    (h : readMessage sock = (.ok request, sock')) :
    sock'.incoming.length < sock.incoming.length := by
  unfold readMessage at h
  split at h
  · cases h
  · rename_i head sock₁ hhead
    have hlen := readBytes_incoming_length hhead
    split at h
    · cases h
    · split at h
      · cases h
      · rename_i hdr _ data sock₂ hdata
        have hlen' := readBytes_incoming_length hdata
        cases h
        rw [encodedLength] at hlen
        omega

/-- `_receive`: the next request, skipping all other messages. -/
def receive (sock : Socket) : Except Failure Request × Socket :=
  match _h : readMessage sock with
  | (.error failure, sock') => (.error failure, sock')
  | (.ok request, sock') =>
    if request.hdr.status = rpcPending then (.ok request, sock') else receive sock'
termination_by sock.incoming.length
decreasing_by exact readMessage_incoming_length (by assumption)

/-- `_reply`. -/
def reply (sock : Socket) (request : Request) (status : ℤ) (body : Bytes) :
    Except Failure Unit × Socket :=
  match encodeHeader (request.makeReplyHeader status body) with
  | none => (.error .encoding, sock)
  | some hdr => (.ok (), sock.sendAll (hdr ++ body))

/-- How a handler ends. -/
inductive Outcome where
  /-- It returns a value, or nothing. -/
  | returned (ret : Option Value)
  /-- It raises the `RPCError` with a code. -/
  | raised (code : ℤ)
  /-- It raises another exception. -/
  | crashed

/-- A method tagged with `RPCHandlers.handler`, over the state of its object. -/
structure Procedure (σ : Type) where
  /-- `rpc_request_class`. -/
  requestClass : Option StructClass
  /-- `rpc_reply_class`. -/
  replyClass : Option StructClass
  /-- The method, given the decoded request if there is a request class. -/
  call : Option Value → σ → Outcome × σ

/-- An `RPCHandlers` object: the methods by command number. -/
structure Handlers (σ : Type) where
  /-- `get_handler`. -/
  getHandler : ℤ → Option (Procedure σ)

/-- The server end of a connection with the state of its handlers. -/
structure Server (σ : Type) where
  /-- The socket. -/
  sock : Socket
  /-- The state of the handler object. -/
  state : σ

variable {σ : Type}

/-- The argument of the handler. -/
def Procedure.decodeRequest (procedure : Procedure σ) (data : Bytes) :
    Except DecodeError (Option Value) :=
  match procedure.requestClass with
  | none => .ok none
  | some cls => some <$> decode cls data

/-- The body of the reply to what the handler returned. -/
def Procedure.encodeReply (procedure : Procedure σ) (ret : Option Value) :
    Except Failure Bytes :=
  match ret, procedure.replyClass with
  | none, none => .ok []
  | none, some _ => .error .assertion
  | some (.struct cls fields), some declared =>
    if cls = declared.name then
      match encode declared fields with
      | some body => .ok body
      | none => .error .encoding
    else .error .assertion
  | some _, _ => .error .assertion

/-- The status and the body that `dispatch` replies to a request. -/
def respond (handlers : Handlers σ) (request : Request) (state : σ) :
    Except Failure (ℤ × Bytes) × σ :=
  match handlers.getHandler request.hdr.cmd with
  | none => (.ok (rpcProcedureUnavailable, []), state)
  | some procedure =>
    match procedure.decodeRequest request.data with
    | .error .unicode => (.error (.decoding .unicode), state)
    | .error _ => (.ok (rpcEncodingError, []), state)
    | .ok argument =>
      match procedure.call argument state with
      | (.raised code, state) => (.ok (code, []), state)
      | (.crashed, state) => (.error .handler, state)
      | (.returned ret, state) =>
        match procedure.encodeReply ret with
        | .error failure => (.error failure, state)
        | .ok body => (.ok (0, body), state)

/-- The part of `dispatch` after the request has been received. -/
def handle (handlers : Handlers σ) (request : Request) (server : Server σ) :
    Except Failure Unit × Server σ :=
  match respond handlers request server.state with
  | (.error failure, state) => (.error failure, { server with state := state })
  | (.ok (status, body), state) =>
    let (result, sock) := reply server.sock request status body
    (result, { sock := sock, state := state })

/-- `RPCConnection.dispatch`. -/
def dispatch (handlers : Handlers σ) (server : Server σ) : Except Failure Unit × Server σ :=
  match receive server.sock with
  | (.error failure, sock) => (.error failure, { server with sock := sock })
  | (.ok request, sock) => handle handlers request { server with sock := sock }

/-- Successive calls of `dispatch`, up to the first that raises. -/
def dispatchTimes (handlers : Handlers σ) : ℕ → Server σ → Except Failure Unit × Server σ
  | 0, server => (.ok (), server)
  | count + 1, server =>
    match dispatch handlers server with
    | (.error failure, server) => (.error failure, server)
    | (.ok (), server) => dispatchTimes handlers count server

/-! ## Messages on the stream -/

/-- A message: the header fields that are free, and the body. -/
structure Frame where
  /-- The sequence number. -/
  sequence : ℕ
  /-- The status. -/
  status : ℤ
  /-- The command number. -/
  cmd : ℤ
  /-- The body. -/
  body : Bytes
deriving DecidableEq, Repr

/-- The header of a message. -/
def Frame.header (frame : Frame) : Header :=
  ⟨frame.sequence, frame.status, frame.cmd, frame.body.length⟩

/-- The header fields of a message are within their widths. -/
structure Frame.InRange (frame : Frame) : Prop where
  sequence : frame.sequence < 2 ^ 32
  status : -2 ^ 31 ≤ frame.status ∧ frame.status < 2 ^ 31
  cmd : -2 ^ 31 ≤ frame.cmd ∧ frame.cmd < 2 ^ 31
  body : frame.body.length < 2 ^ 32

/-- The bytes of a message: its encoded header and its body. -/
def Frame.wire (frame : Frame) : Bytes := (encodeHeader frame.header).getD [] ++ frame.body

/-- The bytes of messages one after the other. -/
def wire (frames : List Frame) : Bytes := frames.flatMap Frame.wire

/-- The message is a request. -/
def Frame.isRequest (frame : Frame) : Bool := frame.status = rpcPending

/-- What the server end takes a message for. -/
def Frame.request (frame : Frame) : Request := ⟨frame.header, frame.body⟩

@[simp] theorem wire_nil : wire [] = [] := rfl

@[simp] theorem wire_cons (frame : Frame) (frames : List Frame) :
    wire (frame :: frames) = frame.wire ++ wire frames := rfl

/-- Frames in a row are sent in a row. -/
@[simp] theorem wire_append (frames frames' : List Frame) :
    wire (frames ++ frames') = wire frames ++ wire frames' := List.flatMap_append

/-- A frame is a request exactly when its status is the one for pending calls. -/
theorem Frame.isRequest_iff (frame : Frame) :
    frame.isRequest = true ↔ frame.request.hdr.status = rpcPending :=
  decide_eq_true_iff

/-- The header of a frame in range fits its fields of 32 bits. -/
theorem Frame.InRange.fits_fields {frame : Frame} (h : frame.InRange) :
    Fits Encodable rpcHeader.handler (.struct rpcHeader.name frame.header.fields) := by
  have hsequence := h.sequence
  have hbody := h.body
  refine ⟨rfl, rfl, ⟨_, rfl, ?_⟩, ⟨_, rfl, h.status⟩, ⟨_, rfl, h.cmd⟩, ⟨_, rfl, ?_⟩, trivial⟩
  · show (0 : ℤ) ≤ frame.sequence ∧ (frame.sequence : ℤ) < 2 ^ 32
    omega
  · show (0 : ℤ) ≤ frame.body.length ∧ (frame.body.length : ℤ) < 2 ^ 32
    omega

/-- The header has four numbers, of which only the status has a sign. -/
theorem rpcHeader_members : rpcHeader.members =
    .cons (some "sequence") .uint (.cons (some "status") .int (.cons (some "cmd") .int
      (.cons (some "datalen") .uint .nil))) := rfl

/-- The four words of an encoded header. -/
theorem Frame.InRange.encodeHeader_words {frame : Frame} (h : frame.InRange) :
    encodeHeader frame.header = some (toBytes 4 frame.sequence ++
      (toBytes 4 (unsigned 32 frame.status) ++ (toBytes 4 (unsigned 32 frame.cmd) ++
        (toBytes 4 frame.body.length ++ [])))) := by
  rw [encodeHeader, encode, rpcHeader_members]
  refine encodeXdr_attr rfl (pack_uint h.sequence) ?_
  refine encodeXdr_attr rfl (pack_int h.status) ?_
  refine encodeXdr_attr rfl (pack_int h.cmd) ?_
  refine encodeXdr_attr rfl (pack_uint h.body) ?_
  rw [encodeXdr]

/-- A sequence number beyond its width has no header. -/
theorem encodeHeader_eq_none {hdr : Header} (h : 2 ^ 32 ≤ hdr.sequence) :
    encodeHeader hdr = none := by
  rw [encodeHeader, encode, rpcHeader_members]
  exact encodeXdr_attr_of_none rfl (pack_uint_of_ge h)

/-- A header in range is encoded in sixteen bytes, and decoding them returns it. -/
theorem Frame.InRange.encodeHeader_eq {frame : Frame} (h : frame.InRange) :
    ∃ bytes, encodeHeader frame.header = some bytes ∧ bytes.length = encodedLength ∧
      decodeHeader bytes = .ok frame.header := by
  obtain ⟨bytes, hencode, hread⟩ := encode_reads h.fits_fields
  have hdecode := decode_of_reads hread
  refine ⟨bytes, hencode, ?_, ?_⟩
  · have hwords := h.encodeHeader_words
    rw [encodeHeader, hencode, Option.some.injEq] at hwords
    rw [hwords]
    simp only [List.length_append, toBytes_length, List.length_nil, encodedLength]
  · rw [decodeHeader, hdecode]
    rfl

/-- What stands first in the socket is read, in whatever pieces it comes. -/
theorem readBytes_append {sock : Socket} {data rest : Bytes} (h : sock.incoming = data ++ rest) :
    ∃ schedule, readBytes sock data.length = (.ok data, sock.facing rest schedule) := by
  obtain ⟨schedule, hread⟩ := Socket.readExactly_append h
  exact ⟨schedule, by rw [readBytes, hread]⟩

/-- A message in front of the stream is read as a whole. -/
theorem readMessage_frame {sock : Socket} {frame : Frame} {rest : Bytes} (h : frame.InRange)
    (hincoming : sock.incoming = frame.wire ++ rest) :
    ∃ schedule, readMessage sock = (.ok frame.request, sock.facing rest schedule) := by
  obtain ⟨head, hencode, hlength, hdecode⟩ := h.encodeHeader_eq
  rw [Frame.wire, hencode, Option.getD_some, List.append_assoc] at hincoming
  obtain ⟨schedule, hhead⟩ := readBytes_append hincoming
  rw [hlength] at hhead
  obtain ⟨schedule', hbody⟩ :=
    readBytes_append (sock.facing_incoming (frame.body ++ rest) schedule)
  refine ⟨schedule', ?_⟩
  have hdatalen : frame.header.datalen = frame.body.length := rfl
  simp only [readMessage, hhead, hdecode, hdatalen, hbody]
  rfl

/-- Receiving is reading a message, and going on past the replies to the first request. -/
theorem receive_eq (sock : Socket) : receive sock =
    match readMessage sock with
    | (.error failure, sock') => (.error failure, sock')
    | (.ok request, sock') =>
      if request.hdr.status = rpcPending then (.ok request, sock') else receive sock' := by
  rw [receive]
  split <;> rename_i heq <;> rw [heq]

/-- A message that is not a request is skipped with its body. -/
theorem receive_skip {sock : Socket} {frame : Frame} {rest : Bytes} (h : frame.InRange)
    (hskip : frame.isRequest = false) (hincoming : sock.incoming = frame.wire ++ rest) :
    ∃ schedule, receive sock = receive (sock.facing rest schedule) := by
  obtain ⟨schedule, hread⟩ := readMessage_frame h hincoming
  have hstatus : ¬ frame.request.hdr.status = rpcPending := by
    rw [← frame.isRequest_iff, hskip]
    exact Bool.false_ne_true
  refine ⟨schedule, ?_⟩
  rw [receive_eq, hread]
  exact if_neg hstatus

/-- The messages before a request are skipped, and the request is received. -/
theorem receive_request {skipped : List Frame} {frame : Frame} {rest : Bytes} {sock : Socket}
    (hskipped : ∀ other ∈ skipped, other.InRange ∧ other.isRequest = false)
    (h : frame.InRange) (hrequest : frame.isRequest = true)
    (hincoming : sock.incoming = wire skipped ++ (frame.wire ++ rest)) :
    ∃ schedule, receive sock = (.ok frame.request, sock.facing rest schedule) := by
  induction skipped generalizing sock with
  | nil =>
    rw [wire_nil, List.nil_append] at hincoming
    obtain ⟨schedule, hread⟩ := readMessage_frame h hincoming
    refine ⟨schedule, ?_⟩
    rw [receive_eq, hread]
    exact if_pos (frame.isRequest_iff.mp hrequest)
  | cons other skipped ih =>
    obtain ⟨hother, hskip⟩ := hskipped other List.mem_cons_self
    rw [wire_cons, List.append_assoc] at hincoming
    obtain ⟨schedule, heq⟩ := receive_skip hother hskip hincoming
    obtain ⟨schedule', hreceive⟩ :=
      ih (fun later hlater => hskipped later (List.mem_cons_of_mem other hlater))
        (sock.facing_incoming _ schedule)
    exact ⟨schedule', heq.trans hreceive⟩

/-- Without a request on the stream, nothing is received and nothing is sent. -/
theorem receive_end {skipped : List Frame} {sock : Socket}
    (hskipped : ∀ other ∈ skipped, other.InRange ∧ other.isRequest = false)
    (hincoming : sock.incoming = wire skipped) :
    ∃ sock', receive sock = (.error .connection, sock') ∧ sock'.outgoing = sock.outgoing := by
  induction skipped generalizing sock with
  | nil =>
    have hshort : sock.incoming.length < encodedLength := by
      rw [hincoming]
      decide
    obtain ⟨schedule, hread⟩ := Socket.readExactly_eq_none hshort
    refine ⟨(sock.skip sock.incoming.length schedule).close, ?_, rfl⟩
    rw [receive_eq]
    simp only [readMessage, readBytes, hread]
  | cons other skipped ih =>
    obtain ⟨hother, hskip⟩ := hskipped other List.mem_cons_self
    rw [wire_cons] at hincoming
    obtain ⟨schedule, heq⟩ := receive_skip hother hskip hincoming
    obtain ⟨sock', hreceive, hsent⟩ :=
      ih (fun later hlater => hskipped later (List.mem_cons_of_mem other hlater))
        (sock.facing_incoming _ schedule)
    exact ⟨sock', heq.trans hreceive, hsent⟩

/-! ## What the server owes its clients -/

/-- The reply to a request with a status and a body. -/
def Frame.reply (request : Frame) (status : ℤ) (body : Bytes) : Frame :=
  { request with status := status, body := body }

/-- The body that stands for a returned value of the declared class. -/
inductive Procedure.ReplyBody (procedure : Procedure σ) : Option Value → Bytes → Prop where
  /-- Nothing is declared and nothing returned. -/
  | none (h : procedure.replyClass = none) : ReplyBody procedure none []
  /-- An instance of the declared class, encoded. -/
  | some {cls : StructClass} {fields : List (String × Value)} {body : Bytes}
    (h : procedure.replyClass = some cls) (hencode : encode cls fields = some body) :
    ReplyBody procedure (some (.struct cls.name fields)) body

/-- The one reply to a request, and the state that handling the request leads to. -/
inductive Answered (handlers : Handlers σ) (request : Frame) (state : σ) : Frame → σ → Prop where
  /-- The command is unknown. -/
  | unavailable (h : handlers.getHandler request.cmd = none) :
    Answered handlers request state (request.reply (-3) []) state
  /-- The body is not an encoded request. -/
  | undecodable {procedure : Procedure σ} {error : DecodeError}
    (h : handlers.getHandler request.cmd = some procedure)
    (hdecode : procedure.decodeRequest request.body = .error error) :
    Answered handlers request state (request.reply (-2) []) state
  /-- The handler raises an error. -/
  | raised {procedure : Procedure σ} {argument : Option Value} {code : ℤ} {state' : σ}
    (h : handlers.getHandler request.cmd = some procedure)
    (hdecode : procedure.decodeRequest request.body = .ok argument)
    (hcall : procedure.call argument state = (.raised code, state')) :
    Answered handlers request state (request.reply code []) state'
  /-- The handler returns its declared reply. -/
  | returned {procedure : Procedure σ} {argument ret : Option Value} {body : Bytes} {state' : σ}
    (h : handlers.getHandler request.cmd = some procedure)
    (hdecode : procedure.decodeRequest request.body = .ok argument)
    (hcall : procedure.call argument state = (.returned ret, state'))
    (hbody : procedure.ReplyBody ret body) :
    Answered handlers request state (request.reply 0 body) state'

/-- A request that reaches its handler is answered with what the handler does. -/
theorem Answered.of_handler {handlers : Handlers σ} {request reply : Frame} {state state' : σ}
    {procedure : Procedure σ} {argument : Option Value}
    (hfind : handlers.getHandler request.cmd = some procedure)
    (hdecode : procedure.decodeRequest request.body = .ok argument)
    (h : Answered handlers request state reply state') :
    (∃ code, procedure.call argument state = (.raised code, state') ∧
      reply = request.reply code []) ∨
    (∃ ret body, procedure.call argument state = (.returned ret, state') ∧
      procedure.ReplyBody ret body ∧ reply = request.reply 0 body) := by
  cases h with
  | unavailable hnone => simp [hfind] at hnone
  | undecodable hfind' hdecode' =>
    rw [hfind, Option.some.injEq] at hfind'
    subst hfind'
    simp [hdecode] at hdecode'
  | raised hfind' hdecode' hcall =>
    rw [hfind, Option.some.injEq] at hfind'
    subst hfind'
    rw [hdecode, Except.ok.injEq] at hdecode'
    subst hdecode'
    exact Or.inl ⟨_, hcall, rfl⟩
  | returned hfind' hdecode' hcall hbody =>
    rw [hfind, Option.some.injEq] at hfind'
    subst hfind'
    rw [hdecode, Except.ok.injEq] at hdecode'
    subst hdecode'
    exact Or.inr ⟨_, _, hcall, hbody, rfl⟩

/-- Requests answered one after the other, each by one reply. -/
inductive Served (handlers : Handlers σ) : σ → List Frame → List Frame → σ → Prop where
  | nil (state : σ) : Served handlers state [] [] state
  | cons {request reply : Frame} {requests replies : List Frame} {state state' state'' : σ}
    (h : Answered handlers request state reply state')
    (hrest : Served handlers state' requests replies state'') :
    Served handlers state (request :: requests) (reply :: replies) state''

/-- A value of the declared class that fits on the wire, or nothing where nothing is
declared. -/
inductive Carried : Option StructClass → Option Value → Prop where
  | none : Carried none none
  | some {cls : StructClass} {fields : List (String × Value)}
    (hfits : Fits Encodable cls.handler (.struct cls.name fields))
    (hlength : ∀ body, encode cls fields = some body → body.length < 2 ^ 32) :
    Carried (some cls) (some (.struct cls.name fields))

/-- The handler returned its declared reply or raised an error with a code. -/
def Procedure.Conforms (procedure : Procedure σ) : Outcome → Prop
  | .returned ret => Carried procedure.replyClass ret
  | .raised code => -2 ^ 31 ≤ code ∧ code < 2 ^ 31
  | .crashed => False

/-- Every handler, given a decoded request, returns its declared reply or raises an error. -/
def Handlers.Lawful (handlers : Handlers σ) : Prop :=
  ∀ cmd procedure data argument state, handlers.getHandler cmd = some procedure →
    procedure.decodeRequest data = .ok argument →
    procedure.Conforms (procedure.call argument state).1

/-- The handler of one request conforms in one state. -/
def Handlers.LawfulOn (handlers : Handlers σ) (request : Frame) (state : σ) : Prop :=
  ∀ procedure argument, handlers.getHandler request.cmd = some procedure →
    procedure.decodeRequest request.body = .ok argument →
    procedure.Conforms (procedure.call argument state).1

/-- Handlers that are lawful are so for every request in every state. -/
theorem Handlers.Lawful.on {handlers : Handlers σ} (h : handlers.Lawful) (request : Frame)
    (state : σ) : handlers.LawfulOn request state :=
  fun procedure argument hfind hdecode =>
    h request.cmd procedure request.body argument state hfind hdecode

/-- The strings in the body of a request are UTF-8. -/
def Handlers.Readable (handlers : Handlers σ) (frame : Frame) : Prop :=
  ∀ procedure, handlers.getHandler frame.cmd = some procedure →
    procedure.decodeRequest frame.body ≠ .error .unicode

/-! ## One reply for every request -/

/-- A reply to a request in range is in range if its status and its body are. -/
theorem Frame.InRange.reply {request : Frame} {status : ℤ} {body : Bytes} (h : request.InRange)
    (hstatus : -2 ^ 31 ≤ status ∧ status < 2 ^ 31) (hbody : body.length < 2 ^ 32) :
    (request.reply status body).InRange :=
  ⟨h.sequence, hstatus, h.cmd, hbody⟩

/-- A reply in range is sent as one message. -/
theorem reply_eq {sock : Socket} {request : Frame} {status : ℤ} {body : Bytes}
    (h : (request.reply status body).InRange) :
    reply sock request.request status body =
      (.ok (), sock.sendAll (request.reply status body).wire) := by
  obtain ⟨head, hencode, _, _⟩ := h.encodeHeader_eq
  have hheader : request.request.makeReplyHeader status body =
      (request.reply status body).header := rfl
  have hbody : (request.reply status body).body = body := rfl
  simp only [Rpc.reply, Frame.wire, hheader, hencode, hbody, Option.getD_some]

/-- What a declared return value is encoded to. -/
theorem Carried.encodeReply {procedure : Procedure σ} {ret : Option Value}
    (h : Carried procedure.replyClass ret) :
    ∃ body, procedure.encodeReply ret = .ok body ∧ procedure.ReplyBody ret body ∧
      body.length < 2 ^ 32 := by
  generalize hclass : procedure.replyClass = declared at h
  cases h with
  | none =>
    refine ⟨[], ?_, .none hclass, by decide⟩
    simp only [Procedure.encodeReply, hclass]
  | some hfits hlength =>
    obtain ⟨body, hencode, _⟩ := encode_reads hfits
    refine ⟨body, ?_, .some hclass hencode, hlength body hencode⟩
    simp only [Procedure.encodeReply, hclass, hencode, if_true]

/-- The status and the body of the reply are the ones owed to the request. -/
theorem respond_answered {handlers : Handlers σ} {request : Frame} {state : σ}
    (hlaw : handlers.LawfulOn request state) (hread : handlers.Readable request) :
    ∃ status body state', respond handlers request.request state = (.ok (status, body), state') ∧
      Answered handlers request state (request.reply status body) state' ∧
      (-2 ^ 31 ≤ status ∧ status < 2 ^ 31) ∧ body.length < 2 ^ 32 := by
  have hcmd : request.request.hdr.cmd = request.cmd := rfl
  have hdata : request.request.data = request.body := rfl
  unfold respond
  rw [hcmd, hdata]
  cases hfind : handlers.getHandler request.cmd with
  | none => exact ⟨-3, [], state, rfl, .unavailable hfind, by decide, by decide⟩
  | some procedure =>
    cases hdecode : procedure.decodeRequest request.body with
    | error error =>
      cases error with
      | unicode => exact (hread procedure hfind hdecode).elim
      | eof =>
        refine ⟨-2, [], state, ?_, .undecodable hfind hdecode, by decide, by decide⟩
        simp only [hdecode, rpcEncodingError]
      | encoding =>
        refine ⟨-2, [], state, ?_, .undecodable hfind hdecode, by decide, by decide⟩
        simp only [hdecode, rpcEncodingError]
    | ok argument =>
      have hconforms := hlaw procedure argument hfind hdecode
      rcases hcall : procedure.call argument state with ⟨outcome, state'⟩
      rw [hcall] at hconforms
      cases outcome with
      | raised code =>
        refine ⟨code, [], state', ?_, .raised hfind hdecode hcall, hconforms, by decide⟩
        simp only [hdecode, hcall]
      | crashed => exact hconforms.elim
      | returned ret =>
        obtain ⟨body, hencode, hbody, hlength⟩ := Carried.encodeReply hconforms
        refine ⟨0, body, state', ?_, .returned hfind hdecode hcall hbody, by decide, hlength⟩
        simp only [hdecode, hcall, hencode]

/-- Handling a request sends its one reply. -/
theorem handle_answered {handlers : Handlers σ} {request : Frame} {server : Server σ}
    (hlaw : handlers.LawfulOn request server.state) (hrange : request.InRange)
    (hread : handlers.Readable request) :
    ∃ reply state, Answered handlers request server.state reply state ∧ reply.InRange ∧
      handle handlers request.request server =
        (.ok (), { sock := server.sock.sendAll reply.wire, state := state }) := by
  obtain ⟨status, body, state, hrespond, hanswered, hstatus, hlength⟩ :=
    respond_answered hlaw hread
  have hreply := hrange.reply hstatus hlength
  refine ⟨_, state, hanswered, hreply, ?_⟩
  simp only [handle, hrespond, reply_eq hreply]

/-- One call of `dispatch` skips to the next request, handles it and sends its reply. -/
theorem dispatch_answered {handlers : Handlers σ} {skipped later : List Frame} {request : Frame}
    {server : Server σ} (hlaw : handlers.LawfulOn request server.state)
    (hskipped : ∀ other ∈ skipped, other.InRange ∧ other.isRequest = false)
    (hrange : request.InRange) (hrequest : request.isRequest = true)
    (hread : handlers.Readable request)
    (hincoming : server.sock.incoming = wire skipped ++ wire (request :: later)) :
    ∃ reply server', Answered handlers request server.state reply server'.state ∧
      reply.InRange ∧ dispatch handlers server = (.ok (), server') ∧
      server'.sock.incoming = wire later ∧
      server'.sock.outgoing = server.sock.outgoing ++ reply.wire := by
  rw [wire_cons] at hincoming
  obtain ⟨schedule, hreceive⟩ := receive_request hskipped hrange hrequest hincoming
  let received : Server σ := { server with sock := server.sock.facing (wire later) schedule }
  have hlaw' : handlers.LawfulOn request received.state := hlaw
  obtain ⟨reply, state, hanswered, hreply, hhandle⟩ := handle_answered hlaw' hrange hread
  refine ⟨reply, ⟨(server.sock.facing (wire later) schedule).sendAll reply.wire, state⟩, hanswered,
    hreply, ?_, rfl, rfl⟩
  simp only [dispatch, hreceive]
  exact hhandle

/-- The run of `dispatch` over the messages that follow some skipped ones. -/
theorem dispatchTimes_served {handlers : Handlers σ} (hlaw : handlers.Lawful)
    {frames skipped : List Frame} {server : Server σ}
    (hskipped : ∀ other ∈ skipped, other.InRange ∧ other.isRequest = false)
    (hrange : ∀ frame ∈ frames, frame.InRange)
    (hread : ∀ frame ∈ frames, frame.isRequest = true → handlers.Readable frame)
    (hincoming : server.sock.incoming = wire (skipped ++ frames)) :
    ∃ replies server', Served handlers server.state (frames.filter Frame.isRequest) replies
        server'.state ∧
      (∀ reply ∈ replies, reply.InRange) ∧
      dispatchTimes handlers (frames.filter Frame.isRequest).length server = (.ok (), server') ∧
      server'.sock.outgoing = server.sock.outgoing ++ wire replies ∧
      ∃ final, dispatch handlers server' = (.error .connection, final) ∧
        final.state = server'.state ∧ final.sock.outgoing = server'.sock.outgoing := by
  induction frames generalizing skipped server with
  | nil =>
    rw [List.append_nil] at hincoming
    obtain ⟨sock, hreceive, hsent⟩ := receive_end hskipped hincoming
    refine ⟨[], server, .nil server.state, by simp, rfl, by simp, { server with sock := sock },
      ?_, rfl, hsent⟩
    simp only [dispatch, hreceive]
  | cons frame frames ih =>
    have hframe := hrange frame List.mem_cons_self
    have hrange' := fun other (h : other ∈ frames) => hrange other (List.mem_cons_of_mem frame h)
    have hread' := fun other (h : other ∈ frames) => hread other (List.mem_cons_of_mem frame h)
    cases hrequest : frame.isRequest with
    | false =>
      have hskipped' : ∀ other ∈ skipped ++ [frame], other.InRange ∧ other.isRequest = false := by
        intro other hother
        rcases List.mem_append.mp hother with hbefore | hlast
        · exact hskipped other hbefore
        · rw [List.mem_singleton.mp hlast]
          exact ⟨hframe, hrequest⟩
      rw [List.filter_cons_of_neg (by simp [hrequest])]
      refine ih hskipped' hrange' hread' ?_
      rw [hincoming, List.append_assoc, List.singleton_append]
    | true =>
      rw [List.filter_cons_of_pos hrequest]
      rw [wire_append] at hincoming
      obtain ⟨reply, server₁, hanswered, hreply, hdispatch, hincoming₁, hsent⟩ :=
        dispatch_answered (hlaw.on frame server.state) hskipped hframe hrequest (hread frame List.mem_cons_self hrequest)
          hincoming
      have hnone : ∀ other ∈ ([] : List Frame), other.InRange ∧ other.isRequest = false := by simp
      obtain ⟨replies, server', hserved, hreplies, hrun, hsent', hend⟩ :=
        ih hnone hrange' hread' hincoming₁
      refine ⟨reply :: replies, server', .cons hanswered hserved, ?_, ?_, ?_, hend⟩
      · intro other hother
        rcases List.mem_cons.mp hother with rfl | hlater
        · exact hreply
        · exact hreplies other hlater
      · rw [List.length_cons, dispatchTimes, hdispatch]
        exact hrun
      · rw [hsent', hsent, List.append_assoc, wire_cons]

/-- For every sequence of messages and every way their bytes arrive, as many calls of
`dispatch` as there are requests handle exactly the requests, in order, and send exactly
one reply to each; a further call finds no request and neither handles nor sends
anything. -/
theorem dispatch_serves_requests {handlers : Handlers σ} (hlaw : handlers.Lawful)
    {frames : List Frame} {server : Server σ} (hrange : ∀ frame ∈ frames, frame.InRange)
    (hread : ∀ frame ∈ frames, frame.isRequest = true → handlers.Readable frame)
    (hincoming : server.sock.incoming = wire frames) :
    ∃ replies server', Served handlers server.state (frames.filter Frame.isRequest) replies
        server'.state ∧
      (∀ reply ∈ replies, reply.InRange) ∧
      dispatchTimes handlers (frames.filter Frame.isRequest).length server = (.ok (), server') ∧
      server'.sock.outgoing = server.sock.outgoing ++ wire replies ∧
      ∃ final, dispatch handlers server' = (.error .connection, final) ∧
        final.state = server'.state ∧ final.sock.outgoing = server'.sock.outgoing := by
  have hnone : ∀ other ∈ ([] : List Frame), other.InRange ∧ other.isRequest = false := by simp
  refine dispatchTimes_served hlaw hnone hrange hread ?_
  rw [List.nil_append, hincoming]

/-- A handler object with one procedure, which works once and then fails. -/
def onceHandlers : Handlers ℕ where
  getHandler cmd := if cmd = 1 then
      some ⟨none, none, fun _ calls =>
        (if calls = 0 then .returned none else .raised 500, calls + 1)⟩
    else none

/-- Two calls with a stray reply between them, and an unknown command. -/
def onceFrames : List Frame :=
  [⟨7, -1, 1, []⟩, ⟨3, 0, 1, [1, 2, 3]⟩, ⟨8, -1, 1, []⟩, ⟨9, -1, 4, [5]⟩]

/-- A server whose socket delivers the messages byte by byte. -/
def onceServer : Server ℕ := ⟨⟨wire onceFrames, fun _ => 0, [], false⟩, 0⟩

/-- The sample handlers raise nothing but what a handler may raise. -/
theorem onceHandlers_lawful : onceHandlers.Lawful := by
  intro cmd procedure data argument state hfind _
  simp only [onceHandlers, Option.ite_none_right_eq_some, Option.some.injEq] at hfind
  obtain ⟨_, rfl⟩ := hfind
  by_cases hzero : state = 0
  · simp only [hzero, if_true]
    exact Carried.none
  · simp only [hzero, if_false]
    exact ⟨by decide, by decide⟩

/-- The sample requests are in range. -/
theorem onceFrames_inRange : ∀ frame ∈ onceFrames, frame.InRange := by
  intro frame hframe
  simp only [onceFrames, List.mem_cons, List.not_mem_nil, or_false] at hframe
  rcases hframe with rfl | rfl | rfl | rfl <;> constructor <;> decide

/-- The sample handlers can read every request. -/
theorem onceHandlers_readable (frame : Frame) : onceHandlers.Readable frame := by
  intro procedure hfind
  simp only [onceHandlers, Option.ite_none_right_eq_some, Option.some.injEq] at hfind
  obtain ⟨_, rfl⟩ := hfind
  simp [Procedure.decodeRequest]

/-- Three requests with a stray reply between them: the requests are answered in order, and the
reply is skipped. -/
theorem dispatch_serves_requests_once :
    ∃ replies server', Served onceHandlers 0 [⟨7, -1, 1, []⟩, ⟨8, -1, 1, []⟩, ⟨9, -1, 4, [5]⟩]
        replies server'.state ∧
      (∀ reply ∈ replies, reply.InRange) ∧
      dispatchTimes onceHandlers 3 onceServer = (.ok (), server') ∧
      server'.sock.outgoing = [] ++ wire replies ∧
      ∃ final, dispatch onceHandlers server' = (.error .connection, final) ∧
        final.state = server'.state ∧ final.sock.outgoing = server'.sock.outgoing :=
  dispatch_serves_requests onceHandlers_lawful onceFrames_inRange
    (fun frame _ _ => onceHandlers_readable frame)
    (rfl : onceServer.sock.incoming = wire onceFrames)

/-! ## Calls that succeed -/

/-- The frames before the first request, that request and the frames after it. -/
theorem exists_request_split (frames : List Frame) :
    (∀ frame ∈ frames, frame.isRequest = false) ∨
      ∃ skipped request later, frames = skipped ++ request :: later ∧
        (∀ frame ∈ skipped, frame.isRequest = false) ∧ request.isRequest = true := by
  induction frames with
  | nil => exact Or.inl (by simp)
  | cons frame frames ih =>
    cases hrequest : frame.isRequest with
    | true => exact Or.inr ⟨[], frame, frames, rfl, by simp, hrequest⟩
    | false =>
      rcases ih with hnone | ⟨skipped, request, later, rfl, hskipped, hfirst⟩
      · exact Or.inl (by simpa [hrequest] using hnone)
      · exact Or.inr ⟨frame :: skipped, request, later, rfl, by simpa [hrequest] using hskipped,
          hfirst⟩

/-- A return value that was encoded is the body of the reply. -/
theorem replyBody_of_encodeReply {procedure : Procedure σ} {ret : Option Value} {body : Bytes}
    (h : procedure.encodeReply ret = .ok body) : procedure.ReplyBody ret body := by
  unfold Procedure.encodeReply at h
  split at h
  · rename_i hclass
    cases h
    exact .none hclass
  · cases h
  · rename_i cls fields declared hclass
    split at h
    · rename_i hname
      subst hname
      split at h
      · rename_i hencode
        cases h
        exact .some hclass hencode
      · cases h
    · cases h
  · cases h

/-- A status and a body that are replied are the ones owed to the request. -/
theorem answered_of_respond {handlers : Handlers σ} {request : Frame} {state state' : σ}
    {status : ℤ} {body : Bytes}
    (h : respond handlers request.request state = (.ok (status, body), state')) :
    Answered handlers request state (request.reply status body) state' := by
  unfold respond at h
  split at h
  · rename_i hfind
    cases h
    exact .unavailable hfind
  · rename_i procedure hfind
    split at h
    · cases h
    · rename_i error _ hdecode
      cases h
      exact .undecodable hfind hdecode
    · rename_i argument hdecode
      split at h
      · rename_i code state₁ hcall
        cases h
        exact .raised hfind hdecode hcall
      · cases h
      · rename_i ret state₁ hcall
        split at h
        · cases h
        · rename_i body' hencode
          cases h
          exact .returned hfind hdecode hcall (replyBody_of_encodeReply hencode)

/-- A call of `dispatch` that succeeds has skipped to the next request on the stream and sent
its one reply. -/
theorem dispatch_eq_ok {handlers : Handlers σ} {frames : List Frame} {server server' : Server σ}
    (hrange : ∀ frame ∈ frames, frame.InRange) (hincoming : server.sock.incoming = wire frames)
    (h : dispatch handlers server = (.ok (), server')) :
    ∃ skipped request later status body, frames = skipped ++ request :: later ∧
      (∀ frame ∈ skipped, frame.isRequest = false) ∧ request.isRequest = true ∧
      (receive server.sock).1 = .ok request.request ∧
      respond handlers request.request server.state = (.ok (status, body), server'.state) ∧
      server'.sock.incoming = wire later ∧
      server'.sock.outgoing = server.sock.outgoing ++ (request.reply status body).wire := by
  rcases exists_request_split frames with hnone | ⟨skipped, request, later, rfl, hskipped, hfirst⟩
  · obtain ⟨sock, hreceive, _⟩ :=
      receive_end (fun frame hframe => ⟨hrange frame hframe, hnone frame hframe⟩) hincoming
    rw [dispatch, hreceive] at h
    cases h
  · have hskip : ∀ other ∈ skipped, other.InRange ∧ other.isRequest = false := fun other hother =>
      ⟨hrange other (List.mem_append_left _ hother), hskipped other hother⟩
    have hrequest := hrange request (by simp)
    rw [wire_append, wire_cons] at hincoming
    obtain ⟨schedule, hreceive⟩ := receive_request hskip hrequest hfirst hincoming
    simp only [dispatch, hreceive, handle] at h
    split at h
    · cases h
    · rename_i status body state hrespond
      unfold reply at h
      split at h
      · cases h
      · rename_i head hencode
        cases h
        refine ⟨skipped, request, later, status, body, rfl, hskipped, hfirst, ?_, hrespond, rfl, ?_⟩
        · rw [hreceive]
        · have hheader : (request.reply status body).header =
              request.request.makeReplyHeader status body := rfl
          simp only [Frame.wire, hheader, hencode, Option.getD_some]
          rfl

end OpenDiamond.Rpc
