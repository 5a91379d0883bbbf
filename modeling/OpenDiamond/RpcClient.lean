import OpenDiamond.Rpc

/-!
# Client stubs against server handlers

The client offers a stub for every procedure, the server registers a handler for every
command number; the two tables are written independently and meet only in the numbers
and the struct classes. A call through a stub sends one request, the server dispatches
it, and the client reads one reply. It is compared here with a local call of the handler.
-/

namespace OpenDiamond.RpcClient

open Lib.OrderedDict Lib.Sockets Xdr Protocol Rpc

/-! ## The classes of errors -/

/-- An `RPCError` class with its direct subclasses, oldest first. -/
inductive ErrorClass where
  | mk (name : String) (code : Option ℤ) (subclasses : List ErrorClass)

/-- The name of a class. -/
def ErrorClass.name : ErrorClass → String
  | .mk name _ _ => name

/-- The code of a class. -/
def ErrorClass.code : ErrorClass → Option ℤ
  | .mk _ code _ => code

mutual

/-- `RPCError.get_class`, `none` for the `KeyError`. -/
def ErrorClass.getClass : ErrorClass → ℤ → Option ErrorClass
  | .mk _ _ subclasses, code => getClassAmong subclasses code

/-- The loop of `get_class` over the subclasses. -/
def ErrorClass.getClassAmong : List ErrorClass → ℤ → Option ErrorClass
  | [], _ => none
  | cls :: rest, code =>
    if cls.code = some code then some cls
    else (cls.getClass code).or (getClassAmong rest code)

end

/-- `RPCError` with the classes of the RPC layer and of the protocol. -/
def rpcError : ErrorClass :=
  .mk "RPCError" none [
    .mk "RPCEncodingError" (some rpcEncodingError) [],
    .mk "RPCProcedureUnavailable" (some rpcProcedureUnavailable) [],
    .mk "DiamondRPCFailure" (some 500) [],
    .mk "DiamondRPCFCacheMiss" (some 501) [],
    .mk "DiamondRPCCookieExpired" (some 504) [],
    .mk "DiamondRPCSchemeNotSupported" (some 505) []]

/-- The class of the error that the client raises for a status. -/
def errorName (status : ℤ) : String :=
  match rpcError.getClass status with
  | some cls => cls.name
  | none => rpcError.name

/-! ## The client end -/

/-- How a call through a stub ends. -/
inductive CallResult where
  /-- It returns the reply, or `None`. -/
  | returned (reply : Option Value)
  /-- It raises an instance of an `RPCError` class. -/
  | raised (cls : String) (code : ℤ)
  /-- The reply does not decode. -/
  | undecodable (error : DecodeError)
  /-- `XDREncodingError` from the request. -/
  | unencodable
  /-- `ConnectionFailure`. -/
  | disconnected

/-- A `_RPCClientConnection`. -/
structure Client where
  /-- The next number of `_sequence`. -/
  sequence : ℕ
  /-- The socket. -/
  sock : Socket

/-- The arguments of a stub, which are also those of a handler's tag. -/
structure Tag where
  /-- The command number. -/
  cmd : ℤ
  /-- The class of the request, if there is one. -/
  requestClass : Option StructClass
  /-- The class of the reply, if there is one. -/
  replyClass : Option StructClass

/-- `_send_message`, `none` when the header cannot be encoded. -/
def Client.sendMessage (client : Client) (hdr : Header) (body : Bytes) : Option Client := do
  let head ← encodeHeader hdr
  return { client with sock := client.sock.sendAll (head ++ body) }

/-- The type check of a stub and the encoding of the request. -/
def Tag.encodeRequest (tag : Tag) (request : Option Value) : Except CallResult Bytes :=
  match tag.requestClass, request with
  | none, none => .ok []
  | some cls, some (.struct name fields) =>
    if name = cls.name then
      match encode cls fields with
      | some body => .ok body
      | none => .error .unencodable
    else .error (.raised "RPCEncodingError" rpcEncodingError)
  | _, _ => .error (.raised "RPCEncodingError" rpcEncodingError)

/-- A stub up to the point where the request has been sent. -/
def Tag.send (tag : Tag) (request : Option Value) (client : Client) :
    Except CallResult Unit × Client :=
  match tag.encodeRequest request with
  | .error result => (.error result, client)
  | .ok body =>
    let numbered := { client with sequence := client.sequence + 1 }
    match numbered.sendMessage ⟨client.sequence, rpcPending, tag.cmd, body.length⟩ body with
    | none => (.error .unencodable, numbered)
    | some sent => (.ok (), sent)

/-- `_get_reply`. -/
def Client.getReply (client : Client) : Except CallResult (ℤ × Bytes) × Client :=
  match readMessage client.sock with
  | (.error (.decoding error), sock) => (.error (.undecodable error), { client with sock := sock })
  | (.error _, sock) => (.error .disconnected, { client with sock := sock })
  | (.ok ⟨hdr, data⟩, sock) =>
    let received := { client with sock := sock }
    if hdr.status = rpcPending then
      -- The client answers a request with an encoding error and takes it for the reply.
      match received.sendMessage ⟨hdr.sequence, rpcEncodingError, hdr.cmd, 0⟩ [] with
      | none => (.error .unencodable, received)
      | some sent => (.ok (hdr.status, data), sent)
    else (.ok (hdr.status, data), received)

/-- The part of `_call` after the reply has been read. -/
def Tag.result (tag : Tag) (status : ℤ) (data : Bytes) : CallResult :=
  match tag.replyClass with
  | some cls =>
    if status = 0 then
      match decode cls data with
      | .ok reply => .returned (some reply)
      | .error error => .undecodable error
    else if data ≠ [] then .raised "RPCEncodingError" rpcEncodingError
    else .raised (errorName status) status
  | none =>
    if data ≠ [] then .raised "RPCEncodingError" rpcEncodingError
    else if status ≠ 0 then .raised (errorName status) status
    else .returned none

/-! ## The two tables -/

/-- The procedures by name. -/
inductive Name where
  | setup
  | sendBlobs
  | start
  | reexecuteFilters
  | requestStats
  | sessionVariablesGet
  | sessionVariablesSet
  | getObject
deriving DecidableEq, Repr

/-- The two connections of a search. -/
inductive Channel where
  | control
  | blast
deriving DecidableEq, Repr

/-- The stubs of `ControlConnection` and `BlastConnection`. -/
def stub : Name → Tag
  | .setup => ⟨25, some xdrSetup, some xdrBlobList⟩
  | .sendBlobs => ⟨26, some xdrBlobData, none⟩
  | .start => ⟨28, some xdrStart, none⟩
  | .reexecuteFilters => ⟨30, some xdrReexecute, some xdrAttributeList⟩
  | .requestStats => ⟨29, none, some xdrSearchStats⟩
  | .sessionVariablesGet => ⟨18, none, some xdrSessionVars⟩
  | .sessionVariablesSet => ⟨19, none, some xdrSessionVars⟩
  | .getObject => ⟨2, none, some xdrObject⟩

/-- The tags of the handlers of `Search` and `_BlastChannelSender`. -/
def handlerTag : Name → Tag
  | .setup => ⟨25, some xdrSetup, some xdrBlobList⟩
  | .sendBlobs => ⟨26, some xdrBlobData, none⟩
  | .start => ⟨28, some xdrStart, none⟩
  | .reexecuteFilters => ⟨30, some xdrReexecute, some xdrAttributeList⟩
  | .requestStats => ⟨29, none, some xdrSearchStats⟩
  | .sessionVariablesGet => ⟨18, none, some xdrSessionVars⟩
  | .sessionVariablesSet => ⟨19, some xdrSessionVars, none⟩
  | .getObject => ⟨2, none, some xdrObject⟩

/-- The names on a channel, in the order in which the metaclass visits the methods. -/
def names : Channel → List Name
  | .control => [.reexecuteFilters, .requestStats, .sendBlobs, .sessionVariablesGet,
      .sessionVariablesSet, .setup, .start]
  | .blast => [.getObject]

variable {σ : Type}

/-- The handlers of a channel, whatever their methods do. -/
def channelHandlers (channel : Channel) (method : Name → Option Value → σ → Outcome × σ) :
    Handlers σ where
  getHandler := find (assignAll [] ((names channel).map fun name =>
    ((handlerTag name).cmd,
      ⟨(handlerTag name).requestClass, (handlerTag name).replyClass, method name⟩)))

/-! ## A remote call -/

/-- The two ends of a connection. -/
structure Link (σ : Type) where
  /-- The client end. -/
  client : Client
  /-- The server end. -/
  server : Server σ

/-- What one end has sent arrives at the other. -/
def deliver (source target : Socket) : Socket × Socket :=
  ({ source with outgoing := [] }, { target with incoming := target.incoming ++ source.outgoing })

/-- What the client has sent arrives at the server. -/
def Link.toServer (link : Link σ) : Link σ :=
  let (source, target) := deliver link.client.sock link.server.sock
  ⟨{ link.client with sock := source }, { link.server with sock := target }⟩

/-- What the server has sent arrives at the client. -/
def Link.toClient (link : Link σ) : Link σ :=
  let (source, target) := deliver link.server.sock link.client.sock
  ⟨{ link.client with sock := target }, { link.server with sock := source }⟩

/-- A call through a stub while the server runs `dispatch`. -/
def remoteCall (handlers : Handlers σ) (tag : Tag) (request : Option Value) (link : Link σ) :
    CallResult × Link σ :=
  match tag.send request link.client with
  | (.error result, client) => (result, { link with client := client })
  | (.ok (), client) =>
    let asked := Link.toServer { link with client := client }
    let answered := Link.toClient { asked with server := (dispatch handlers asked.server).2 }
    match answered.client.getReply with
    | (.error result, client) => (result, { answered with client := client })
    | (.ok (status, data), client) => (tag.result status data, { answered with client := client })

/-- The link has nothing under way. -/
structure Link.Idle (link : Link σ) : Prop where
  clientIncoming : link.client.sock.incoming = []
  clientOutgoing : link.client.sock.outgoing = []
  serverIncoming : link.server.sock.incoming = []
  serverOutgoing : link.server.sock.outgoing = []

/-- The methods with a record of the requests that they were called with. -/
def recorded (method : Name → Option Value → σ → Outcome × σ) (name : Name)
    (request : Option Value) (state : σ × List (Name × Option Value)) :
    Outcome × σ × List (Name × Option Value) :=
  let (outcome, inner) := method name request state.1
  (outcome, inner, state.2 ++ [(name, request)])

/-- What the caller of a local handler would see; a handler that raises anything else takes
the connection down. -/
def localResult : Outcome → CallResult
  | .returned ret => .returned ret
  | .raised code => .raised (errorName code) code
  | .crashed => .disconnected

/-- The call through a stub equals a local call of the handler: the handler receives an
equal request, changes its state as it does locally, and the caller sees its result. -/
def RemoteIsLocal (channel : Channel) (method : Name → Option Value → σ → Outcome × σ)
    (name handler : Name) (request : Option Value)
    (link : Link (σ × List (Name × Option Value))) : Prop :=
  ∃ link', remoteCall (channelHandlers channel (recorded method)) (stub name) request link =
      (localResult (method handler request link.server.state.1).1, link') ∧
    link'.server.state = ((method handler request link.server.state.1).2,
      link.server.state.2 ++ [(handler, request)])

/-! ## Matching tables make remote calls local -/

/-- The handler returned its declared reply or raised one of the error classes. -/
def Tag.Conforms (tag : Tag) : Outcome → Prop
  | .returned ret => Carried tag.replyClass ret
  | .raised code => (rpcError.getClass code).isSome
  | .crashed => False

/-- The codes that have an error class of their own. -/
theorem code_of_getClass {code : ℤ} (h : (rpcError.getClass code).isSome) :
    code = -2 ∨ code = -3 ∨ code = 500 ∨ code = 501 ∨ code = 504 ∨ code = 505 := by
  by_contra hnone
  simp only [not_or] at hnone
  obtain ⟨h₁, h₂, h₃, h₄, h₅, h₆⟩ := hnone
  simp [rpcError, ErrorClass.getClass, ErrorClass.getClassAmong, ErrorClass.code,
    rpcEncodingError, rpcProcedureUnavailable, Ne.symm h₁, Ne.symm h₂, Ne.symm h₃, Ne.symm h₄,
    Ne.symm h₅, Ne.symm h₆] at h

/-- The procedure that a tag declares. -/
def Tag.procedure (tag : Tag) (call : Option Value → σ → Outcome × σ) : Procedure σ :=
  ⟨tag.requestClass, tag.replyClass, call⟩

theorem Tag.Conforms.procedure {tag : Tag} {outcome : Outcome} (h : tag.Conforms outcome)
    (call : Option Value → σ → Outcome × σ) : (tag.procedure call).Conforms outcome := by
  cases outcome with
  | returned ret => exact h
  | raised code =>
    rcases code_of_getClass h with rfl | rfl | rfl | rfl | rfl | rfl <;>
      exact ⟨by decide, by decide⟩
  | crashed => exact h

/-- A request of the declared class is encoded, and the handler decodes an equal one. -/
theorem Tag.encodeRequest_eq {tag : Tag} {request : Option Value}
    (h : Carried tag.requestClass request) (call : Option Value → σ → Outcome × σ) :
    ∃ body, tag.encodeRequest request = .ok body ∧ body.length < 2 ^ 32 ∧
      (tag.procedure call).decodeRequest body = .ok request := by
  generalize hclass : tag.requestClass = declared at h
  cases h with
  | none =>
    refine ⟨[], ?_, by decide, ?_⟩
    · simp only [Tag.encodeRequest, hclass]
    · simp only [Procedure.decodeRequest, Tag.procedure, hclass]
  | some hfits hlength =>
    obtain ⟨body, hencode, hread⟩ := encode_reads hfits
    refine ⟨body, ?_, hlength body hencode, ?_⟩
    · simp only [Tag.encodeRequest, hclass, hencode, if_true]
    · simp only [Procedure.decodeRequest, Tag.procedure, hclass, decode_of_reads hread]
      rfl

/-- A request in range is sent as one message, and the sequence number is used up. -/
theorem Tag.send_eq {tag : Tag} {request : Option Value} {client : Client} {body : Bytes}
    (hencode : tag.encodeRequest request = .ok body)
    (hrange : (Frame.mk client.sequence rpcPending tag.cmd body).InRange) :
    tag.send request client = (.ok (), ⟨client.sequence + 1, client.sock.sendAll
      (Frame.mk client.sequence rpcPending tag.cmd body).wire⟩) := by
  obtain ⟨head, hhead, _, _⟩ := hrange.encodeHeader_eq
  have hheader : (Frame.mk client.sequence rpcPending tag.cmd body).header =
      ⟨client.sequence, rpcPending, tag.cmd, body.length⟩ := rfl
  rw [hheader] at hhead
  simp only [Tag.send, hencode, Client.sendMessage, Frame.wire, hheader, hhead,
    Option.bind_eq_bind, Option.bind_some, Option.pure_def, Option.getD_some]

/-- A reply in front of the stream is read as a whole. -/
theorem Client.getReply_frame {client : Client} {reply : Frame} (hrange : reply.InRange)
    (hstatus : reply.status ≠ rpcPending) (hincoming : client.sock.incoming = reply.wire) :
    ∃ schedule, client.getReply = (.ok (reply.status, reply.body),
      { client with sock := client.sock.facing [] schedule }) := by
  rw [← List.append_nil reply.wire] at hincoming
  obtain ⟨schedule, hread⟩ := readMessage_frame hrange hincoming
  refine ⟨schedule, ?_⟩
  have hrequest : reply.request = ⟨reply.header, reply.body⟩ := rfl
  have hheader : reply.header.status = reply.status := rfl
  simp only [Client.getReply, hread, hrequest, hheader, if_neg hstatus]

/-- An empty reply with the code of an error class raises the class. -/
theorem Tag.result_raised {tag : Tag} {code : ℤ} (h : code ≠ 0) :
    tag.result code [] = .raised (errorName code) code := by
  unfold Tag.result
  cases tag.replyClass with
  | none => simp [h]
  | some cls => simp [h]

/-- The body of a declared reply is read back as the reply. -/
theorem Tag.result_returned {tag : Tag} {call : Option Value → σ → Outcome × σ}
    {ret : Option Value} {body : Bytes} (hcarried : Carried tag.replyClass ret)
    (hbody : (tag.procedure call).ReplyBody ret body) : tag.result 0 body = .returned ret := by
  cases hbody with
  | none hclass =>
    have hclass' : tag.replyClass = none := hclass
    simp [Tag.result, hclass']
  | @some cls fields _ hclass hencode =>
    have hclass' : tag.replyClass = some cls := hclass
    rw [hclass'] at hcarried
    cases hcarried with
    | some hfits _ =>
      obtain ⟨bytes, hencode', hread⟩ := encode_reads hfits
      rw [hencode, Option.some.injEq] at hencode'
      subst hencode'
      simp only [Tag.result, hclass', if_true, decode_of_reads hread]

/-- What the client makes of the reply to a request that reached its handler. -/
theorem result_of_answered {handlers : Handlers σ} {tag : Tag}
    {call : Option Value → σ → Outcome × σ} {frame reply : Frame} {request : Option Value}
    {state state' : σ} (hfind : handlers.getHandler frame.cmd = some (tag.procedure call))
    (hdecode : (tag.procedure call).decodeRequest frame.body = .ok request)
    (hconforms : tag.Conforms (call request state).1)
    (h : Answered handlers frame state reply state') :
    state' = (call request state).2 ∧ reply.status ≠ rpcPending ∧
      tag.result reply.status reply.body = localResult (call request state).1 := by
  rcases h.of_handler hfind hdecode with ⟨code, hcall, rfl⟩ | ⟨ret, body, hcall, hbody, rfl⟩
  · have hcall' : call request state = (.raised code, state') := hcall
    rw [hcall'] at hconforms ⊢
    have hcode := code_of_getClass hconforms
    have hpending : code ≠ -1 := by omega
    have hzero : code ≠ 0 := by omega
    exact ⟨rfl, hpending, Tag.result_raised hzero⟩
  · have hcall' : call request state = (.returned ret, state') := hcall
    rw [hcall'] at hconforms ⊢
    have hpending : (0 : ℤ) ≠ -1 := by decide
    exact ⟨rfl, hpending, Tag.result_returned hconforms hbody⟩

theorem rpcPending_inRange : -2 ^ 31 ≤ rpcPending ∧ rpcPending < 2 ^ 31 := by decide

/-- A handler that is found and given the request is called as declared. -/
theorem lawfulOn_of_conforms {handlers : Handlers σ} {tag : Tag}
    {call : Option Value → σ → Outcome × σ} {frame : Frame} {request : Option Value} {state : σ}
    (hfind : handlers.getHandler frame.cmd = some (tag.procedure call))
    (hdecode : (tag.procedure call).decodeRequest frame.body = .ok request)
    (hconforms : tag.Conforms (call request state).1) :
    handlers.LawfulOn frame state ∧ handlers.Readable frame := by
  constructor
  · intro procedure argument hfind' hdecode'
    rw [hfind, Option.some.injEq] at hfind'
    subst hfind'
    rw [hdecode, Except.ok.injEq] at hdecode'
    subst hdecode'
    exact hconforms.procedure call
  · intro procedure hfind'
    rw [hfind, Option.some.injEq] at hfind'
    subst hfind'
    simp [hdecode]

/-- Whatever the handlers are: where the tag of the stub is the tag of the registered handler,
a call through the stub is a local call, and leaves the link idle. -/
theorem remoteCall_eq {handlers : Handlers σ} {tag : Tag}
    {call : Option Value → σ → Outcome × σ} {request : Option Value} {link : Link σ}
    (hfind : handlers.getHandler tag.cmd = some (tag.procedure call))
    (hcmd : -2 ^ 31 ≤ tag.cmd ∧ tag.cmd < 2 ^ 31) (hrequest : Carried tag.requestClass request)
    (hconforms : tag.Conforms (call request link.server.state).1)
    (hidle : link.Idle) (hsequence : link.client.sequence < 2 ^ 32) :
    ∃ link', remoteCall handlers tag request link =
        (localResult (call request link.server.state).1, link') ∧
      link'.server.state = (call request link.server.state).2 ∧ link'.Idle ∧
      link'.client.sequence = link.client.sequence + 1 := by
  obtain ⟨body, hencode, hlength, hdecode⟩ := Tag.encodeRequest_eq hrequest call
  let frame : Frame := ⟨link.client.sequence, rpcPending, tag.cmd, body⟩
  have hrange : frame.InRange := ⟨hsequence, rpcPending_inRange, hcmd, hlength⟩
  have hsend := Tag.send_eq hencode hrange
  -- The request arrives at the server, which finds nothing else on the stream.
  let asked := Link.toServer { link with
    client := ⟨link.client.sequence + 1, link.client.sock.sendAll frame.wire⟩ }
  have hincoming : asked.server.sock.incoming = wire [] ++ wire [frame] := by
    simp [asked, Link.toServer, deliver, Socket.sendAll, hidle.serverIncoming,
      hidle.clientOutgoing]
  have hreach : handlers.LawfulOn frame asked.server.state ∧ handlers.Readable frame :=
    lawfulOn_of_conforms hfind hdecode hconforms
  have hnone : ∀ other ∈ ([] : List Frame), other.InRange ∧ other.isRequest = false := by simp
  obtain ⟨reply, server, hanswered, hreply, hdispatch, hserverIn, hserverOut⟩ :=
    dispatch_answered hreach.1 hnone hrange rfl hreach.2 hincoming
  obtain ⟨hstate, hstatus, hresult⟩ := result_of_answered hfind hdecode hconforms hanswered
  -- The reply arrives at the client, which finds nothing else on the stream.
  let answered := Link.toClient { asked with server := server }
  have hanswer : answered.client.sock.incoming = reply.wire := by
    simp [answered, Link.toClient, deliver, hserverOut, asked, Link.toServer, Socket.sendAll,
      hidle.clientIncoming, hidle.serverOutgoing]
  obtain ⟨schedule, hget⟩ := Client.getReply_frame hreply hstatus hanswer
  refine ⟨{ answered with client := { answered.client with
    sock := answered.client.sock.facing [] schedule } }, ?_, hstate, ⟨rfl, rfl, ?_, rfl⟩, rfl⟩
  · simp only [remoteCall, hsend]
    rw [show dispatch handlers asked.server = (.ok (), server) from hdispatch]
    rw [show answered.client.getReply = _ from hget]
    rw [← hresult]
  · exact hserverIn

/-! ## The stubs and the handlers of a search -/

/-- The handler under a name is registered under the number of its tag. -/
theorem channelHandlers_getHandler {channel : Channel} {name : Name}
    (h : name ∈ names channel) (method : Name → Option Value → σ → Outcome × σ) :
    (channelHandlers channel method).getHandler (handlerTag name).cmd =
      some ((handlerTag name).procedure (method name)) := by
  cases channel with
  | control =>
    simp only [names, List.mem_cons, List.not_mem_nil, or_false] at h
    rcases h with rfl | rfl | rfl | rfl | rfl | rfl | rfl <;> rfl
  | blast =>
    simp only [names, List.mem_cons, List.not_mem_nil, or_false] at h
    subst h
    rfl

/-- A command number belongs to one name in both tables, so that a stub reaches the handler of its
own name. -/
theorem handler_eq_of_cmd {name handler : Name}
    (h : (handlerTag handler).cmd = (stub name).cmd) : handler = name := by
  cases name <;> cases handler <;> first | rfl | exact absurd h (by decide)

/-- All stubs but one have the tag of their handler. -/
theorem stub_eq_handlerTag {name : Name} (h : name ≠ .sessionVariablesSet) :
    stub name = handlerTag name := by
  cases name <;> first | rfl | exact absurd rfl h

theorem handlerTag_cmd_inRange (name : Name) :
    -2 ^ 31 ≤ (handlerTag name).cmd ∧ (handlerTag name).cmd < 2 ^ 31 := by
  cases name <;> decide

/-- A stub that raises before it has sent anything does not reach the server. -/
theorem remoteCall_state_of_error {handlers : Handlers σ} {tag : Tag} {request : Option Value}
    {link : Link σ} {result : CallResult} {client : Client}
    (h : tag.send request link.client = (.error result, client)) :
    (remoteCall handlers tag request link).2.server.state = link.server.state := by
  simp only [remoteCall, h]

/-- A call that does not reach the server is no local call: the handler has not run. -/
theorem not_remoteIsLocal_of_error {channel : Channel}
    {method : Name → Option Value → σ → Outcome × σ} {name handler : Name}
    {request : Option Value} {link : Link (σ × List (Name × Option Value))}
    {result : CallResult} {client : Client}
    (h : (stub name).send request link.client = (.error result, client)) :
    ¬ RemoteIsLocal channel method name handler request link := by
  rintro ⟨link', hcall, hstate⟩
  have hunchanged : (remoteCall (channelHandlers channel (recorded method)) (stub name) request
      link).2.server.state = link.server.state := remoteCall_state_of_error h
  rw [hcall, hstate] at hunchanged
  have hlog := congrArg Prod.snd hunchanged
  simp at hlog

/-- A sequence number beyond its 32 bits cannot be sent, whatever the request is. -/
theorem Tag.send_error_of_ge (tag : Tag) (request : Option Value) {client : Client}
    (h : 2 ^ 32 ≤ client.sequence) :
    ∃ result client', tag.send request client = (.error result, client') := by
  unfold Tag.send
  cases tag.encodeRequest request with
  | error result => exact ⟨result, client, rfl⟩
  | ok body =>
    have hheader : encodeHeader ⟨client.sequence, rpcPending, tag.cmd, body.length⟩ = none :=
      encodeHeader_eq_none h
    refine ⟨.unencodable, { client with sequence := client.sequence + 1 }, ?_⟩
    simp only [Client.sendMessage, hheader, Option.bind_eq_bind, Option.bind_none]

/-- On an idle connection, with a request that the handler registered under the number of the
stub accepts and a handler that returns its declared reply or raises an error class: the
remote call equals the local one exactly when the stub is not `session_variables_set` and
the sequence number still fits its header field. -/
theorem remoteIsLocal_iff {channel : Channel} {name handler : Name}
    {method : Name → Option Value → σ → Outcome × σ} {request : Option Value}
    {link : Link (σ × List (Name × Option Value))} (hname : name ∈ names channel)
    (hcmd : (handlerTag handler).cmd = (stub name).cmd)
    (hrequest : Carried (handlerTag handler).requestClass request)
    (hconforms : (handlerTag handler).Conforms (method handler request link.server.state.1).1)
    (hidle : link.Idle) :
    RemoteIsLocal channel method name handler request link ↔
      name ≠ .sessionVariablesSet ∧ link.client.sequence < 2 ^ 32 := by
  obtain rfl := handler_eq_of_cmd hcmd
  constructor
  · intro hlocal
    constructor
    · rintro rfl
      cases hrequest with
      | some hfits hlength => exact not_remoteIsLocal_of_error rfl hlocal
    · by_contra hlarge
      obtain ⟨result, client, hsend⟩ :=
        (stub handler).send_error_of_ge request (Nat.le_of_not_lt hlarge)
      exact not_remoteIsLocal_of_error hsend hlocal
  · rintro ⟨hother, hsequence⟩
    have hfind := channelHandlers_getHandler hname (recorded method)
    obtain ⟨link', hcall, hstate, _⟩ := remoteCall_eq hfind (handlerTag_cmd_inRange handler)
      hrequest hconforms hidle hsequence
    exact ⟨link', by rw [stub_eq_handlerTag hother]; exact hcall, hstate⟩

/-- Methods that accept everything and return nothing. -/
def silentMethod (_ : Name) (_ : Option Value) (calls : ℕ) : Outcome × ℕ :=
  (.returned none, calls + 1)

/-- A fresh connection whose ends receive one and three bytes at a time. -/
def freshLink : Link (ℕ × List (Name × Option Value)) :=
  ⟨⟨0, ⟨[], fun _ => 0, [], false⟩⟩, ⟨⟨[], fun _ => 2, [], false⟩, (0, [])⟩⟩

theorem carried_plainStart :
    Carried (handlerTag .start).requestClass (some (.struct xdrStart.name plainStart)) := by
  refine Carried.some fits_plainStart ?_
  intro body hencode
  cases hencode
  decide

theorem silentMethod_conforms :
    (handlerTag .start).Conforms (silentMethod .start (some (.struct xdrStart.name plainStart))
      freshLink.server.state.1).1 := Carried.none

/-- A start request through its stub reaches the handler like a local call, and its return value
comes back. -/
theorem remoteIsLocal_iff_start :
    RemoteIsLocal .control silentMethod .start .start
      (some (.struct xdrStart.name plainStart)) freshLink :=
  (remoteIsLocal_iff (by decide) rfl carried_plainStart silentMethod_conforms
    ⟨rfl, rfl, rfl, rfl⟩).mpr ⟨by decide, by decide⟩

/-- A request to set no session variables. -/
def noVariables : Option Value := some (.struct xdrSessionVars.name [("vars", .list [])])

theorem carried_noVariables : Carried (some xdrSessionVars) noVariables := by
  refine .some ⟨rfl, rfl, ⟨_, rfl, by decide, by simp⟩, trivial⟩ ?_
  intro body hencode
  cases hencode
  decide

/-- The handler of `session_variables_set` accepts the request, but its stub raises before it
sends anything. -/
theorem sessionVariablesSet_not_local :
    Carried (handlerTag .sessionVariablesSet).requestClass noVariables ∧
      (handlerTag .sessionVariablesSet).Conforms
        (silentMethod .sessionVariablesSet noVariables 0).1 ∧
      freshLink.Idle ∧
      ¬ RemoteIsLocal .control silentMethod .sessionVariablesSet .sessionVariablesSet noVariables
        freshLink :=
  ⟨carried_noVariables, Carried.none, ⟨rfl, rfl, rfl, rfl⟩, not_remoteIsLocal_of_error rfl⟩

end OpenDiamond.RpcClient
