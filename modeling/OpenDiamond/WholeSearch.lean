import Mathlib.Data.List.Lex
import OpenDiamond.BlastChannel
import OpenDiamond.BlastSet
import OpenDiamond.Lib.Ordered
import OpenDiamond.ObjectAttributes
import OpenDiamond.ReplyMatching

/-!
# A search from the scopes to the results

Every server evaluates the objects of its scope and sends the accepted ones on its blast
channel. The client asks every server for objects, one call after the other, and merges what
they return. Between an object that a server accepts and a result that the client yields lie
the attributes that are sent, their encoding, the framing, the threads of both sides and
their queues.
-/

namespace OpenDiamond.WholeSearch

open Lib.Ordered Lib.OrderedDict Lib.Processes Lib.Runs Lib.Sockets Lib.Unicode
open Xdr Protocol Rpc RpcClient
open BlastChannel (Payload Carries deliveries emptyXdr searchStep ExactlyOnce)
open BlastSet (Item Connections ofConn setStep)
open ObjectAttributes (Object Iteration attrObjId getResult sendKeys xdrAttributes)

/-! ## What a server sends -/

/-- `XDR_attribute`. -/
def attributeXdr (attr : Text × Bytes) : Value :=
  .struct xdrAttribute.name [("name", .text attr.1), ("value", .bytes attr.2)]

/-- `XDR_object`. -/
def objectXdr (attrs : List (Text × Bytes)) : Value :=
  .struct xdrObject.name [("attrs", .list (attrs.map attributeXdr))]

section Sending

variable (iteration : Iteration) (pushAttrs : Option (Finset Text))

/-- The attributes of an object that are sent. -/
def sentAttrs (obj : Object) : List (Text × Bytes) :=
  (xdrAttributes iteration obj pushAttrs false).getD []

/-- `xdr` of an object that can be sent. -/
def xdr (obj : Object) : Value := objectXdr (sentAttrs iteration pushAttrs obj)

/-- The attributes of an object can be encoded, and fit into a message. -/
structure Sendable (obj : Object) : Prop where
  /-- The list of attributes. -/
  encodes : (xdrAttributes iteration obj pushAttrs false).isSome
  /-- The message. -/
  carried : Carried (some xdrObject) (some (xdr iteration pushAttrs obj))

/-! ## What a client receives -/

/-- `attr.name` and `attr.value`. -/
def attributeOf : Value → Option (Text × Bytes)
  | .struct _ fields =>
    match find fields "name", find fields "value" with
    | some (.text name), some (.bytes value) => some (name, value)
    | _, _ => none
  | _ => none

/-- The attributes of a reply to `get_object`. -/
def attributesOf : Option Value → Option (List (Text × Bytes))
  | some (.struct _ fields) =>
    match find fields "attrs" with
    | some (.list items) => items.mapM attributeOf
    | _ => none
  | _ => none

variable {R : Type} (unpack : Dict Text Bytes → Option R)

/-- `_handle_objects` over a number of calls that are answered. What becomes of the attributes
is `unpack_attributes`, or nothing if the client does not want it. -/
def handleObjects : ℕ → Client → List (Item R)
  | 0, _ => []
  | n + 1, client =>
    match ReplyMatching.call client (stub .getObject) none with
    | (.returned reply, client) =>
      match attributesOf reply with
      | none => [.unpackError]
      | some attrs =>
        match getResult attrs with
        | none => []
        | some dct =>
          match unpack dct with
          | none => [.unpackError]
          | some value => .result value :: handleObjects n client
    | (.disconnected, _) => []
    | (.raised _ _, _) => []
    -- `XDREncodingError` is no `RPCError`, and leaves the generator
    | (.undecodable _, _) => [.unpackError]
    | (.unencodable, _) => [.unpackError]

/-- What the client makes of an object. -/
def result (obj : Object) : Option R :=
  unpack (Dict.empty.setAll (sentAttrs iteration pushAttrs obj))

/-! ## Servers -/

/-- The messages of a client that asks for objects. -/
def requests (calls : ℕ) : List Frame :=
  (List.range calls).map fun sequence => ⟨sequence, rpcPending, 2, []⟩

/-- A run of a server whose client only asks for objects, and whose accepted objects can be
sent. -/
structure Server where
  /-- The number of workers. -/
  workers : ℕ
  /-- The scope. -/
  objects : List Object
  /-- The chunks in which the socket delivers. -/
  schedule : ℕ → ℕ
  /-- The steps. -/
  labels : List (Label (BlastChannel.Choice Object) { frame : Frame // frame.InRange })
  /-- The state that is reached. -/
  state : System (BlastChannel.Shared Object) (BlastChannel.Proc Object)
  /-- The steps lead to the state. -/
  run : exec (searchStep (xdr iteration pushAttrs))
    (BlastChannel.initial workers objects schedule) labels = some state
  /-- The calls that the client has made. -/
  calls : ℕ
  /-- Nothing else has arrived. -/
  asked : state.shared.record.arrived = requests calls
  /-- What is accepted can be sent. -/
  sendable : ∀ index obj, state.shared.record.verdict index = some (true, obj) →
    Sendable iteration pushAttrs obj

variable {iteration pushAttrs}

/-- What the server has done. -/
abbrev Server.record (server : Server iteration pushAttrs) : BlastChannel.Record Object :=
  server.state.shared.record

/-- The object under an index, if the server has accepted it. -/
def acceptedAt (verdict : ℕ → Option (Bool × Object)) (index : ℕ) : Option Object :=
  match verdict index with
  | some (true, obj) => some obj
  | _ => none

/-- The objects that the server has accepted. -/
def Server.accepted (server : Server iteration pushAttrs) : List Object :=
  (List.range server.objects.length).filterMap (acceptedAt server.record.verdict)

/-- The server has sent the end marker. -/
def Server.Ended (server : Server iteration pushAttrs) : Prop :=
  deliveries server.record.exchanges .ended ≠ 0

/-- What the thread of a connection gets. -/
def Server.stream (server : Server iteration pushAttrs) (sock : Socket) : List (Item R) :=
  handleObjects unpack server.record.exchanges.length ⟨0, sock⟩

/-! ## What the client reads -/

/-- The client takes the attributes out of an object as the server put them in. -/
theorem attributesOf_objectXdr (attrs : List (Text × Bytes)) :
    attributesOf (some (objectXdr attrs)) = some attrs := by
  have hitems : (attrs.map attributeXdr).mapM attributeOf = some attrs := by
    induction attrs with
    | nil => rfl
    | cons attr rest ih =>
      have hattr : attributeOf (attributeXdr attr) = some attr := rfl
      rw [List.map_cons, List.mapM_cons, hattr, ih]
      rfl
  exact hitems

/-- For an object that can be sent the server gives exactly these attributes. -/
theorem xdrAttributes_eq {obj : Object} (h : Sendable iteration pushAttrs obj) :
    xdrAttributes iteration obj pushAttrs false = some (sentAttrs iteration pushAttrs obj) := by
  obtain ⟨attrs, hattrs⟩ := Option.isSome_iff_exists.mp h.encodes
  rw [sentAttrs, hattrs, Option.getD_some]

/-- An object whose ID was not omitted does not end the search. -/
theorem isSome_getResult_sentAttrs {obj : Object} (h : Sendable iteration pushAttrs obj)
    (hid : attrObjId ∉ obj.omitAttrs) : (getResult (sentAttrs iteration pushAttrs obj)).isSome := by
  have hnames := (ObjectAttributes.xdrAttributes_spec iteration (xdrAttributes_eq h)).1
  have hmem : attrObjId ∈ (sentAttrs iteration pushAttrs obj).map Prod.fst := by
    rw [hnames, iteration.mem_list]
    exact Finset.mem_sdiff.mpr ⟨(obj.mem_names _).mpr obj.named, hid⟩
  exact ObjectAttributes.isSome_getResult hmem

/-- A result with an object ID is the dictionary of the attributes. -/
theorem getResult_eq {attrs : List (Text × Bytes)} (h : (getResult attrs).isSome) :
    getResult attrs = some (Dict.empty.setAll attrs) := by
  unfold getResult at h ⊢
  dsimp only at h ⊢
  split
  · rename_i hempty
    rw [if_pos hempty] at h
    cases h
  · rfl

/-- What the loop yields when the replies carry the given attributes. -/
def items : List (List (Text × Bytes)) → List (Item R)
  | [] => []
  | attrs :: rest =>
    match getResult attrs with
    | none => []
    | some dct =>
      match unpack dct with
      | none => [.unpackError]
      | some value => .result value :: items rest

/-- A reply that carries an object with the given attributes. -/
structure Brings (reply : Frame) (attrs : List (Text × Bytes)) : Prop where
  /-- The reply is a message. -/
  inRange : reply.InRange
  /-- The stub returns the object. -/
  result : (stub .getObject).result reply.status reply.body = .returned (some (objectXdr attrs))

/-- A call of `get_object`, with nothing in the way. -/
def getObject : ReplyMatching.Exchange := ⟨stub .getObject, none, [], []⟩

/-- The request for an object can be sent. -/
theorem getObject_valid : getObject.Valid := by
  refine ⟨⟨[], rfl, by decide⟩, by decide, ?_⟩
  intro frame hframe
  cases hframe

/-- The loop yields what the replies carry. -/
theorem handleObjects_eq {replies : List Frame} {attrs : List (List (Text × Bytes))}
    (h : List.Forall₂ Brings replies attrs) {client : Client}
    (hsequence : client.sequence + replies.length ≤ 2 ^ 32)
    (hincoming : client.sock.incoming = wire replies) :
    handleObjects unpack replies.length client = items unpack attrs := by
  induction h generalizing client with
  | nil => rfl
  | @cons reply attrs replies rest hbrings _ ih =>
    rw [List.length_cons] at hsequence ⊢
    rw [wire_cons] at hincoming
    have hbound : client.sequence < 2 ^ 32 := by omega
    obtain ⟨after, hcall, hafter, hrest⟩ :=
      ReplyMatching.call_next getObject_valid hbound hbrings.inRange hincoming
    have hcall' : ReplyMatching.call client (stub .getObject) none =
        (.returned (some (objectXdr attrs)), after) := by
      rw [← hbrings.result]
      exact hcall
    have hnext : after.sequence + replies.length ≤ 2 ^ 32 := by
      rw [hafter]
      omega
    simp only [handleObjects, hcall', attributesOf_objectXdr, items]
    cases getResult attrs with
    | none => rfl
    | some dct =>
      cases hunpack : unpack dct with
      | none => simp only [hunpack]
      | some value => simp only [hunpack, ih hnext hrest]

/-! ## What a server has sent -/

/-- The index of the object that an exchange delivers. -/
def objectIndex (exchange : BlastChannel.Exchange) : Option ℕ :=
  match exchange.delivered with
  | some (.object index) => some index
  | _ => none

/-- The objects that the exchanges have delivered, by their indices. -/
def delivered (exchanges : List BlastChannel.Exchange) : List ℕ :=
  exchanges.filterMap objectIndex

/-- Where every exchange delivers something, the end marker can only come last. -/
theorem map_delivered {exchanges : List BlastChannel.Exchange}
    (hall : ∀ exchange ∈ exchanges, exchange.delivered.isSome)
    (hlast : exchanges.Pairwise fun exchange later =>
      exchange.delivered = some .ended → later.delivered = none) :
    exchanges.map BlastChannel.Exchange.delivered =
      (delivered exchanges).map (fun index => some (.object index)) ++
        if deliveries exchanges .ended = 0 then [] else [some .ended] := by
  induction exchanges with
  | nil => rfl
  | cons exchange rest ih =>
    obtain ⟨hfirst, hrest⟩ := List.pairwise_cons.mp hlast
    have htail := ih (fun other hother => hall other (List.mem_cons_of_mem _ hother)) hrest
    obtain ⟨payload, hpayload⟩ :=
      Option.isSome_iff_exists.mp (hall exchange List.mem_cons_self)
    cases payload with
    | object index =>
      have hcount : deliveries (exchange :: rest) .ended = deliveries rest .ended := by
        simp [deliveries, hpayload]
      have hindex : objectIndex exchange = some index := by simp [objectIndex, hpayload]
      rw [List.map_cons, htail, hcount, hpayload, delivered, delivered,
        List.filterMap_cons_some hindex]
      rfl
    | ended =>
      -- nothing is delivered after the end marker
      have hnil : rest = [] := by
        cases rest with
        | nil => rfl
        | cons other more =>
          have hnone := hfirst other List.mem_cons_self hpayload
          have hsome := hall other (List.mem_cons_of_mem _ List.mem_cons_self)
          rw [hnone] at hsome
          cases hsome
      subst hnil
      simp [deliveries, delivered, objectIndex, hpayload]

/-- An object is among those delivered when its payload was delivered at all. -/
theorem mem_delivered {exchanges : List BlastChannel.Exchange} {index : ℕ} :
    index ∈ delivered exchanges ↔ deliveries exchanges (.object index) ≠ 0 := by
  rw [delivered, List.mem_filterMap, deliveries, Nat.ne_zero_iff_zero_lt, List.countP_pos_iff]
  refine exists_congr fun exchange => and_congr_right fun _ => ?_
  rw [objectIndex]
  cases exchange.delivered with
  | none => simp
  | some payload => cases payload <;> simp

/-- Where nothing is delivered twice, the list of what was delivered repeats nothing. -/
theorem nodup_delivered {exchanges : List BlastChannel.Exchange}
    (h : ∀ index, deliveries exchanges (.object index) ≤ 1) : (delivered exchanges).Nodup := by
  rw [List.nodup_iff_count_le_one]
  intro index
  have hcount : (delivered exchanges).count index = deliveries exchanges (.object index) := by
    clear h
    induction exchanges with
    | nil => rfl
    | cons exchange rest ih =>
      rw [deliveries, List.countP_cons, ← deliveries, ← ih, delivered, List.filterMap_cons,
        objectIndex]
      cases exchange.delivered with
      | none => simp [delivered]
      | some payload => cases payload <;> simp [delivered, List.count_cons]
  rw [hcount]
  exact h index

/-- What holds of every state of a server's channel holds of this one. -/
theorem Server.holds (server : Server iteration pushAttrs) :
    Holds (BlastChannel.SharedInv (xdr iteration pushAttrs) server.objects.length)
      (BlastChannel.ProcOk (xdr iteration pushAttrs)) server.state :=
  BlastChannel.run_holds (BlastChannel.initial_holds _ _ _ _) server.run

/-- In particular no accepted object has been delivered twice. -/
theorem Server.exactlyOnce (server : Server iteration pushAttrs) :
    ExactlyOnce (xdr iteration pushAttrs) server.objects.length server.state.shared :=
  BlastChannel.exactlyOnce_of_holds server.holds

variable (iteration pushAttrs) in
/-- What a payload carries. -/
def payloadAttrs (verdict : ℕ → Option (Bool × Object)) : Option Payload → List (Text × Bytes)
  | some (.object index) =>
    ((acceptedAt verdict index).map (sentAttrs iteration pushAttrs)).getD []
  | _ => []

/-- An object was accepted at an index when the verdict there says so. -/
theorem acceptedAt_eq {verdict : ℕ → Option (Bool × Object)} {index : ℕ} {obj : Object} :
    acceptedAt verdict index = some obj ↔ verdict index = some (true, obj) := by
  rw [acceptedAt]
  split
  · rename_i other hverdict
    simp [hverdict]
  · rename_i hnone
    refine iff_of_false (by simp) ?_
    intro hverdict
    exact hnone obj hverdict

/-- Every exchange is a call of `get_object`, and its reply carries what it delivers. -/
theorem Server.brings (server : Server iteration pushAttrs) {exchange : BlastChannel.Exchange}
    (h : exchange ∈ server.record.exchanges) :
    exchange.delivered.isSome ∧ Brings exchange.reply
      (payloadAttrs iteration pushAttrs server.record.verdict exchange.delivered) := by
  have hrequest : exchange.request ∈ server.record.arrived := by
    have hmem := List.mem_map_of_mem (f := BlastChannel.Exchange.request) h
    exact List.mem_of_mem_filter (server.exactlyOnce.requests.subset hmem)
  have hrange := server.holds.1.stream.inRange exchange.request hrequest
  have hcmd : exchange.request.cmd = 2 := by
    rw [server.asked, requests, List.mem_map] at hrequest
    obtain ⟨sequence, _, hframe⟩ := hrequest
    rw [← hframe]
  rcases server.exactlyOnce.contents exchange h with ⟨_, hother, _⟩ |
    ⟨payload, fields, body, hpayload, _, hcarries, hencode, hreply⟩
  · exact absurd hcmd hother
  refine ⟨by rw [hpayload]; rfl, ?_⟩
  have hvalue : Carried (some xdrObject) (some (.struct xdrObject.name fields)) ∧
      objectXdr (payloadAttrs iteration pushAttrs server.record.verdict exchange.delivered) =
        .struct xdrObject.name fields := by
    rw [hpayload]
    cases payload with
    | object index =>
      obtain ⟨obj, hverdict, hobj⟩ := hcarries
      rw [payloadAttrs, acceptedAt_eq.mpr hverdict, hobj]
      exact ⟨(server.sendable index obj hverdict).carried, rfl⟩
    | ended =>
      have hempty : Value.struct xdrObject.name fields = emptyXdr := hcarries
      rw [hempty]
      exact ⟨BlastChannel.carried_emptyXdr, rfl⟩
  obtain ⟨hcarried, hattrs⟩ := hvalue
  have hlength : body.length < 2 ^ 32 := by
    cases hcarried with
    | some _ hlength => exact hlength body hencode
  have hbody : ((stub .getObject).procedure fun _ (state : Unit) => (.crashed, state)).ReplyBody
      (some (.struct xdrObject.name fields)) body := .some rfl hencode
  rw [hreply]
  refine ⟨hrange.reply (by decide) hlength, ?_⟩
  rw [hattrs]
  exact Tag.result_returned hcarried hbody

/-- The sequence numbers of the answered calls fit their header field. -/
theorem Server.length_exchanges_le (server : Server iteration pushAttrs) :
    server.record.exchanges.length ≤ 2 ^ 32 := by
  have hcalls : server.calls ≤ 2 ^ 32 := by
    by_contra hlarge
    have hframe : Frame.mk (2 ^ 32) rpcPending 2 [] ∈ server.record.arrived := by
      rw [server.asked, requests, List.mem_map]
      exact ⟨2 ^ 32, List.mem_range.mpr (Nat.lt_of_not_le hlarge), rfl⟩
    have hrange := (server.holds.1.stream.inRange _ hframe).sequence
    exact absurd hrange (Nat.lt_irrefl _)
  have hbegins := server.exactlyOnce.requests.length_le
  have hfilter := List.length_filter_le Frame.isRequest server.record.arrived
  have harrived : server.record.arrived.length = server.calls := by
    rw [server.asked, requests, List.length_map, List.length_range]
  rw [List.length_map] at hbegins
  exact (hbegins.trans (hfilter.trans harrived.le)).trans hcalls

/-- The objects that the server has sent. -/
def Server.sent (server : Server iteration pushAttrs) : List Object :=
  (delivered server.record.exchanges).filterMap (acceptedAt server.record.verdict)

/-- A delivered object was accepted. -/
theorem Server.isSome_acceptedAt (server : Server iteration pushAttrs) {index : ℕ}
    (h : index ∈ delivered server.record.exchanges) :
    (acceptedAt server.record.verdict index).isSome := by
  by_contra hnone
  have hdropped : ∀ obj, server.record.verdict index ≠ some (true, obj) := by
    intro obj hverdict
    rw [acceptedAt_eq.mpr hverdict] at hnone
    exact hnone rfl
  exact mem_delivered.mp h (server.exactlyOnce.dropped index hdropped)

/-- The attributes of delivered objects are those of the accepted objects, in the order of
delivery. -/
theorem map_payloadAttrs {verdict : ℕ → Option (Bool × Object)} {indices : List ℕ}
    (h : ∀ index ∈ indices, (acceptedAt verdict index).isSome) :
    indices.map (fun index => payloadAttrs iteration pushAttrs verdict (some (.object index))) =
      (indices.filterMap (acceptedAt verdict)).map (sentAttrs iteration pushAttrs) := by
  induction indices with
  | nil => rfl
  | cons index rest ih =>
    obtain ⟨obj, hobj⟩ := Option.isSome_iff_exists.mp (h index List.mem_cons_self)
    rw [List.map_cons, ih fun other hother => h other (List.mem_cons_of_mem _ hother),
      List.filterMap_cons_some hobj, List.map_cons, payloadAttrs, hobj]
    rfl

/-- What the thread of a connection gets: the objects that were sent, and the end. -/
theorem Server.stream_eq (server : Server iteration pushAttrs) {sock : Socket}
    (hsock : sock.incoming = server.state.shared.sock.outgoing) :
    server.stream unpack sock = items unpack (server.sent.map (sentAttrs iteration pushAttrs) ++
      if deliveries server.record.exchanges .ended = 0 then [] else [[]]) := by
  have hbrings : List.Forall₂ Brings (server.record.exchanges.map BlastChannel.Exchange.reply)
      (server.record.exchanges.map fun exchange =>
        payloadAttrs iteration pushAttrs server.record.verdict exchange.delivered) := by
    rw [List.forall₂_map_left_iff, List.forall₂_map_right_iff, List.forall₂_same]
    exact fun exchange hexchange => (server.brings hexchange).2
  have hstart : (Client.mk 0 sock).sequence +
      (server.record.exchanges.map BlastChannel.Exchange.reply).length ≤ 2 ^ 32 := by
    rw [List.length_map, Nat.zero_add]
    exact server.length_exchanges_le
  have hincoming : (Client.mk 0 sock).sock.incoming =
      wire (server.record.exchanges.map BlastChannel.Exchange.reply) :=
    hsock.trans server.exactlyOnce.replies
  have hitems := handleObjects_eq unpack hbrings hstart hincoming
  have hdelivered := map_delivered (fun exchange hexchange => (server.brings hexchange).1)
    server.exactlyOnce.last
  have hattrs : (server.record.exchanges.map fun exchange =>
      payloadAttrs iteration pushAttrs server.record.verdict exchange.delivered) =
        (server.record.exchanges.map BlastChannel.Exchange.delivered).map
          (payloadAttrs iteration pushAttrs server.record.verdict) := by
    rw [List.map_map]
    rfl
  rw [List.length_map] at hitems
  rw [Server.stream, hitems, hattrs, hdelivered, List.map_append, List.map_map]
  congr 2
  · exact map_payloadAttrs fun index hindex => server.isSome_acceptedAt hindex
  · split <;> rfl

/-! ## From what is sent to what is accepted -/

/-- Only objects of the scope are accepted. -/
theorem index_lt_of_acceptedAt {xdr : Object → Value} {total : ℕ}
    {s : System (BlastChannel.Shared Object) (BlastChannel.Proc Object)}
    (hs : Holds (BlastChannel.SharedInv xdr total) (BlastChannel.ProcOk xdr) s) {index : ℕ}
    (h : (acceptedAt s.shared.record.verdict index).isSome) : index < total := by
  by_contra hout
  obtain ⟨obj, hobj⟩ := Option.isSome_iff_exists.mp h
  have hunknown := (hs.1.queue.known index).mpr (Nat.le_of_not_lt hout)
  have hfresh := (hs.1.ledger.fresh index (by simp [hunknown]) (by simp [hunknown])).1
  have hverdict := acceptedAt_eq.mp hobj
  rw [hfresh] at hverdict
  cases hverdict

/-- No object is sent twice, and none that was not accepted. -/
theorem Server.sent_subperm (server : Server iteration pushAttrs) :
    server.sent.Subperm server.accepted := by
  have hsubset : delivered server.record.exchanges ⊆ List.range server.objects.length := by
    intro index hindex
    exact List.mem_range.mpr (index_lt_of_acceptedAt server.holds (server.isSome_acceptedAt hindex))
  have hnodup := nodup_delivered server.exactlyOnce.object
  obtain ⟨indices, hperm, hsublist⟩ := hnodup.subperm hsubset
  exact ⟨indices.filterMap _, hperm.filterMap _, hsublist.filterMap _⟩

/-- Leaving out first what is left out anyway changes nothing. -/
theorem filterMap_filter_isSome {α β : Type} (f : α → Option β) (entries : List α) :
    (entries.filter fun entry => (f entry).isSome).filterMap f = entries.filterMap f := by
  induction entries with
  | nil => rfl
  | cons entry rest ih =>
    cases hentry : f entry with
    | none => simp [hentry, ih]
    | some value => simp [hentry, ih]

/-- Once the end marker has been sent, every accepted object has been sent. -/
theorem Server.sent_perm (server : Server iteration pushAttrs) (hended : server.Ended) :
    server.sent.Perm server.accepted := by
  have hcomplete := server.exactlyOnce.complete hended
  have hindices : (delivered server.record.exchanges).Perm
      ((List.range server.objects.length).filter fun index =>
        (acceptedAt server.record.verdict index).isSome) := by
    rw [List.perm_ext_iff_of_nodup (nodup_delivered server.exactlyOnce.object)
      (List.nodup_range.filter _)]
    intro index
    rw [List.mem_filter, List.mem_range]
    constructor
    · intro hindex
      have haccepted := server.isSome_acceptedAt hindex
      exact ⟨index_lt_of_acceptedAt server.holds haccepted, haccepted⟩
    · rintro ⟨hlt, haccepted⟩
      obtain ⟨accept, obj, hverdict, hcount⟩ := hcomplete index hlt
      obtain ⟨other, hother⟩ := Option.isSome_iff_exists.mp haccepted
      have hsame := hverdict.symm.trans (acceptedAt_eq.mp hother)
      obtain rfl : accept = true := by
        injection hsame with hsame
        exact (Prod.mk.inj hsame).1
      rw [mem_delivered, hcount, if_pos rfl]
      exact Nat.one_ne_zero
  have hperm := hindices.filterMap (acceptedAt server.record.verdict)
  rw [filterMap_filter_isSome] at hperm
  exact hperm

/-- What the client has made of a list of objects, as far as it got, are the results of the first of
them. -/
theorem exists_of_prefix_items {objs : List Object} {tail : List (List (Text × Bytes))}
    (htail : items unpack tail = []) {values : List R}
    (h : values.map Item.result <+:
      items unpack (objs.map (sentAttrs iteration pushAttrs) ++ tail)) :
    ∃ front, front <+: objs ∧
      values.map some = front.map (result iteration pushAttrs unpack) := by
  induction objs generalizing values with
  | nil =>
    rw [List.map_nil, List.nil_append, htail] at h
    exact ⟨[], List.nil_prefix, by simpa using h⟩
  | cons obj rest ih =>
    cases values with
    | nil => exact ⟨[], List.nil_prefix, rfl⟩
    | cons value values =>
      rw [List.map_cons, List.map_cons, List.cons_append, items] at h
      cases hattrs : getResult (sentAttrs iteration pushAttrs obj) with
      | none => simp [hattrs] at h
      | some dct =>
        have hdct : dct = Dict.empty.setAll (sentAttrs iteration pushAttrs obj) := by
          have heq := getResult_eq (Option.isSome_of_eq_some hattrs)
          rw [hattrs] at heq
          exact Option.some.inj heq
        cases hunpack : unpack dct with
        | none => simp [hattrs, hunpack] at h
        | some first =>
          simp only [hattrs, hunpack, List.cons_prefix_cons, Item.result.injEq] at h
          obtain ⟨front, hfront, hvalues⟩ := ih h.2
          refine ⟨obj :: front, List.cons_prefix_cons.mpr ⟨rfl, hfront⟩, ?_⟩
          rw [List.map_cons, List.map_cons, hvalues, h.1, ← hunpack, hdct]
          rfl

/-- Where no object ends the search and all can be unpacked, the client gets all of them. -/
theorem items_complete {objs : List Object} {tail : List (List (Text × Bytes))}
    (htail : items unpack tail = [])
    (h : ∀ obj ∈ objs, (getResult (sentAttrs iteration pushAttrs obj)).isSome ∧
      (result iteration pushAttrs unpack obj).isSome) :
    ∃ values : List R, items unpack (objs.map (sentAttrs iteration pushAttrs) ++ tail) =
      values.map Item.result ∧ values.map some = objs.map (result iteration pushAttrs unpack) := by
  induction objs with
  | nil => exact ⟨[], htail, rfl⟩
  | cons obj rest ih =>
    obtain ⟨values, hitems, hvalues⟩ := ih fun other hother => h other (List.mem_cons_of_mem _ hother)
    obtain ⟨hattrs, hresult⟩ := h obj List.mem_cons_self
    obtain ⟨value, hvalue⟩ := Option.isSome_iff_exists.mp hresult
    refine ⟨value :: values, ?_, ?_⟩
    · have hunpack : unpack (Dict.empty.setAll (sentAttrs iteration pushAttrs obj)) = some value :=
        hvalue
      rw [List.map_cons, List.cons_append, items, getResult_eq hattrs]
      simp only [hunpack, hitems, List.map_cons]
    · rw [List.map_cons, List.map_cons, hvalues, hvalue]

/-! ## The merged stream -/

/-- What is yielded from a connection begins what the connection delivers. -/
theorem yielded_prefix {c : Connections R} {s : BlastSet.Shared R} {conn : ℕ}
    {receiver : BlastSet.Receiver R} (h : c.ReceiverOk s conn receiver) :
    (ofConn conn s.yielded).map Item.result <+: c.stream conn := by
  have hfollows : ∀ held rest, c.Follows s conn held rest →
      (ofConn conn s.yielded).map Item.result <+: c.stream conn := by
    rintro held rest ⟨hput, hstream⟩
    rw [← hstream, hput, BlastSet.Shared.put, BlastSet.ofConn_append, List.map_append]
    simp only [List.append_assoc]
    exact List.prefix_append _ _
  have hended : c.Ended s conn → (ofConn conn s.yielded).map Item.result <+: c.stream conn := by
    rintro (hs | ⟨rest, hs⟩)
    · exact hfollows _ _ hs
    · exact hfollows _ _ hs
  cases receiver with
  | receiving rest => exact hfollows _ _ h.1
  | putting value rest => exact hfollows _ _ h.1
  | leaving => exact hended h.1
  | gone => exact hended h

/-- When the generator has returned with an empty queue, it has yielded everything that a
connection without exceptions delivers. -/
theorem yielded_eq_stream {c : Connections R} {s : System (BlastSet.Shared R) (BlastSet.Receiver R)}
    (h : Holds c.SharedInv c.ReceiverOk s) (hreturned : s.shared.consumer = .returned)
    (hlate : s.shared.late = 0) {conn : ℕ} (hconn : conn ∈ c.conns)
    (herror : .unpackError ∉ c.stream conn) :
    (ofConn conn s.shared.yielded).map Item.result = c.stream conn := by
  have hconsumer := h.1.consumer
  rw [hreturned] at hconsumer
  obtain ⟨hall, hqueue, hpending⟩ := hconsumer
  have hempty : s.shared.pendingObjs = [] := List.length_eq_zero_iff.mp (hqueue.trans hlate)
  have hgone : conn ∉ s.shared.pendingConns := by simp [hpending]
  rcases (h.2 conn).ended (hall conn hconn) hgone with ⟨hput, hstream⟩ | ⟨rest, hput, hstream⟩
  · rw [← hstream, hput, BlastSet.Shared.put, hempty, List.append_nil, List.append_nil,
      List.append_nil]
  · refine absurd ?_ herror
    rw [← hstream, hput]
    simp

/-- The connections of a client to servers. -/
def connections (hosts : List ℕ) (server : ℕ → Server iteration pushAttrs) (sock : ℕ → Socket) :
    Connections R :=
  ⟨hosts, fun host => (server host).stream unpack (sock host)⟩

/-- End markers yield no items to the caller. -/
theorem items_end : ∀ count : ℕ, items unpack (if count = 0 then [] else [[]]) = [] := by
  intro count
  split <;> rfl

/-- What is yielded from a server comes from different objects that the server accepted. When
the generator has returned with no result left behind, and a server has sent the end marker,
whose accepted objects kept their ID and can be unpacked, then every object in the scope of
the server has been evaluated, and every accepted one has been yielded. -/
theorem accepted_yielded {hosts : List ℕ} {server : ℕ → Server iteration pushAttrs}
    {sock : ℕ → Socket} {labels : List (Label Unit BlastSet.Move)}
    {s : System (BlastSet.Shared R) (BlastSet.Receiver R)}
    (hsock : ∀ host, (sock host).incoming = (server host).state.shared.sock.outgoing)
    (hrun : exec setStep (connections unpack hosts server sock).initial labels = some s) :
    (∀ host, ∃ order : List Object, order.Subperm (server host).accepted ∧
      (ofConn host s.shared.yielded).map some = order.map (result iteration pushAttrs unpack)) ∧
    (s.shared.consumer = .returned → s.shared.late = 0 →
      ∀ host ∈ hosts, (server host).Ended →
        (∀ obj ∈ (server host).accepted, attrObjId ∉ obj.omitAttrs ∧
          (result iteration pushAttrs unpack obj).isSome) →
        (∀ index < (server host).objects.length, ((server host).record.verdict index).isSome) ∧
        ∃ order : List Object, order.Perm (server host).accepted ∧
          (ofConn host s.shared.yielded).map some =
            order.map (result iteration pushAttrs unpack)) := by
  have hs := BlastSet.run_holds hrun
  have hstream : ∀ host, (connections unpack hosts server sock).stream host = items unpack
      ((server host).sent.map (sentAttrs iteration pushAttrs) ++
        if deliveries (server host).record.exchanges .ended = 0 then [] else [[]]) :=
    fun host => (server host).stream_eq unpack (hsock host)
  constructor
  · intro host
    have hbegins := yielded_prefix (hs.2 host)
    rw [hstream host] at hbegins
    obtain ⟨front, hfront, hvalues⟩ := exists_of_prefix_items unpack (items_end unpack _) hbegins
    exact ⟨front, hfront.sublist.subperm.trans (server host).sent_subperm, hvalues⟩
  · intro hreturned hlate host hhost hended hkept
    have hperm := (server host).sent_perm hended
    have hall : ∀ obj ∈ (server host).sent,
        (getResult (sentAttrs iteration pushAttrs obj)).isSome ∧
          (result iteration pushAttrs unpack obj).isSome := by
      intro obj hobj
      obtain ⟨hid, hresult⟩ := hkept obj (hperm.mem_iff.mp hobj)
      obtain ⟨index, _, hindex⟩ := List.mem_filterMap.mp hobj
      have hsendable := (server host).sendable index obj (acceptedAt_eq.mp hindex)
      exact ⟨isSome_getResult_sentAttrs hsendable hid, hresult⟩
    obtain ⟨values, hitems, hvalues⟩ := items_complete unpack (items_end unpack _) hall
    have hdelivers := (hstream host).trans hitems
    have herror : Item.unpackError ∉ (connections unpack hosts server sock).stream host := by
      rw [hdelivers]
      simp
    have hyielded := yielded_eq_stream hs hreturned hlate hhost herror
    rw [hdelivers] at hyielded
    have hinj : Function.Injective (Item.result : R → Item R) := fun _ _ h => Item.result.inj h
    rw [hinj.list_map hyielded]
    refine ⟨?_, (server host).sent, hperm, hvalues⟩
    intro index hindex
    obtain ⟨accept, obj, hverdict, _⟩ := (server host).exactlyOnce.complete hended index hindex
    exact Option.isSome_of_eq_some hverdict

end Sending

/-! ## A search of two servers -/

/-- A set is gone through in the order of the names. -/
def sorted : Iteration where
  list := inOrder
  nodup := nodup_inOrder
  mem_list _ _ := mem_inOrder

/-- The names and values of an object can be encoded, and its message is short enough. -/
def fitsMessage (attrs : List (Text × Bytes)) : Bool :=
  attrs.all (fun attr => (encodeUtf8 attr.1).any (fun data => data.length < 2 ^ 32) &&
    attr.2.length < 2 ^ 32) && attrs.length < 2 ^ 32 &&
    (encode xdrObject [("attrs", .list (attrs.map attributeXdr))]).all fun body =>
      body.length < 2 ^ 32

/-- What passes the test is carried by a message. -/
theorem carried_of_fitsMessage {attrs : List (Text × Bytes)} (h : fitsMessage attrs) :
    Carried (some xdrObject) (some (objectXdr attrs)) := by
  simp only [fitsMessage, Bool.and_eq_true, List.all_eq_true, Option.any_eq_true,
    Option.all_eq_true, decide_eq_true_eq] at h
  obtain ⟨⟨hattrs, hlength⟩, hbody⟩ := h
  refine .some ⟨rfl, rfl, ⟨_, rfl, by simpa using hlength, ?_⟩, trivial⟩ hbody
  intro value hvalue
  obtain ⟨attr, hattr, rfl⟩ := List.mem_map.mp hvalue
  obtain ⟨⟨data, hdata, hshort⟩, hsmall⟩ := hattrs attr hattr
  exact ⟨rfl, rfl, ⟨_, rfl, _, hdata, hshort⟩, ⟨_, rfl, hsmall⟩, trivial⟩

/-- An object under a number. -/
def numbered (digit : CodePoint) : Object :=
  { ObjectAttributes.plainObject with
    id := ofString "http://localhost/" ++ [digit]
    attrs := ObjectAttributes.plainObject.attrs.set attrObjId
      (.text (ofString "http://localhost/" ++ [digit, 0]))
    named := by simp
    omitted := by simp [ObjectAttributes.plainObject] }

/-- A call of `get_object` arrives. -/
def ask (sequence : ℕ) (h : sequence < 2 ^ 32) :
    Label (BlastChannel.Choice Object) { frame : Frame // frame.InRange } :=
  .env ⟨⟨sequence, rpcPending, 2, []⟩,
    ⟨h, rpcPending_inRange, handlerTag_cmd_inRange .getObject, Nat.two_pow_pos 32⟩⟩

/-- A run in which a client has asked for all that a server with the given scope accepts, and all
of it can be sent under its ID. -/
def servesAll (workers : ℕ) (objects : List Object) (calls : ℕ)
    (labels : List (Label (BlastChannel.Choice Object) { frame : Frame // frame.InRange })) :
    Bool :=
  ((exec (searchStep (xdr sorted none)) (BlastChannel.initial workers objects fun _ => 0)
    labels).map fun t => decide (deliveries t.shared.record.exchanges .ended = 1 ∧
      t.shared.record.arrived = requests calls ∧
      ((List.range objects.length).filterMap (acceptedAt t.shared.record.verdict)).length + 1 =
        calls ∧
      ((List.range objects.length).filterMap (acceptedAt t.shared.record.verdict)).all fun obj =>
        (xdrAttributes sorted obj none false).any fitsMessage &&
          decide (attrObjId ∉ obj.omitAttrs))) = some true

/-- The server of such a run. -/
theorem exists_server {workers : ℕ} {objects : List Object} {calls : ℕ}
    {labels : List (Label (BlastChannel.Choice Object) { frame : Frame // frame.InRange })}
    (h : servesAll workers objects calls labels) :
    ∃ server : Server sorted none, server.objects = objects ∧ server.Ended ∧
      server.accepted.length + 1 = calls ∧
      ∀ obj ∈ server.accepted, attrObjId ∉ obj.omitAttrs := by
  obtain ⟨t, ht, hresult⟩ := Option.map_eq_some_iff.mp (of_decide_eq_true h)
  obtain ⟨hended, harrived, hcalls, hall⟩ := of_decide_eq_true hresult
  simp only [List.all_eq_true, Bool.and_eq_true, Option.any_eq_true, decide_eq_true_eq] at hall
  have hs := BlastChannel.run_holds (BlastChannel.initial_holds _ _ _ _) ht
  have hsendable : ∀ index obj, t.shared.record.verdict index = some (true, obj) →
      Sendable sorted none obj := by
    intro index obj hverdict
    have haccepted := acceptedAt_eq.mpr hverdict
    have hlt := index_lt_of_acceptedAt hs (Option.isSome_of_eq_some haccepted)
    obtain ⟨⟨attrs, hattrs, hfits⟩, _⟩ :=
      hall obj (List.mem_filterMap.mpr ⟨index, List.mem_range.mpr hlt, haccepted⟩)
    refine ⟨Option.isSome_of_eq_some hattrs, ?_⟩
    rw [xdr, sentAttrs, hattrs]
    exact carried_of_fitsMessage hfits
  refine ⟨⟨workers, objects, _, labels, t, ht, calls, harrived, hsendable⟩, rfl, ?_, hcalls,
    fun obj hobj => (hall obj hobj).2⟩
  rw [Server.Ended, Server.record, hended]
  exact Nat.one_ne_zero

/-- The client of a server that has sent everything gets every object it accepted, and then the
end. -/
theorem Server.stream_of_ended (server : Server sorted none) (hended : server.Ended)
    (hid : ∀ obj ∈ server.accepted, attrObjId ∉ obj.omitAttrs) {sock : Socket}
    (hsock : sock.incoming = server.state.shared.sock.outgoing) :
    ∃ values : List (Dict Text Bytes), server.stream some sock = values.map Item.result ∧
      values.length = server.accepted.length := by
  have hall : ∀ obj ∈ server.sent, (getResult (sentAttrs sorted none obj)).isSome ∧
      (result sorted none some obj).isSome := by
    intro obj hobj
    obtain ⟨index, _, hindex⟩ := List.mem_filterMap.mp hobj
    have hsendable := server.sendable index obj (acceptedAt_eq.mp hindex)
    have hkept := hid obj ((server.sent_perm hended).mem_iff.mp hobj)
    exact ⟨isSome_getResult_sentAttrs hsendable hkept, rfl⟩
  obtain ⟨values, hitems, hvalues⟩ := items_complete some (items_end some _) hall
  refine ⟨values, (server.stream_eq some hsock).trans hitems, ?_⟩
  have hlength := congrArg List.length hvalues
  rw [List.length_map, List.length_map] at hlength
  exact hlength.trans (server.sent_perm hended).length_eq

/-- Two workers share three objects. The second object is dropped, and the end marker comes after
the two others. -/
def threeObjects : List (Label (BlastChannel.Choice Object) { frame : Frame // frame.InRange }) :=
  [ask 0 (by decide), .proc 0 .next, .proc 0 .next, .proc 1 .next, .proc 2 .next, .proc 0 .next,
    .proc 1 (.evaluate true (numbered 49)), .proc 2 (.evaluate false (numbered 50)),
    ask 1 (by decide), .proc 1 .next, .proc 2 .next, .proc 2 .next, .proc 1 .next,
    .proc 2 (.evaluate true (numbered 51)), .proc 1 .next, .proc 2 .next, .proc 2 .next,
    .proc 1 .next, ask 2 (by decide), .proc 2 .next, .proc 2 .next, .proc 1 .next, .proc 2 .next,
    .proc 0 .next, .proc 0 .next, .proc 0 .next, .proc 0 .next, .proc 0 .next]

/-- A worker accepts and sends the only object, and the thread sends the end marker. -/
def oneObject : List (Label (BlastChannel.Choice Object) { frame : Frame // frame.InRange }) :=
  [ask 0 (by decide), ask 1 (by decide), .proc 0 .next, .proc 1 .next,
    .proc 1 (.evaluate true (numbered 52)), .proc 1 .next, .proc 1 .next,
    .proc 1 .next, .proc 1 .next, .proc 1 .next, .proc 0 .next, .proc 0 .next, .proc 0 .next,
    .proc 0 .next, .proc 0 .next]

/-- The first server goes through its three objects to the end. -/
theorem servesAll_threeObjects :
    servesAll 2 [numbered 49, numbered 50, numbered 51] 3 threeObjects = true := by
  decide +kernel

/-- The second one does so with its single object. -/
theorem servesAll_oneObject : servesAll 1 [numbered 52] 2 oneObject = true := by
  decide +kernel

/-- A client that has fetched and yielded two results of one connection and one of another. -/
theorem exists_client {R : Type} (first second other : R) :
    ∃ labels s, exec setStep (Connections.initial ⟨[0, 1], fun conn => if conn = 0 then
        [.result first, .result second] else [.result other]⟩) labels = some s ∧
      s.shared.consumer = .returned ∧ s.shared.late = 0 :=
  ⟨[.env .start, .env .start, .env .start, .proc 0 (), .proc 1 (), .proc 1 (), .proc 0 (),
    .env .get, .proc 0 (), .proc 1 (), .proc 0 (), .env .get, .proc 0 (), .proc 1 (), .env .get,
    .env .timeout, .env .check, .proc 0 (), .env .timeout, .env .check], _, rfl, rfl, rfl⟩

/-- Two servers have three objects and one, and accept three of them. When the search has ended, the
client has yielded the accepted objects of each server. -/
theorem accepted_yielded_pair :
    ∃ (server : ℕ → Server sorted none) (s : System (BlastSet.Shared (Dict Text Bytes))
        (BlastSet.Receiver (Dict Text Bytes))),
      s.shared.consumer = .returned ∧ (server 0).objects.length = 3 ∧
      (server 0).accepted.length = 2 ∧ (server 1).accepted.length = 1 ∧
      ∀ host ∈ [0, 1], ∃ order : List Object, order.Perm (server host).accepted ∧
        (ofConn host s.shared.yielded).map some = order.map (result sorted none some) := by
  obtain ⟨first, hobjects, hended, hcount, hid⟩ := exists_server servesAll_threeObjects
  obtain ⟨second, _, hended', hcount', hid'⟩ := exists_server servesAll_oneObject
  have htwo : first.accepted.length = 2 := by omega
  have hone : second.accepted.length = 1 := by omega
  let server : ℕ → Server sorted none := fun host => if host = 0 then first else second
  let sock : ℕ → Socket := fun host =>
    ⟨(server host).state.shared.sock.outgoing, fun _ => 0, [], false⟩
  obtain ⟨values, hvalues, hlength⟩ :=
    first.stream_of_ended hended hid (rfl : (sock 0).incoming = _)
  obtain ⟨others, hothers, hlength'⟩ :=
    second.stream_of_ended hended' hid' (rfl : (sock 1).incoming = _)
  obtain ⟨value, value', rfl⟩ := List.length_eq_two.mp (hlength.trans htwo)
  obtain ⟨other, rfl⟩ := List.length_eq_one_iff.mp (hlength'.trans hone)
  have hconns : connections some [0, 1] server sock = ⟨[0, 1], fun conn => if conn = 0 then
      [.result value, .result value'] else [.result other]⟩ := by
    rw [connections, Connections.mk.injEq]
    refine ⟨rfl, funext fun conn => ?_⟩
    by_cases hconn : conn = 0
    · rw [if_pos hconn, hconn]
      exact hvalues
    · have hserver : server conn = second := if_neg hconn
      have hsock : sock conn = sock 1 := by simp [sock, hserver, server]
      rw [if_neg hconn, hserver, hsock]
      exact hothers
  obtain ⟨labels, s, hrun, hreturned, hlate⟩ := exists_client value value' other
  rw [← hconns] at hrun
  have hcomplete := (accepted_yielded some (fun _ => rfl) hrun).2 hreturned hlate
  refine ⟨server, s, hreturned, by rw [show server 0 = first from rfl, hobjects]; rfl, htwo, hone,
    fun host hhost => ?_⟩
  rcases List.mem_pair.mp hhost with rfl | rfl
  · exact (hcomplete 0 (by simp) hended fun obj hobj => ⟨hid obj hobj, rfl⟩).2
  · exact (hcomplete 1 (by simp) hended' fun obj hobj => ⟨hid' obj hobj, rfl⟩).2

end OpenDiamond.WholeSearch
