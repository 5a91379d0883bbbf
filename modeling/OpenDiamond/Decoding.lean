import OpenDiamond.Lib.Scanning
import OpenDiamond.Protocol
import OpenDiamond.Rpc

/-!
# Requests that cannot be decoded

Decoding a struct fails at the end of the data, at a malformed item, at data left over, or at
a string that is no UTF-8. The exception of the last kind is of a subclass of `ValueError`,
and the conversion compares types; `dispatch` does not catch it.
-/

namespace OpenDiamond.Decoding

open Lib.Scanning Lib.Sockets Lib.Streams Lib.Unicode Xdr Protocol Rpc

/-! ## The strings of a request -/

mutual

/-- Go through the data for a handler and collect the bytes of the strings. -/
def scan : Handler → Scanner UInt8 Bytes Unit
  | .int => Scanner.skip unpackInt
  | .uint => Scanner.skip unpackUint
  | .hyper => Scanner.skip unpackHyper
  | .double => Scanner.skip unpackDouble
  | .string => Scanner.item unpackOpaqueData
  | .opaqueData => Scanner.skip unpackOpaqueData
  | .fopaqueData length => Scanner.skip (unpack (.fopaqueData length))
  | .array item => (Scanner.ofReader unpackUint).bind fun length => Scanner.times (scan item) length
  | .optional item => (Scanner.ofReader unpackBool).bind fun present =>
      if present then scan item else Scanner.pure ()
  | .constant item _ => scan item
  | .struct _ members => scanMembers members

/-- Go through the data for the members of a class. -/
def scanMembers : Members → Scanner UInt8 Bytes Unit
  | .nil => Scanner.pure ()
  | .cons _ handler rest => (scan handler).bind fun _ => scanMembers rest

end

/-- The strings of a request, in order, up to where the data ends or is malformed. -/
def strings (cls : StructClass) (data : Bytes) : List Bytes := (scan cls.handler data).1

/-! ## Readers without strings -/

/-- The reader does not decode text. -/
def NoText {α : Type} (reader : Unpacker α) : Prop :=
  ∀ data error, reader.run data = .error error → error ≠ .unicode

variable {α β : Type}

/-- Taking bytes decodes no text. -/
theorem noText_take (count : ℕ) : NoText (take DecodeError.eof count : Unpacker Bytes) := by
  intro data error h
  have hrun : (take DecodeError.eof count : Unpacker Bytes).run data =
      if data.length < count then .error .eof else .ok (data.take count, data.drop count) := rfl
  rw [hrun] at h
  split at h
  · cases h
    decide
  · cases h

/-- Two readers in a row decode no text where neither does. -/
theorem NoText.bind {reader : Unpacker α} {next : α → Unpacker β} (h : NoText reader)
    (hnext : ∀ value, NoText (next value)) : NoText (reader >>= next) := by
  intro data error hrun
  rw [StateT.run_bind] at hrun
  cases hread : reader.run data with
  | error first =>
    rw [hread] at hrun
    cases hrun
    exact h data _ hread
  | ok result =>
    rw [hread] at hrun
    exact hnext result.1 result.2 error hrun

/-- Returning a value decodes no text. -/
theorem noText_pure (value : α) : NoText (pure value : Unpacker α) := by
  intro data error h
  cases h

/-- What is done with a value afterwards decodes no text. -/
theorem NoText.map {reader : Unpacker α} (h : NoText reader) (f : α → β) :
    NoText (f <$> reader) := by
  rw [map_eq_pure_bind]
  exact h.bind fun value => noText_pure (f value)

/-- Numbers are read without decoding text. -/
theorem noText_unpackUint : NoText unpackUint := (noText_take 4).map _

theorem noText_unpackInt : NoText unpackInt := (noText_take 4).map _

/-- So are numbers of 64 bits, in their two halves. -/
theorem noText_unpackHyper : NoText unpackHyper :=
  noText_unpackUint.bind fun _ => noText_unpackUint.bind fun _ => noText_pure _

theorem noText_unpackDouble : NoText unpackDouble := (noText_take 8).map _

theorem noText_unpackBool : NoText unpackBool := noText_unpackInt.map _

/-- Data of a fixed length is read without decoding text. -/
theorem noText_unpackFopaqueData (length : ℕ) : NoText (unpackFopaqueData length) :=
  (noText_take _).map _

/-- Data with a length in front is not decoded either. -/
theorem noText_unpackOpaqueData : NoText unpackOpaqueData :=
  noText_unpackUint.bind noText_unpackFopaqueData

/-- Data of another length than the declared one is malformed. -/
theorem noText_fopaqueData (length : ℕ) : NoText (unpack (.fopaqueData length)) := by
  rw [unpack]
  refine (noText_unpackFopaqueData length).bind fun data => ?_
  by_cases hlength : data.length = length
  · rw [if_pos hlength]
    exact noText_pure _
  · rw [if_neg hlength]
    intro rest error h
    cases h
    decide

/-! ## Decoding and scanning -/

/-- The bytes are UTF-8. -/
def Utf8 (data : Bytes) : Prop := (decodeUtf8 data).isSome

/-- A reader that goes through the data as a scanner does, up to strings that are no UTF-8. -/
abbrev AgreesText (related : Unit → α → Prop) (scanner : Scanner UInt8 Bytes Unit)
    (reader : Unpacker α) : Prop :=
  Agrees Utf8 .unicode related scanner reader

/-- A reader that decodes no text agrees with a scanner that skips its bytes. -/
theorem agreesText_map {reader : Unpacker α} (h : NoText reader) (f : α → β) :
    AgreesText (fun _ _ => True) (Scanner.skip reader) (f <$> reader) := by
  rw [map_eq_pure_bind]
  exact (agrees_skip h).conclude fun _ value _ => ⟨f value, rfl, trivial⟩

/-- A string agrees with a scanner that notes its bytes: it is read exactly when they are UTF-8. -/
theorem agreesText_string :
    AgreesText (fun _ _ => True) (Scanner.item unpackOpaqueData) (unpack .string) := by
  rw [unpack]
  refine agrees_item noText_unpackOpaqueData ?_ ?_
  · intro data hdata
    obtain ⟨points, hpoints⟩ := Option.isSome_iff_exists.mp hdata
    exact ⟨.text points, by rw [hpoints]⟩
  · intro data hdata rest
    rw [Utf8, Option.not_isSome_iff_eq_none] at hdata
    rw [hdata]
    rfl

/-- Keyword arguments that a class knows make an instance. -/
theorem exists_construct {members : Members} {kwargs : List (String × Value)}
    (h : ∀ kwarg ∈ kwargs, kwarg.1 ∈ members.attrs) :
    ∃ fields, construct members [] kwargs = some fields := by
  refine ⟨_, if_pos ?_⟩
  rw [List.all_eq_true]
  intro kwarg hkwarg
  exact decide_eq_true (h kwarg hkwarg)

mutual

/-- Every handler goes through the data as its scanner does, and decodes the texts that the scanner
finds. -/
theorem agreesText_unpack : ∀ handler : Handler,
    AgreesText (fun _ _ => True) (scan handler) (unpack handler)
  | .int => by
    rw [unpack, scan]
    exact agreesText_map noText_unpackInt _
  | .uint => by
    rw [unpack, scan, bind_pure_comp, Functor.map_map]
    exact agreesText_map noText_unpackUint _
  | .hyper => by
    rw [unpack, scan]
    exact agreesText_map noText_unpackHyper _
  | .double => by
    rw [unpack, scan]
    exact agreesText_map noText_unpackDouble _
  | .string => by
    rw [scan]
    exact agreesText_string
  | .opaqueData => by
    rw [unpack, scan]
    exact agreesText_map noText_unpackOpaqueData _
  | .fopaqueData length => by
    rw [scan]
    exact agrees_skip (noText_fopaqueData length)
  | .array item => by
    rw [unpack, scan]
    refine agrees_bind (agrees_ofReader noText_unpackUint) ?_
    rintro length _ rfl
    rw [map_eq_pure_bind]
    exact (agrees_times (agreesText_unpack item) length).conclude
      fun _ items _ => ⟨.list items, rfl, trivial⟩
  | .optional item => by
    rw [unpack, scan]
    refine agrees_bind (agrees_ofReader noText_unpackBool) ?_
    rintro present _ rfl
    cases present with
    | true => exact agreesText_unpack item
    | false => exact agrees_pure trivial
  | .constant item value => by
    rw [unpack, scan]
    exact (agreesText_unpack item).conclude fun _ _ _ => ⟨value, rfl, trivial⟩
  | .struct cls members => by
    rw [unpack, scan]
    refine (agreesText_decodeXdr members).conclude ?_
    intro _ kwargs hkwargs
    obtain ⟨fields, hfields⟩ := exists_construct hkwargs
    exact ⟨.struct cls fields, by rw [hfields], trivial⟩

/-- The members go through the data as their scanner does, and give no other attributes. -/
theorem agreesText_decodeXdr : ∀ members : Members,
    AgreesText (fun _ kwargs => ∀ kwarg ∈ kwargs, kwarg.1 ∈ members.attrs) (scanMembers members)
      (decodeXdr members)
  | .nil => by
    rw [decodeXdr, scanMembers]
    exact agrees_pure fun kwarg hkwarg => absurd hkwarg List.not_mem_nil
  | .cons attr handler rest => by
    rw [decodeXdr, scanMembers]
    refine agrees_bind (agreesText_unpack handler) ?_
    intro _ value _
    refine (agreesText_decodeXdr rest).conclude ?_
    intro _ kwargs hkwargs
    refine ⟨_, rfl, ?_⟩
    intro kwarg hkwarg
    rw [Members.attrs, List.mem_append]
    rcases List.mem_append.mp hkwarg with hfirst | hlater
    · left
      cases attr with
      | none => cases hfirst
      | some attr =>
        rw [Option.map_some, Option.toList_some, List.mem_singleton] at hfirst
        rw [hfirst]
        exact List.mem_singleton_self attr
    · exact Or.inr (hkwargs kwarg hlater)

end

/-- A message with nothing but UTF-8 in its strings raises no `UnicodeDecodeError`. -/
theorem decode_of_utf8 {cls : StructClass} {data : Bytes}
    (h : ∀ text ∈ strings cls data, Utf8 text) : decode cls data ≠ .error .unicode := by
  obtain ⟨hreads, hstuck, -⟩ := agreesText_unpack cls.handler data
  unfold decode
  rcases hscan : (scan cls.handler data).2 with _ | ⟨value, rest⟩
  · obtain ⟨error, hne, hrun⟩ := hstuck h hscan
    rw [hrun]
    intro heq
    exact hne (Except.error.inj heq)
  · obtain ⟨value', hrun, -⟩ := hreads h value rest hscan
    rw [hrun]
    show (if rest = [] then _ else _) ≠ _
    split <;> rintro ⟨⟩

/-- One string that is no UTF-8 is enough to raise it, wherever it stands. -/
theorem decode_of_not_utf8 {cls : StructClass} {data : Bytes}
    (h : ¬∀ text ∈ strings cls data, Utf8 text) : decode cls data = .error .unicode := by
  have hrun := (agreesText_unpack cls.handler data).fails h
  rw [decode, hrun]
  rfl

/-! ## Undecodable requests -/

/-- Decoding data for a class returns or raises an expected error, and a request with that data
that cannot be decoded is answered with status -2, after which the connection stands at the next
message. -/
structure Reported (cls : StructClass) (data : Bytes) : Prop where
  /-- `EOFError` and `XDREncodingError` are the only exceptions of `decode`. -/
  raises : ∀ error, decode cls data = .error error → error = .eof ∨ error = .encoding
  /-- `dispatch` replies to the request. -/
  replies : ∀ {σ : Type} (handlers : Handlers σ) (server : Server σ) (procedure : Procedure σ)
    (skipped : List Frame) (request : Frame) (rest : Bytes),
    handlers.getHandler request.cmd = some procedure → procedure.requestClass = some cls →
    (∀ other ∈ skipped, other.InRange ∧ other.isRequest = false) →
    request.InRange → request.isRequest = true → request.body = data →
    server.sock.incoming = wire skipped ++ (request.wire ++ rest) →
    (∀ value, decode cls data ≠ .ok value) →
    ∃ server', dispatch handlers server = (.ok (), server') ∧ server'.state = server.state ∧
      server'.sock.incoming = rest ∧
      server'.sock.outgoing = server.sock.outgoing ++ (request.reply (-2) []).wire

/-- A request whose data runs out or is malformed gets the code of an encoding error. -/
theorem respond_undecodable {σ : Type} {handlers : Handlers σ} {procedure : Procedure σ}
    {cls : StructClass} {request : Request} {error : DecodeError} (state : σ)
    (hfind : handlers.getHandler request.hdr.cmd = some procedure)
    (hcls : procedure.requestClass = some cls) (hdecode : decode cls request.data = .error error)
    (hne : error ≠ .unicode) :
    respond handlers request state = (.ok (rpcEncodingError, []), state) := by
  have hrequest : procedure.decodeRequest request.data = .error error := by
    rw [Procedure.decodeRequest, hcls]
    simp only [hdecode]
    rfl
  unfold respond
  cases error with
  | unicode => exact absurd rfl hne
  | eof => simp only [hfind, hrequest]
  | encoding => simp only [hfind, hrequest]

/-- A request whose body cannot be decoded is reported to its sender exactly when every string in
the body, up to where it ends or is malformed, is UTF-8: the handler catches the errors of the
unpacker, and not those of text. -/
theorem reported_iff (cls : StructClass) (data : Bytes) :
    Reported cls data ↔ ∀ text ∈ strings cls data, Utf8 text := by
  constructor
  · intro h
    by_contra hall
    rcases h.raises .unicode (decode_of_not_utf8 hall) with heof | hencoding
    · cases heof
    · cases hencoding
  · intro hall
    have hunicode := decode_of_utf8 hall
    constructor
    · intro error herror
      cases error with
      | eof => exact Or.inl rfl
      | encoding => exact Or.inr rfl
      | unicode => exact absurd herror hunicode
    · intro σ handlers server procedure skipped request rest hfind hcls hskipped hrange hrequest
        hbody hincoming hundecodable
      obtain ⟨schedule, hreceive⟩ := receive_request hskipped hrange hrequest hincoming
      have hreply : (request.reply (-2) []).InRange := hrange.reply (by decide) (by decide)
      cases hdecode : decode cls data with
      | ok value => exact absurd hdecode (hundecodable value)
      | error error =>
        have hne : error ≠ .unicode := fun heq => hunicode (heq ▸ hdecode)
        have hdata : decode cls request.request.data = .error error := by
          rw [← hdecode, ← hbody]
          rfl
        have hrespond := respond_undecodable server.state hfind hcls hdata hne
        refine ⟨⟨(server.sock.facing rest schedule).sendAll (request.reply (-2) []).wire,
          server.state⟩, ?_, rfl, rfl, rfl⟩
        simp only [dispatch, hreceive, handle, hrespond, rpcEncodingError, reply_eq hreply]

/-- A reexecution request with the single byte `ff` as its object ID, and without attributes. -/
def strayByte : Bytes := [0, 0, 0, 1, 0xff, 0, 0, 0, 0, 0, 0, 0]

/-- The object ID in the body is no UTF-8, so that its exception leaves `decode`, and with it the
server. -/
theorem strayByte_not_reported : ¬Reported xdrReexecute strayByte := by
  intro h
  have hmembers : xdrReexecute.members =
      .cons (some "object_id") .string (.cons (some "attrs") (.optional Protocol.strings) .nil) := rfl
  have hscan : strings xdrReexecute strayByte = [[0xff]] := by
    rw [Decoding.strings, StructClass.handler, hmembers, scan, scanMembers, scan, scanMembers, scan]
    rfl
  have hdecode : decode xdrReexecute strayByte = .error .unicode := by
    refine decode_of_not_utf8 fun hall => ?_
    rw [hscan] at hall
    have hutf8 : (decodeUtf8 [0xff]).isSome := hall [0xff] List.mem_cons_self
    revert hutf8
    decide
  rcases h.raises .unicode hdecode with heof | hencoding
  · cases heof
  · cases hencoding

end OpenDiamond.Decoding
