import OpenDiamond.Xdr

/-!
# The messages of the protocol

The struct classes that travel on the control and blast channels, with the header that
frames every message. Each class is its flat tuple of attributes and handlers. All of
them make the round trip through the codec, alone and in front of further data.
-/

namespace OpenDiamond.Protocol

open Lib.Streams Lib.Unicode Xdr

/-! ## The classes -/

/-- The tuple of a class whose members all have an attribute. -/
def tuple (members : List (String × Handler)) : List Entry :=
  members.flatMap fun member => [.attr (some member.1), .handler member.2]

/-- An array of strings. -/
def strings : Handler := .array .string

/-- `XDR_attribute`: an object attribute. -/
def xdrAttribute : StructClass where
  name := "XDR_attribute"
  tuple := tuple [("name", .string), ("value", .opaqueData)]
  paired := rfl

/-- `XDR_object`: blast channel object data. -/
def xdrObject : StructClass where
  name := "XDR_object"
  tuple := tuple [("attrs", .array xdrAttribute.handler)]
  paired := rfl

/-- `XDR_blob_list`: a list of blob URIs. -/
def xdrBlobList : StructClass where
  name := "XDR_blob_list"
  tuple := tuple [("uris", strings)]
  paired := rfl

/-- `XDR_filter_config`: configuration for a single filter. -/
def xdrFilterConfig : StructClass where
  name := "XDR_filter_config"
  tuple := tuple [("name", .string), ("arguments", strings), ("dependencies", strings),
    ("min_score", .double), ("max_score", .double), ("code", .string), ("blob", .string)]
  paired := rfl

/-- `XDR_setup`: search setup parameters. -/
def xdrSetup : StructClass where
  name := "XDR_setup"
  tuple := tuple [("cookies", strings), ("filters", .array xdrFilterConfig.handler)]
  paired := rfl

/-- `XDR_blob_data`: blob data to be added to the blob cache. -/
def xdrBlobData : StructClass where
  name := "XDR_blob_data"
  tuple := tuple [("blobs", .array .opaqueData)]
  paired := rfl

/-- `XDR_start`: start-search parameters. -/
def xdrStart : StructClass where
  name := "XDR_start"
  tuple := tuple [("search_id", .fopaqueData 36), ("attrs", .optional strings)]
  paired := rfl

/-- `XDR_stat`: a statistics key-value pair. -/
def xdrStat : StructClass where
  name := "XDR_stat"
  tuple := tuple [("name", .string), ("value", .hyper)]
  paired := rfl

/-- `XDR_filter_stats`: filter statistics. -/
def xdrFilterStats : StructClass where
  name := "XDR_filter_stats"
  tuple := tuple [("name", .string), ("stats", .array xdrStat.handler)]
  paired := rfl

/-- `XDR_search_stats`: search statistics. -/
def xdrSearchStats : StructClass where
  name := "XDR_search_stats"
  tuple := tuple [("stats", .array xdrStat.handler),
    ("filter_stats", .optional (.array xdrFilterStats.handler))]
  paired := rfl

/-- `XDR_session_var`: a session variable. -/
def xdrSessionVar : StructClass where
  name := "XDR_session_var"
  tuple := tuple [("name", .string), ("value", .double)]
  paired := rfl

/-- `XDR_session_vars`: a session variable list. -/
def xdrSessionVars : StructClass where
  name := "XDR_session_vars"
  tuple := tuple [("vars", .array xdrSessionVar.handler)]
  paired := rfl

/-- `XDR_reexecute`: the reexecute argument. -/
def xdrReexecute : StructClass where
  name := "XDR_reexecute"
  tuple := tuple [("object_id", .string), ("attrs", .optional strings)]
  paired := rfl

/-- `XDR_attribute_list`: the reexecute response. -/
def xdrAttributeList : StructClass where
  name := "XDR_attribute_list"
  tuple := tuple [("attrs", .array xdrAttribute.handler)]
  paired := rfl

/-- `RPCHeader`: an RPC message header. -/
def rpcHeader : StructClass where
  name := "RPCHeader"
  tuple := tuple [("sequence", .uint), ("status", .int), ("cmd", .int), ("datalen", .uint)]
  paired := rfl

/-! ## The round trip of the classes -/

/-- What a reader takes off the front of any stream is the whole of the data alone. -/
theorem decode_of_reads {cls : StructClass} {bytes : Bytes} {value : Value}
    (h : Reads (unpack cls.handler) bytes value) : decode cls bytes = .ok value := by
  have hrun := h []
  rw [List.append_nil] at hrun
  rw [decode, hrun]
  rfl

/-- Instances that fit their class are encoded and decoded. -/
theorem encode_reads {cls : StructClass} {fields : List (String × Value)}
    (h : Fits Encodable cls.handler (.struct cls.name fields)) :
    ∃ bytes, encode cls fields = some bytes ∧
      Reads (unpack cls.handler) bytes (.struct cls.name fields) := by
  obtain ⟨bytes, hpack, hread⟩ := roundTrips_of_fits _ _ h
  rw [StructClass.handler, pack, if_pos rfl] at hpack
  exact ⟨bytes, hpack, hread⟩

/-- Every value that fits its handler is packed and read back from the front of any stream.
An instance of any struct class that fits is encoded, decoding returns it, and unpacking
in front of further bytes returns it and leaves exactly those. -/
theorem encode_roundTrip :
    (∀ (handler : Handler) (value : Value), Fits Encodable handler value →
      ∃ bytes, pack handler value = some bytes ∧
        ∀ rest, (unpack handler).run (bytes ++ rest) = .ok (value, rest)) ∧
    (∀ (cls : StructClass) (fields : List (String × Value)),
      Fits Encodable cls.handler (.struct cls.name fields) →
      ∃ bytes, encode cls fields = some bytes ∧
        decode cls bytes = .ok (.struct cls.name fields) ∧
        ∀ rest, (unpack cls.handler).run (bytes ++ rest) =
          .ok (.struct cls.name fields, rest)) := by
  constructor
  · intro handler value h
    exact roundTrips_of_fits handler value h
  · intro cls fields h
    obtain ⟨bytes, hencode, hread⟩ := encode_reads h
    exact ⟨bytes, hencode, decode_of_reads hread, hread⟩

/-- The attributes of a start request without a list of attributes. -/
def plainStart : List (String × Value) :=
  [("search_id", .bytes (List.replicate 36 65)), ("attrs", .none)]

theorem fits_plainStart :
    Fits Encodable xdrStart.handler (.struct xdrStart.name plainStart) := by
  refine ⟨rfl, rfl, ⟨_, rfl, ?_⟩, ⟨_, rfl, trivial⟩, trivial⟩
  exact List.length_replicate

/-- A negative hyper and a start request make the round trip. -/
theorem encode_roundTrip_start :
    (∃ bytes, pack .hyper (.int (-1)) = some bytes ∧
      ∀ rest, (unpack .hyper).run (bytes ++ rest) = .ok (.int (-1), rest)) ∧
    ∃ bytes, encode xdrStart plainStart = some bytes ∧
      decode xdrStart bytes = .ok (.struct xdrStart.name plainStart) ∧
      ∀ rest, (unpack xdrStart.handler).run (bytes ++ rest) =
        .ok (.struct xdrStart.name plainStart, rest) :=
  ⟨encode_roundTrip.1 .hyper (.int (-1)) ⟨by decide, by decide⟩,
    encode_roundTrip.2 xdrStart plainStart fits_plainStart⟩

/-- The attributes of a blob list whose only URI is a lone surrogate. -/
def surrogateList : List (String × Value) := [("uris", .list [.text [0xd800]])]

/-- A string with a lone surrogate is short and has the declared type, but strict UTF-8
has no spelling for it and encoding fails. -/
theorem encode_surrogate_fails :
    Fits ShortText xdrBlobList.handler (.struct xdrBlobList.name surrogateList) ∧
      encode xdrBlobList surrogateList = none := by
  refine ⟨⟨rfl, rfl, ⟨_, rfl, by decide, ?_⟩, trivial⟩, rfl⟩
  intro value hvalue
  rw [List.mem_singleton] at hvalue
  subst hvalue
  show (1 : ℕ) < 2 ^ 32
  decide

end OpenDiamond.Protocol
