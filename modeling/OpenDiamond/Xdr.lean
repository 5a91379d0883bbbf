import OpenDiamond.Lib.BigEndian
import OpenDiamond.Lib.OrderedDict
import OpenDiamond.Lib.Streams
import OpenDiamond.Lib.Unicode

/-!
# The XDR codec of the wire format

A type handler packs a value into bytes and unpacks it from a stream. The primitive
handlers follow the third-party packer and unpacker: integers are range checked,
opaque data is padded with zeros to a multiple of four, and reading past the end is
an end-of-file error. A struct class lists its members as a flat tuple of attribute
names and handlers. Every value that fits its handler is encoded, and decoding
returns it and leaves whatever followed.
-/

namespace OpenDiamond.Xdr

open Lib.BigEndian Lib.OrderedDict Lib.Streams Lib.Unicode

/-- The bytes of a message. -/
abbrev Bytes := List UInt8

/-- The Python values that the handlers meet. -/
inductive Value where
  /-- `None`. -/
  | none
  /-- An integer of any size. -/
  | int (value : ℤ)
  /-- A float, as the eight bytes of its binary format. -/
  | double (bits : UInt64)
  /-- A string. -/
  | text (points : Text)
  /-- A byte string. -/
  | bytes (data : Bytes)
  /-- A list, or a set in the order in which it is iterated. -/
  | list (items : List Value)
  /-- An instance of a struct class with its attributes in the order they were set. -/
  | struct (cls : String) (fields : List (String × Value))

/-- What decoding raises. -/
inductive DecodeError where
  /-- `EOFError`: the data ends inside an item. -/
  | eof
  /-- `XDREncodingError`. -/
  | encoding
  /-- `UnicodeDecodeError`, which is not converted. -/
  | unicode
deriving DecidableEq, Repr

mutual

/-- The type handlers. -/
inductive Handler where
  | int
  | uint
  | hyper
  | double
  | string
  /-- Opaque data of any length. -/
  | opaqueData
  /-- Opaque data of a fixed length. -/
  | fopaqueData (length : ℕ)
  | array (item : Handler)
  | optional (item : Handler)
  | constant (item : Handler) (value : Value)
  /-- An instance of a struct class. -/
  | struct (cls : String) (members : Members)

/-- The members of a struct class; an attribute may be `None`. -/
inductive Members where
  | nil
  | cons (attr : Option String) (handler : Handler) (rest : Members)

end

/-- A reader of XDR data. -/
abbrev Unpacker := Reader UInt8 DecodeError

/-! ## The primitives of the packer and the unpacker -/

/-- Zero bytes that fill data of a length up to a multiple of four. -/
def padding (length : ℕ) : Bytes := List.replicate ((length + 3) / 4 * 4 - length) 0

/-- `Packer.pack_uint`. -/
def packUint : Value → Option Bytes
  | .int (.ofNat value) => if value < 2 ^ 32 then some (toBytes 4 value) else none
  | _ => none

/-- `Packer.pack_int`. -/
def packInt : Value → Option Bytes
  | .int value =>
    if -2 ^ 31 ≤ value ∧ value < 2 ^ 31 then some (toBytes 4 (unsigned 32 value)) else none
  | _ => none

/-- `Packer.pack_hyper`, which keeps the low 64 bits of any integer. -/
def packHyper : Value → Option Bytes
  | .int value => some (toBytes 4 (unsigned 32 (value / 2 ^ 32)) ++ toBytes 4 (unsigned 32 value))
  | _ => none

/-- `Packer.pack_double`. -/
def packDouble : Value → Option Bytes
  | .double bits => some (toBytes 8 bits.toNat)
  | _ => none

/-- `Packer.pack_bool`. -/
def packBool (flag : Bool) : Bytes := toBytes 4 (if flag then 1 else 0)

/-- `Packer.pack_fopaque` of data that has the length. -/
def packFopaqueData (data : Bytes) : Bytes := data ++ padding data.length

/-- `Packer.pack_opaque` of a byte string. -/
def packOpaqueData (data : Bytes) : Option Bytes := do
  let length ← packUint (.int data.length)
  return length ++ packFopaqueData data

/-- `Unpacker.unpack_uint`. -/
def unpackUint : Unpacker ℕ := ofBytes <$> take .eof 4

/-- `Unpacker.unpack_int`. -/
def unpackInt : Unpacker ℤ := (fun data => signed 32 (ofBytes data)) <$> take .eof 4

/-- `Unpacker.unpack_hyper`. -/
def unpackHyper : Unpacker ℤ := do
  let high ← unpackUint
  let low ← unpackUint
  return signed 64 (high * 2 ^ 32 + low)

/-- `Unpacker.unpack_double`. -/
def unpackDouble : Unpacker UInt64 := (fun data => UInt64.ofNat (ofBytes data)) <$> take .eof 8

/-- `Unpacker.unpack_bool`, true for every integer but zero. -/
def unpackBool : Unpacker Bool := (fun value => value != 0) <$> unpackInt

/-- `Unpacker.unpack_fopaque`, which skips the padding without a look. -/
def unpackFopaqueData (length : ℕ) : Unpacker Bytes :=
  List.take length <$> take .eof ((length + 3) / 4 * 4)

/-- `Unpacker.unpack_opaque`. -/
def unpackOpaqueData : Unpacker Bytes := do
  let length ← unpackUint
  unpackFopaqueData length

/-! ## The handlers -/

/-- The items that iterating over a value yields, if it is a sequence. -/
def elements : Value → Option (List Value)
  | .list items => some items
  | .text points => some (points.map fun point => .text [point])
  | .bytes data => some (data.map fun byte => .int byte.toNat)
  | _ => none

/-- The attributes that a class names, in the order of its members. -/
def Members.attrs : Members → List String
  | .nil => []
  | .cons attr _ rest => attr.toList ++ rest.attrs

/-- The attributes of a new instance before its arguments are stored. -/
def blank (members : Members) : List (String × Value) :=
  assignAll [] (members.attrs.map fun attr => (attr, .none))

/-- `XDRStruct.__init__` with keyword arguments, `none` for an unknown keyword. -/
def construct (members : Members) (args : List Value) (kwargs : List (String × Value)) :
    Option (List (String × Value)) :=
  if kwargs.all fun kwarg => kwarg.1 ∈ members.attrs then
    some (assignAll (assignAll (blank members) (members.attrs.zip args)) kwargs)
  else none

mutual

/-- `pack` of a handler, `none` when it raises. Every exception inside a struct is turned
into an `XDREncodingError`. -/
def pack : Handler → Value → Option Bytes
  | .int, value => packInt value
  | .uint, value => packUint value
  | .hyper, value => packHyper value
  | .double, value => packDouble value
  | .string, .text points => do
    let data ← encodeUtf8 points
    packOpaqueData data
  | .string, _ => none
  | .opaqueData, .bytes data => packOpaqueData data
  | .opaqueData, _ => none
  | .fopaqueData length, .bytes data =>
    if data.length = length then some (packFopaqueData data) else none
  | .fopaqueData _, _ => none
  | .array item, value => do
    let items ← elements value
    let length ← packUint (.int items.length)
    let parts ← items.mapM (pack item)
    return length ++ parts.flatten
  | .optional _, .none => some (packBool false)
  | .optional item, value => do
    let body ← pack item value
    return packBool true ++ body
  | .constant item value, _ => pack item value
  | .struct cls members, .struct cls' fields =>
    if cls' = cls then encodeXdr members fields else none
  | .struct _ _, _ => none

/-- `XDRStruct.encode_xdr` on the attributes of an instance. -/
def encodeXdr : Members → List (String × Value) → Option Bytes
  | .nil, _ => some []
  | .cons attr handler rest, fields => do
    let value ← match attr with
      | some attr => find fields attr
      | none => some .none
    let part ← pack handler value
    let more ← encodeXdr rest fields
    return part ++ more

end

mutual

/-- `unpack` of a handler. -/
def unpack : Handler → Unpacker Value
  | .int => .int <$> unpackInt
  | .uint => (fun value => .int value) <$> unpackUint
  | .hyper => .int <$> unpackHyper
  | .double => .double <$> unpackDouble
  | .string => do
    let data ← unpackOpaqueData
    match decodeUtf8 data with
    | some points => return .text points
    | none => throw .unicode
  | .opaqueData => .bytes <$> unpackOpaqueData
  | .fopaqueData length => do
    let data ← unpackFopaqueData length
    if data.length = length then return .bytes data else throw .encoding
  | .array item => do
    let length ← unpackUint
    .list <$> times (unpack item) length
  | .optional item => do
    let present ← unpackBool
    if present then unpack item else return .none
  | .constant item value => do
    let _ ← unpack item
    return value
  | .struct cls members => do
    let kwargs ← decodeXdr members
    match construct members [] kwargs with
    | some fields => return .struct cls fields
    | none => throw .encoding

/-- The keyword arguments that `XDRStruct.decode_xdr` collects. -/
def decodeXdr : Members → Unpacker (List (String × Value))
  | .nil => return []
  | .cons attr handler rest => do
    let value ← unpack handler
    let kwargs ← decodeXdr rest
    return (attr.map fun attr => (attr, value)).toList ++ kwargs

end

/-! ## Struct classes -/

/-- One entry of the flat `members` tuple of a struct class. -/
inductive Entry where
  | attr (name : Option String)
  | handler (handler : Handler)

/-- Every second element, from the first on. -/
def everyOther {α : Type} : List α → List α
  | [] => []
  | [a] => [a]
  | a :: _ :: rest => a :: everyOther rest

/-- The members of the pairs, when each is an attribute with its handler. -/
def Members.ofPairs : List (Entry × Entry) → Option Members
  | [] => some .nil
  | (.attr attr, .handler handler) :: rest => (ofPairs rest).map (.cons attr handler)
  | _ => none

/-- `XDRStruct._members`: the tuple's even positions paired with its odd ones. -/
def Members.ofTuple (tuple : List Entry) : Option Members :=
  ofPairs ((everyOther tuple).zip (everyOther tuple.tail))

/-- A subclass of `XDRStruct`. -/
structure StructClass where
  /-- The name of the class. -/
  name : String
  /-- The flat tuple of attributes and handlers. -/
  tuple : List Entry
  /-- Attributes and handlers alternate. -/
  paired : (Members.ofTuple tuple).isSome

/-- The members of a class. -/
def StructClass.members (cls : StructClass) : Members := (Members.ofTuple cls.tuple).get cls.paired

/-- `XDR.struct` of a class. -/
def StructClass.handler (cls : StructClass) : Handler := .struct cls.name cls.members

/-- `XDRStruct.encode` of an instance with the given attributes. -/
def encode (cls : StructClass) (fields : List (String × Value)) : Option Bytes :=
  encodeXdr cls.members fields

/-- `XDRStruct.decode`, which rejects data that is left over. -/
def decode (cls : StructClass) (data : Bytes) : Except DecodeError Value := do
  let (value, rest) ← (unpack cls.handler).run data
  if rest = [] then return value else throw .encoding

/-! ## Values that fit their handlers -/

section

variable (okText : Text → Prop)

mutual

/-- The value has the type of the handler, its integers are within the declared width, its
lengths below `2 ^ 32`, fixed opaque data has the declared length and every string meets
the given condition. -/
def Fits : Handler → Value → Prop
  | .int, .int value => -2 ^ 31 ≤ value ∧ value < 2 ^ 31
  | .uint, .int value => 0 ≤ value ∧ value < 2 ^ 32
  | .hyper, .int value => -2 ^ 63 ≤ value ∧ value < 2 ^ 63
  | .double, .double _ => True
  | .string, .text points => okText points
  | .opaqueData, .bytes data => data.length < 2 ^ 32
  | .fopaqueData length, .bytes data => data.length = length
  | .array item, .list items => items.length < 2 ^ 32 ∧ ∀ value ∈ items, Fits item value
  | .optional _, .none => True
  | .optional item, value => Fits item value
  | .constant item constant, value => value = constant ∧ Fits item constant
  | .struct cls members, .struct cls' fields =>
    cls' = cls ∧ fields.map Prod.fst = (blank members).map Prod.fst ∧ FitsMembers members fields
  | _, _ => False

/-- Every attribute fits the handler of its member. -/
def FitsMembers : Members → List (String × Value) → Prop
  | .nil, _ => True
  | .cons (some attr) handler rest, fields =>
    (∃ value, find fields attr = some value ∧ Fits handler value) ∧ FitsMembers rest fields
  | .cons none handler rest, fields =>
    Unnamed handler ∧ FitsMembers rest fields

/-- A handler that can stand without an attribute: it is given `None`. -/
def Unnamed : Handler → Prop
  | .constant item constant => Fits item constant
  | .optional _ => True
  | _ => False

end

end

/-- The length of a string is below `2 ^ 32`. -/
def ShortText (points : Text) : Prop := points.length < 2 ^ 32

/-- A string has a UTF-8 spelling, of a length below `2 ^ 32`. -/
def Encodable (points : Text) : Prop :=
  ∃ data, encodeUtf8 points = some data ∧ data.length < 2 ^ 32

/-! ## The round trip -/

/-- Numbers below the bound are packed and read back. -/
theorem packUint_reads {value : ℕ} (h : value < 2 ^ 32) :
    packUint (.int value) = some (toBytes 4 value) ∧ Reads unpackUint (toBytes 4 value) value := by
  constructor
  · exact if_pos h
  · have hread := (reads_take DecodeError.eof (toBytes 4 value)).map ofBytes
    rwa [toBytes_length, ofBytes_toBytes_of_lt h] at hread

/-- Four bytes are read as the number that they hold without a sign. -/
theorem unpackUint_reads_unsigned (value : ℤ) :
    Reads unpackUint (toBytes 4 (unsigned 32 value)) (unsigned 32 value) :=
  (packUint_reads (unsigned_lt 32 value)).2

/-- A number in the range of 32 bits with a sign is read back, also a negative one. -/
theorem unpackInt_reads {value : ℤ} (hlow : -2 ^ 31 ≤ value) (hhigh : value < 2 ^ 31) :
    Reads unpackInt (toBytes 4 (unsigned 32 value)) value := by
  have hread := (reads_take DecodeError.eof (toBytes 4 (unsigned 32 value))).map
    fun data => signed 32 (ofBytes data)
  rwa [toBytes_length, ofBytes_toBytes_of_lt (unsigned_lt 32 value),
    signed_unsigned hlow hhigh] at hread

/-- The two halves of a 64-bit number put it together again. -/
theorem unsigned_halves (value : ℤ) :
    unsigned 32 (value / 2 ^ 32) * 2 ^ 32 + unsigned 32 value = unsigned 64 value := by
  unfold unsigned
  omega

/-- A number of 64 bits is written as two halves and put together again, with the sign in the upper
one. -/
theorem unpackHyper_reads {value : ℤ} (hlow : -2 ^ 63 ≤ value) (hhigh : value < 2 ^ 63) :
    Reads unpackHyper
      (toBytes 4 (unsigned 32 (value / 2 ^ 32)) ++ toBytes 4 (unsigned 32 value)) value := by
  have hlowHalf := (unpackUint_reads_unsigned value).map fun low =>
    signed 64 (unsigned 32 (value / 2 ^ 32) * 2 ^ 32 + low)
  rw [unsigned_halves, signed_unsigned hlow hhigh, map_eq_pure_bind] at hlowHalf
  exact (unpackUint_reads_unsigned (value / 2 ^ 32)).bind hlowHalf

/-- The bits of a double are read back as they were. -/
theorem unpackDouble_reads (bits : UInt64) :
    Reads unpackDouble (toBytes 8 bits.toNat) bits := by
  have hread := (reads_take DecodeError.eof (toBytes 8 bits.toNat)).map
    fun data => UInt64.ofNat (ofBytes data)
  rwa [toBytes_length, ofBytes_toBytes_of_lt bits.toNat_lt, UInt64.ofNat_toNat] at hread

/-- A truth value is written as a number of four bytes and read back. -/
theorem unpackBool_reads (flag : Bool) : Reads unpackBool (packBool flag) flag := by
  cases flag with
  | false =>
    have hzero : Reads unpackInt _ 0 := unpackInt_reads (by decide) (by decide)
    exact hzero.map fun value => value != 0
  | true =>
    have hone : Reads unpackInt _ 1 := unpackInt_reads (by decide) (by decide)
    exact hone.map fun value => value != 0

/-- Data is padded to the next multiple of four bytes. -/
theorem packFopaqueData_length (data : Bytes) :
    (packFopaqueData data).length = (data.length + 3) / 4 * 4 := by
  rw [packFopaqueData, padding, List.length_append, List.length_replicate]
  omega

/-- Data of a known length is read back, and its padding is skipped. -/
theorem unpackFopaqueData_reads (data : Bytes) :
    Reads (unpackFopaqueData data.length) (packFopaqueData data) data := by
  have hread := (reads_take DecodeError.eof (packFopaqueData data)).map (List.take data.length)
  rw [packFopaqueData_length] at hread
  have hdata : (packFopaqueData data).take data.length = data := List.take_left
  rwa [hdata] at hread

/-- Opaque data is packed with its length and padding, and read back without them. -/
theorem packOpaqueData_reads {data : Bytes} (h : data.length < 2 ^ 32) :
    ∃ bytes, packOpaqueData data = some bytes ∧ Reads unpackOpaqueData bytes data := by
  obtain ⟨hlength, hreadLength⟩ := packUint_reads h
  refine ⟨toBytes 4 data.length ++ packFopaqueData data, ?_, hreadLength.bind ?_⟩
  · simp only [packOpaqueData, hlength, Option.bind_eq_bind, Option.bind_some, Option.pure_def]
  · exact unpackFopaqueData_reads data

/-- An instance is rebuilt from the arguments that its members were read as. -/
theorem construct_kwargs {members : Members} {fields kwargs : List (String × Value)}
    (hkeys : fields.map Prod.fst = (blank members).map Prod.fst)
    (hattrs : kwargs.map Prod.fst = members.attrs)
    (hfind : ∀ kwarg ∈ kwargs, find fields kwarg.1 = some kwarg.2) :
    construct members [] kwargs = some fields := by
  have hnodup : (fields.map Prod.fst).Nodup := by
    rw [hkeys]
    exact assignAll_nodup (by simp) _
  have hknown : kwargs.all (fun kwarg => kwarg.1 ∈ members.attrs) = true := by
    rw [List.all_eq_true]
    intro kwarg hmem
    exact decide_eq_true (hattrs ▸ List.mem_map_of_mem hmem)
  have hbuilt : assignAll (blank members) kwargs = fields := by
    refine assignAll_eq hkeys.symm hnodup ?_ ?_
    · intro kwarg hmem
      exact (find_eq_some_iff hnodup kwarg.1 kwarg.2).mp (hfind kwarg hmem)
    · intro entry hmem
      refine Or.inr (hattrs ▸ ?_)
      rcases mem_keys_assignAll (List.mem_map_of_mem hmem) with hnil | hattr
      · cases hnil
      · simpa using hattr
  rw [construct, if_pos hknown, List.zip_nil_right]
  exact congrArg some hbuilt

/-- The value is packed, and the handler reads it back from the front of any stream. -/
def RoundTrips (handler : Handler) (value : Value) : Prop :=
  ∃ bytes, pack handler value = some bytes ∧ Reads (unpack handler) bytes value

section RoundTripLemmas

attribute [local simp] pack unpack encodeXdr decodeXdr

/-- The bytes of a signed integer in range. -/
theorem pack_int {value : ℤ} (h : -2 ^ 31 ≤ value ∧ value < 2 ^ 31) :
    pack .int (.int value) = some (toBytes 4 (unsigned 32 value)) := by
  rw [pack, packInt, if_pos h]

/-- The bytes of an unsigned integer in range. -/
theorem pack_uint {value : ℕ} (h : value < 2 ^ 32) :
    pack .uint (.int value) = some (toBytes 4 value) := by
  rw [pack, (packUint_reads h).1]

/-- An integer beyond the unsigned range is rejected. -/
theorem pack_uint_of_ge {value : ℕ} (h : 2 ^ 32 ≤ value) : pack .uint (.int value) = none := by
  rw [pack]
  exact if_neg (Nat.not_lt.mpr h)

/-- Integers of 32 bits round trip. -/
theorem roundTrips_int {value : ℤ} (hlow : -2 ^ 31 ≤ value) (hhigh : value < 2 ^ 31) :
    RoundTrips .int (.int value) := by
  refine ⟨toBytes 4 (unsigned 32 value), pack_int ⟨hlow, hhigh⟩, ?_⟩
  rw [unpack]
  exact (unpackInt_reads hlow hhigh).map Value.int

/-- Integers of 32 bits without a sign round trip. -/
theorem roundTrips_uint {value : ℤ} (hlow : 0 ≤ value) (hhigh : value < 2 ^ 32) :
    RoundTrips .uint (.int value) := by
  lift value to ℕ using hlow
  have hbound : value < 2 ^ 32 := by omega
  refine ⟨toBytes 4 value, pack_uint hbound, ?_⟩
  rw [unpack]
  exact (packUint_reads hbound).2.map fun value : ℕ => Value.int value

/-- Integers of 64 bits round trip. -/
theorem roundTrips_hyper {value : ℤ} (hlow : -2 ^ 63 ≤ value) (hhigh : value < 2 ^ 63) :
    RoundTrips .hyper (.int value) := by
  refine ⟨toBytes 4 (unsigned 32 (value / 2 ^ 32)) ++ toBytes 4 (unsigned 32 value), ?_, ?_⟩
  · rw [pack, packHyper]
  · rw [unpack]
    exact (unpackHyper_reads hlow hhigh).map Value.int

/-- Doubles round trip bit by bit, not-a-numbers included. -/
theorem roundTrips_double (bits : UInt64) : RoundTrips .double (.double bits) := by
  refine ⟨toBytes 8 bits.toNat, ?_, ?_⟩
  · rw [pack, packDouble]
  · rw [unpack]
    exact (unpackDouble_reads bits).map Value.double

/-- A text round trips when it has an encoding of less than `2 ^ 32` bytes. -/
theorem roundTrips_string {points : Text} (h : Encodable points) :
    RoundTrips .string (.text points) := by
  obtain ⟨data, hencode, hlength⟩ := h
  obtain ⟨bytes, hpack, hread⟩ := packOpaqueData_reads hlength
  refine ⟨bytes, ?_, ?_⟩
  · rw [pack, hencode, Option.bind_eq_bind, Option.bind_some, hpack]
  · rw [unpack, ← List.append_nil bytes]
    refine hread.bind ?_
    rw [decodeUtf8_encodeUtf8 hencode]
    exact Reads.pure _

/-- Data round trips when its length fits 32 bits. -/
theorem roundTrips_opaqueData {data : Bytes} (h : data.length < 2 ^ 32) :
    RoundTrips .opaqueData (.bytes data) := by
  obtain ⟨bytes, hpack, hread⟩ := packOpaqueData_reads h
  refine ⟨bytes, ?_, ?_⟩
  · rw [pack, hpack]
  · rw [unpack]
    exact hread.map Value.bytes

/-- Data of a fixed length round trips. -/
theorem roundTrips_fopaqueData (data : Bytes) :
    RoundTrips (.fopaqueData data.length) (.bytes data) := by
  refine ⟨packFopaqueData data, ?_, ?_⟩
  · rw [pack, if_pos rfl]
  · rw [unpack, ← List.append_nil (packFopaqueData data)]
    refine (unpackFopaqueData_reads data).bind ?_
    rw [if_pos rfl]
    exact Reads.pure _

/-- An array round trips when its length fits 32 bits and its items do; this is the induction over
the items. -/
theorem roundTrips_array {item : Handler} {items : List Value} (hlength : items.length < 2 ^ 32)
    (h : ∀ value ∈ items, RoundTrips item value) : RoundTrips (.array item) (.list items) := by
  obtain ⟨hpack, hread⟩ := packUint_reads hlength
  obtain ⟨parts, hparts, hreads⟩ := reads_times h
  refine ⟨toBytes 4 items.length ++ parts.flatten, ?_, ?_⟩
  · rw [pack, elements, Option.bind_eq_bind, Option.bind_some, hpack, Option.bind_eq_bind,
      Option.bind_some, hparts]
    rfl
  · rw [unpack]
    exact hread.bind (hreads.map Value.list)

/-- An absent value is written as a zero and read back as absent. -/
theorem roundTrips_optional_none (item : Handler) : RoundTrips (.optional item) .none := by
  refine ⟨packBool false, ?_, ?_⟩
  · rw [pack]
  · rw [unpack, ← List.append_nil (packBool false)]
    exact (unpackBool_reads false).bind (Reads.pure _)

/-- A value that is there round trips like the value itself. -/
theorem roundTrips_optional {item : Handler} {value : Value} (hsome : value ≠ .none)
    (h : RoundTrips item value) : RoundTrips (.optional item) value := by
  obtain ⟨bytes, hpack, hread⟩ := h
  refine ⟨packBool true ++ bytes, ?_, ?_⟩
  · rw [pack, hpack]
    · rfl
    · exact hsome
  · rw [unpack]
    exact (unpackBool_reads true).bind hread

/-- A constant is written whatever the value, and read as the constant. -/
theorem constant_reads {item : Handler} {constant : Value} (h : RoundTrips item constant)
    (value : Value) : ∃ bytes, pack (.constant item constant) value = some bytes ∧
      Reads (unpack (.constant item constant)) bytes constant := by
  obtain ⟨bytes, hpack, hread⟩ := h
  refine ⟨bytes, ?_, ?_⟩
  · rw [pack, hpack]
  · rw [unpack, ← List.append_nil bytes]
    exact hread.bind (Reads.pure _)

/-- The members are packed one after the other and read back as keyword arguments that
agree with the attributes. -/
def MembersRoundTrip (members : Members) (fields : List (String × Value)) : Prop :=
  ∃ bytes kwargs, encodeXdr members fields = some bytes ∧
    Reads (decodeXdr members) bytes kwargs ∧ kwargs.map Prod.fst = members.attrs ∧
    ∀ kwarg ∈ kwargs, find fields kwarg.1 = some kwarg.2

/-- No members round trip. -/
theorem membersRoundTrip_nil (fields : List (String × Value)) :
    MembersRoundTrip .nil fields := by
  refine ⟨[], [], ?_, ?_, ?_, ?_⟩
  · rw [encodeXdr]
  · rw [decodeXdr]
    exact Reads.pure []
  · rw [Members.attrs, List.map_nil]
  · simp

/-- A member with an attribute is packed in front of the members after it. -/
theorem encodeXdr_attr {attr : String} {handler : Handler} {rest : Members}
    {fields : List (String × Value)} {value : Value} {part more : Bytes}
    (hvalue : find fields attr = some value) (hpack : pack handler value = some part)
    (hmore : encodeXdr rest fields = some more) :
    encodeXdr (.cons (some attr) handler rest) fields = some (part ++ more) := by
  simp only [encodeXdr, hvalue, hpack, hmore, Option.bind_eq_bind, Option.bind_some,
    Option.pure_def]

/-- A member that is rejected makes the encoding of the whole structure fail. -/
theorem encodeXdr_attr_of_none {attr : String} {handler : Handler} {rest : Members}
    {fields : List (String × Value)} {value : Value} (hvalue : find fields attr = some value)
    (hpack : pack handler value = none) :
    encodeXdr (.cons (some attr) handler rest) fields = none := by
  simp only [encodeXdr, hvalue, hpack, Option.bind_eq_bind, Option.bind_some, Option.bind_none]

/-- A named member is written from the field of its name, and read back into it. -/
theorem membersRoundTrip_attr {attr : String} {handler : Handler} {rest : Members}
    {fields : List (String × Value)} {value : Value} (hvalue : find fields attr = some value)
    (h : RoundTrips handler value) (hrest : MembersRoundTrip rest fields) :
    MembersRoundTrip (.cons (some attr) handler rest) fields := by
  obtain ⟨part, hpack, hread⟩ := h
  obtain ⟨more, kwargs, hencode, hreads, hattrs, hfind⟩ := hrest
  refine ⟨part ++ more, (attr, value) :: kwargs, encodeXdr_attr hvalue hpack hencode, ?_, ?_, ?_⟩
  · have htail := hreads.map (List.cons (attr, value))
    rw [map_eq_pure_bind] at htail
    rw [decodeXdr]
    exact hread.bind htail
  · rw [Members.attrs, List.map_cons, hattrs]
    rfl
  · intro kwarg hmem
    rcases List.mem_cons.mp hmem with rfl | hlater
    · exact hvalue
    · exact hfind kwarg hlater

/-- A member without a name is written as nothing, and what is read of it is not kept. -/
theorem membersRoundTrip_unnamed {handler : Handler} {rest : Members}
    {fields : List (String × Value)} {value : Value}
    (h : ∃ bytes, pack handler .none = some bytes ∧ Reads (unpack handler) bytes value)
    (hrest : MembersRoundTrip rest fields) :
    MembersRoundTrip (.cons none handler rest) fields := by
  obtain ⟨part, hpack, hread⟩ := h
  obtain ⟨more, kwargs, hencode, hreads, hattrs, hfind⟩ := hrest
  refine ⟨part ++ more, kwargs, ?_, ?_, ?_, hfind⟩
  · simp only [encodeXdr, hpack, hencode, Option.bind_eq_bind, Option.bind_some,
      Option.pure_def]
  · have htail := hreads.map id
    rw [map_eq_pure_bind] at htail
    rw [decodeXdr]
    exact hread.bind htail
  · rw [Members.attrs, hattrs]
    rfl

/-- A structure round trips when its members do and its fields are those of its class, in their
order. -/
theorem roundTrips_struct {cls : String} {members : Members} {fields : List (String × Value)}
    (hkeys : fields.map Prod.fst = (blank members).map Prod.fst)
    (h : MembersRoundTrip members fields) :
    RoundTrips (.struct cls members) (.struct cls fields) := by
  obtain ⟨bytes, kwargs, hencode, hread, hattrs, hfind⟩ := h
  refine ⟨bytes, ?_, ?_⟩
  · rw [pack, if_pos rfl, hencode]
  · rw [unpack, ← List.append_nil bytes]
    refine hread.bind ?_
    rw [construct_kwargs hkeys hattrs hfind]
    exact Reads.pure _

end RoundTripLemmas

mutual

/-- Every value that fits its handler makes the round trip, by induction over the handler and, in
arrays, over the items. -/
theorem roundTrips_of_fits : ∀ (handler : Handler) (value : Value),
    Fits Encodable handler value → RoundTrips handler value
  | .int, .int _, h => by
    rw [Fits] at h
    exact roundTrips_int h.1 h.2
  | .uint, .int _, h => by
    rw [Fits] at h
    exact roundTrips_uint h.1 h.2
  | .hyper, .int _, h => by
    rw [Fits] at h
    exact roundTrips_hyper h.1 h.2
  | .double, .double bits, _ => roundTrips_double bits
  | .string, .text _, h => by
    rw [Fits] at h
    exact roundTrips_string h
  | .opaqueData, .bytes _, h => by
    rw [Fits] at h
    exact roundTrips_opaqueData h
  | .fopaqueData _, .bytes data, h => by
    rw [Fits] at h
    exact h ▸ roundTrips_fopaqueData data
  | .array item, .list _, h => by
    rw [Fits] at h
    exact roundTrips_array h.1 fun value hvalue => roundTrips_of_fits item value (h.2 value hvalue)
  | .optional item, value, h => by
    by_cases hnone : value = .none
    · exact hnone ▸ roundTrips_optional_none item
    · rw [Fits] at h
      · exact roundTrips_optional hnone (roundTrips_of_fits item value h)
      · exact hnone
  | .constant item _, value, h => by
    rw [Fits] at h
    obtain ⟨rfl, hitem⟩ := h
    exact constant_reads (roundTrips_of_fits item value hitem) value
  | .struct _ members, .struct _ fields, h => by
    rw [Fits] at h
    obtain ⟨rfl, hkeys, hmembers⟩ := h
    exact roundTrips_struct hkeys (membersRoundTrip_of_fits members fields hmembers)

/-- Attributes that fit the members of their class make the round trip, by induction over the
members. -/
theorem membersRoundTrip_of_fits : ∀ (members : Members) (fields : List (String × Value)),
    FitsMembers Encodable members fields → MembersRoundTrip members fields
  | .nil, fields, _ => membersRoundTrip_nil fields
  | .cons (some _) handler rest, fields, h => by
    rw [FitsMembers] at h
    obtain ⟨⟨value, hvalue, hfits⟩, hrest⟩ := h
    exact membersRoundTrip_attr hvalue (roundTrips_of_fits handler value hfits)
      (membersRoundTrip_of_fits rest fields hrest)
  | .cons none (.constant item constant) rest, fields, h => by
    rw [FitsMembers, Unnamed] at h
    exact membersRoundTrip_unnamed
      (constant_reads (roundTrips_of_fits item constant h.1) .none)
      (membersRoundTrip_of_fits rest fields h.2)
  | .cons none (.optional item) rest, fields, h => by
    rw [FitsMembers] at h
    exact membersRoundTrip_unnamed (roundTrips_optional_none item)
      (membersRoundTrip_of_fits rest fields h.2)

end

end OpenDiamond.Xdr
