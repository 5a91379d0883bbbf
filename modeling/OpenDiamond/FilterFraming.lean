import Mathlib.Algebra.Group.Nat.Defs
import OpenDiamond.DiamondObject
import OpenDiamond.Lib.Decimal
import OpenDiamond.Lib.Framing

/-!
# The framing of the filter protocol

An item is a line with its length, its bytes and a line feed; an absent item is
a blank line; an array ends with a blank line. Three programs write and read
this framing: the server, the Python filter library and the C filter library.
The readers take bytes off a stream that ends where the other side closed it.
A process of the C library that cannot go on exits.
-/

namespace OpenDiamond.FilterFraming

open Lib.Streams Lib.Framing Lib.Decimal DiamondObject

/-- How a reader or a writer stops without a result. -/
inductive Stop where
  | ioError
  | valueError
  | unicodeDecodeError
  /-- `exit(EXIT_SUCCESS)` at the end of the input. -/
  | exitSuccess
  /-- `exit(EXIT_FAILURE)`, or `abort` when memory cannot be had. -/
  | exitFailure
  /-- A signed overflow, which C leaves undefined. -/
  | undefined
  /-- A loop that reads nothing. -/
  | endless
  deriving DecidableEq

/-- A reader of the bytes from the other side. -/
abbrev FrameReader := Reader UInt8 Stop

/-- The line feed. -/
def newline : UInt8 := 10

/-- `INT_MAX`. -/
def intMax : ℕ := 2147483647

/-! ## The server and the Python filter library -/

/-- `read(size)` of a buffered stream. -/
def read (size : ℤ) : FrameReader Bytes :=
  if 0 ≤ size then upTo size.toNat
  else if size = -1 then fun stream => .ok (stream, [])
  else throw .valueError

/-- `get_item` after the length line was taken: none is no length. -/
def getSized : Option ℤ → FrameReader (Option Bytes)
  | none => return none
  | some size => do
    let item ← read size
    if (item.length : ℤ) ≠ size then throw .ioError
    else do
      -- the trailing line feed
      let _ ← upTo 1
      return some item

/-- `get_item`, with the way the length line is understood. -/
def getItemWith (sizeOf : Bytes → Except Stop (Option ℤ)) : FrameReader (Option Bytes) := do
  let sizebuf ← line newline
  if sizebuf = [] then throw .ioError
  else do
    let size ← (sizeOf sizebuf : Except Stop (Option ℤ))
    getSized size

/-- The length line on the server: bytes. -/
def serverSize (sizebuf : Bytes) : Except Stop (Option ℤ) :=
  if strip sizebuf = [] then .ok none
  else
    match readInt sizebuf with
    | some size => .ok (some size)
    | none => .error .valueError

/-- The length line in the filter library: text. -/
def filterSize (sizebuf : Bytes) : Except Stop (Option ℤ) :=
  match Lib.Unicode.decodeUtf8 sizebuf with
  | none => .error .unicodeDecodeError
  | some text =>
    if Lib.Words.strip text = [] then .ok none
    else
      match Lib.Words.readInt text with
      | some size => .ok (some size)
      | none => .error .valueError

/-- `get_array`, with the way the length line is understood. -/
def getArrayWith (sizeOf : Bytes → Except Stop (Option ℤ)) : FrameReader (List Bytes) :=
  untilNone .endless (getItemWith sizeOf)

namespace Server

/-- `_FilterConnection.get_item`. -/
def getItem : FrameReader (Option Bytes) := getItemWith serverSize

/-- `_FilterConnection.get_array`. -/
def getArray : FrameReader (List Bytes) := getArrayWith serverSize

/-- `_FilterConnection.get_tag`. -/
def getTag : FrameReader Bytes := strip <$> line newline

end Server

namespace Filter

/-- `_DiamondConnection.get_item`. -/
def getItem : FrameReader (Option Bytes) := getItemWith filterSize

/-- `_DiamondConnection.get_array`. -/
def getArray : FrameReader (List Bytes) := getArrayWith filterSize

end Filter

/-- `_send_value`, on the bytes of the value. -/
def sendValue (value : Bytes) : Bytes :=
  decimal value.length ++ [newline] ++ (value ++ [newline])

/-- An argument of `_FilterConnection.send`. -/
inductive Value where
  /-- Bytes, or `str(value).encode()` of any other scalar. -/
  | scalar (data : Bytes)
  | boolean (value : Bool)
  | none
  /-- A list or a tuple. -/
  | array (elements : List Bytes)

/-- The text of a boolean. -/
def booleanText (value : Bool) : Bytes := encodeText (if value then "true" else "false")

/-- One argument of `_FilterConnection.send`. -/
def Value.bytes : Value → Bytes
  | .array elements => elements.flatMap sendValue ++ [newline]
  | .boolean value => sendValue (booleanText value)
  | .none => [newline]
  | .scalar data => sendValue data

/-- `_FilterConnection.send`. -/
def Server.send (values : List Value) : Bytes := values.flatMap Value.bytes

/-- An argument of `send_message`. -/
inductive MessageValue where
  /-- Bytes, or `str(value).encode()` of any other scalar. -/
  | scalar (data : Bytes)
  /-- A list or a tuple. -/
  | array (elements : List Bytes)

/-- One argument of `send_message`. -/
def MessageValue.bytes : MessageValue → Bytes
  | .array elements => elements.flatMap sendValue ++ [newline]
  | .scalar data => sendValue data

/-- A tag: one line without blanks at its ends. -/
structure Tag where
  /-- The encoded tag. -/
  bytes : Bytes
  /-- It is one line. -/
  single : newline ∉ bytes
  /-- It survives `strip`. -/
  stripped : strip (bytes ++ [newline]) = bytes

/-- `_DiamondConnection.send_message`. -/
def Filter.sendMessage (tag : Tag) (values : List MessageValue) : Bytes :=
  tag.bytes ++ [newline] ++ values.flatMap MessageValue.bytes

/-! ## The C filter library -/

/-- A C string: its bytes up to the NUL that closes it. -/
structure CString where
  /-- The bytes before the NUL. -/
  bytes : Bytes
  /-- No NUL before the end. -/
  closed : (0 : UInt8) ∉ bytes

/-- The C string at the start of a buffer. -/
def cString (buffer : Bytes) : Bytes := buffer.takeWhile (· ≠ 0)

/-- `g_ascii_isspace`. -/
def gIsSpace (b : UInt8) : Bool := b.toNat ∈ [9, 10, 12, 13, 32]

/-- `g_strchomp`. -/
def gStrchomp (text : Bytes) : Bytes := text.rdropWhile gIsSpace

/-- The number on the length line, -1 when there is none. -/
def cSize (text : Bytes) : Except Stop ℤ :=
  if text = [] then .error .exitSuccess
  else if gStrchomp (cString text) = [] then .ok (-1)
  else
    let number := atoi (gStrchomp (cString text))
    if number < -(intMax : ℤ) - 1 ∨ (intMax : ℤ) < number then .error .undefined else .ok number

/-- `lf_get_size`. -/
def lfGetSize : FrameReader ℤ := do
  let text ← line newline
  (cSize text : Except Stop ℤ)

/-- `fread` of a number of bytes as one member. At the end of the input the
process exits. -/
def fread (size : ℕ) : FrameReader Bytes := take .exitSuccess size

/-- `lf_get_string` after the length line was taken. -/
def getCString (size : ℤ) : FrameReader (Option Bytes) :=
  if size = -1 then return none
  -- size + 1 is an int
  else if size = intMax then throw .undefined
  else if size < 0 then throw .exitFailure
  else do
    let result ← fread size.toNat
    -- the trailing line feed
    let _ ← upTo 1
    return some (cString result)

/-- `lf_get_string`; none is the null pointer. -/
def lfGetString : FrameReader (Option Bytes) := lfGetSize >>= getCString

/-- `lf_get_strings`. -/
def lfGetStrings : FrameReader (List Bytes) := untilNone .endless lfGetString

/-- The bytes of a binary item. -/
def freadBinary (size : ℤ) : FrameReader Bytes := if 0 < size then fread size.toNat else return []

/-- `lf_get_binary` after the length line was taken. -/
def getCBinary (size : ℤ) : FrameReader (ℤ × Bytes) := do
  let binary ← freadBinary size
  let _ ← upTo (if size ≠ -1 then 1 else 0)
  return (size, binary)

/-- `lf_get_binary`: `len_OUT` and the data. -/
def lfGetBinary : FrameReader (ℤ × Bytes) := lfGetSize >>= getCBinary

/-- The conversion of a size to `int`. -/
def cInt (n : ℕ) : ℤ := Int.bmod n (2 ^ 32)

/-- `%d`. -/
def printInt : ℤ → Bytes
  | .ofNat n => decimal n
  | .negSucc n => 45 :: decimal (n + 1)

/-- `fprintf`: -1 when the count of the bytes is no `int`, on which the
process exits. -/
def fprintf (text : Bytes) : Written UInt8 Stop :=
  if intMax < text.length then .error .exitFailure else .ok text

/-- `fwrite` of a number of bytes as one member. A member of size 0 is not
written and not counted. -/
def fwrite (data : Bytes) (len : ℤ) : Written UInt8 Stop :=
  if len = 0 then .error .exitFailure
  else if len < 0 then .error .undefined
  else .ok (data.take len.toNat)

/-- `lf_send_binary`, on a buffer and its length. -/
def lfSendBinary (data : Bytes) : Written UInt8 Stop :=
  let len := cInt data.length
  writeAll [fprintf (printInt len ++ [newline]), fwrite data len, fprintf [newline]]

/-- `lf_send_string`. -/
def lfSendString (str : CString) : Written UInt8 Stop :=
  fprintf (printInt (cInt str.bytes.length) ++ [newline] ++ (str.bytes ++ [newline]))

/-- `lf_send_blank`. -/
def lfSendBlank : Written UInt8 Stop := fprintf [newline]

/-! ## What one side writes and the other reads -/

/-- What a reader returns. -/
inductive Received where
  | tag (text : Bytes)
  | item (data : Option Bytes)
  | array (elements : List Bytes)

/-- What an argument of `send` means to the other side. -/
def Value.meaning : Value → Received
  | .array elements => .array elements
  | .boolean value => .item (some (booleanText value))
  | .none => .item Option.none
  | .scalar data => .item (some data)

/-- What an argument of `send_message` means to the other side. -/
def MessageValue.meaning : MessageValue → Received
  | .array elements => .array elements
  | .scalar data => .item (some data)

/-- An item the C library sends. -/
inductive CItem where
  | string (str : CString)
  | binary (data : Bytes)

/-- The bytes of the item. -/
def CItem.data : CItem → Bytes
  | .string str => str.bytes
  | .binary data => data

/-- `lf_send_string` or `lf_send_binary`. -/
def CItem.write : CItem → Written UInt8 Stop
  | .string str => lfSendString str
  | .binary data => lfSendBinary data

/-- What the C library sends: an item, an absent item, or the elements of an
array and a blank. -/
inductive CValue where
  | item (element : CItem)
  | blank
  | array (elements : List CItem)

/-- What it means to the server. -/
def CValue.meaning : CValue → Received
  | .item element => .item (some element.data)
  | .blank => .item Option.none
  | .array elements => .array (elements.map CItem.data)

/-- The calls that send it. -/
def CValue.write : CValue → Written UInt8 Stop
  | .item element => element.write
  | .blank => lfSendBlank
  | .array elements => writeAll (elements.map CItem.write ++ [lfSendBlank])

/-- One use of the protocol in one direction: the caller of a writer, and the
readers the other side calls for it. -/
inductive Transfer where
  /-- `send`, read by the Python library. -/
  | serverToFilter (values : List Value)
  /-- `send`, read with `lf_get_string` and `lf_get_strings`. -/
  | serverToStrings (values : List Value)
  /-- `send` of one item, read with `lf_get_binary`. -/
  | serverToBinary (data : Option Bytes)
  /-- `send_message`, read by the server. -/
  | filterToServer (tag : Tag) (values : List MessageValue)
  /-- The C library, read by the server. -/
  | cToServer (values : List CValue)

/-- Read one value as what it is expected to be. Tags go to the server only. -/
def readAs (getItem : FrameReader (Option Bytes)) (getArray : FrameReader (List Bytes)) :
    Received → FrameReader Received
  | .tag _ => Received.tag <$> Server.getTag
  | .item _ => Received.item <$> getItem
  | .array _ => Received.array <$> getArray

/-- What `lf_get_binary` reports: the length -1 is an absent item. -/
def binaryItem (result : ℤ × Bytes) : Received :=
  .item (if result.1 = -1 then none else some result.2)

/-- The argument of `send` for an item that may be absent. -/
def Value.ofItem : Option Bytes → Value
  | .some data => .scalar data
  | .none => .none

namespace Transfer

/-- The bytes on the stream. -/
def write : Transfer → Written UInt8 Stop
  | serverToFilter values => .ok (Server.send values)
  | serverToStrings values => .ok (Server.send values)
  | serverToBinary data => .ok (Server.send [.ofItem data])
  | filterToServer tag values => .ok (Filter.sendMessage tag values)
  | cToServer values => writeAll (values.map CValue.write)

/-- What was sent. -/
def sent : Transfer → List Received
  | serverToFilter values => values.map Value.meaning
  | serverToStrings values => values.map Value.meaning
  | serverToBinary data => [.item data]
  | filterToServer tag values => .tag tag.bytes :: values.map MessageValue.meaning
  | cToServer values => values.map CValue.meaning

/-- The readers on the other side. -/
def readers : Transfer → List (FrameReader Received)
  | serverToFilter values =>
    (values.map Value.meaning).map (readAs Filter.getItem Filter.getArray)
  | serverToStrings values => (values.map Value.meaning).map (readAs lfGetString lfGetStrings)
  | serverToBinary _ => [binaryItem <$> lfGetBinary]
  | filterToServer tag values =>
    (.tag tag.bytes :: values.map MessageValue.meaning).map
      (readAs Server.getItem Server.getArray)
  | cToServer values => (values.map CValue.meaning).map (readAs Server.getItem Server.getArray)

end Transfer

/-- The byte strings of a received value. -/
def Received.parts : Received → List Bytes
  | .tag _ => []
  | .item data => data.toList
  | .array elements => elements

/-- The byte strings are shorter than 2^31, and hold no NUL where the C string
functions read them. -/
def Transfer.InRange (transfer : Transfer) : Prop :=
  (∀ value ∈ transfer.sent, ∀ data ∈ value.parts, data.length < 2 ^ 31) ∧
    match transfer with
    | .serverToStrings values =>
      ∀ value ∈ values, ∀ data ∈ value.meaning.parts, (0 : UInt8) ∉ data
    | _ => True

/-- The item can be sent: binary data is not empty, and the count of the bytes
of a string with its length line and its line feed is an int. -/
def CItem.Sendable : CItem → Prop
  | .string str => (decimal str.bytes.length).length + str.bytes.length + 2 ≤ intMax
  | .binary data => data ≠ []

/-- All items of the value can be sent. -/
def CValue.Sendable : CValue → Prop
  | .item element => element.Sendable
  | .blank => True
  | .array elements => ∀ element ∈ elements, element.Sendable

/-- Nothing in the transfer meets a limit of the C library. -/
def Transfer.Carried : Transfer → Prop
  | .serverToStrings values =>
    ∀ value ∈ values, ∀ data ∈ value.meaning.parts, data.length < intMax
  | .cToServer values => ∀ value ∈ values, value.Sendable
  | _ => True

/-- The readers of each transfer, called in order, return what was sent and
leave the stream right after what was written. -/
def FramingAgrees (transfers : List Transfer) : Prop :=
  Agrees (writeAll (transfers.map Transfer.write))
    (inOrder (transfers.map fun transfer => inOrder transfer.readers))
    (transfers.map Transfer.sent)

/-! ## Length lines -/

/-- A size is printed in digits, so that the line of a size ends where its line feed is. -/
theorem newline_notMem_decimal (n : ℕ) : newline ∉ decimal n :=
  fun h => (ne_of_isDigit (isDigit_of_mem_decimal h)).2.2.2.1 rfl

/-- A line that holds a size is read as far as its line feed, which stays in what is read. -/
theorem reads_sizeLine (n : ℕ) :
    Reads (line newline : FrameReader Bytes) (decimal n ++ [newline]) (decimal n ++ [newline]) :=
  reads_line (newline_notMem_decimal n)

/-- A blank line is read as a line feed alone; an end of the stream would give no byte. -/
theorem reads_blankLine : Reads (line newline : FrameReader Bytes) [newline] [newline] :=
  reads_line (List.not_mem_nil)

/-- The length line is understood: a number as the number, a blank line as no
length. -/
structure ReadsSizes (sizeOf : Bytes → Except Stop (Option ℤ)) : Prop where
  /-- A line with a number. -/
  number : ∀ n : ℕ, sizeOf (decimal n ++ [newline]) = .ok (some n)
  /-- A blank line. -/
  blank : sizeOf [newline] = .ok none

/-- The server's `int` reads back the sizes that are printed, and takes a blank line for no
value. -/
theorem readsSizes_serverSize : ReadsSizes serverSize where
  number n := by
    have hdigits : ∀ b ∈ decimal n, IsDigit b := fun b => isDigit_of_mem_decimal
    rw [serverSize, newline, strip_digits (decimal_ne_nil n) hdigits, if_neg (decimal_ne_nil n),
      readInt_decimal]
  blank := rfl

/-- The Python library's reader of sizes does the same on the filter's side. -/
theorem readsSizes_filterSize : ReadsSizes filterSize where
  number n := by
    have hascii : ∀ b ∈ decimal n ++ [newline], b.toNat < 128 := by
      intro b hb
      rcases List.mem_append.mp hb with hb | hb
      · have hdigit := isDigit_of_mem_decimal hb
        unfold IsDigit at hdigit
        omega
      · rw [List.mem_singleton.mp hb]
        decide
    have hne : (decimal n).map asciiPoint ≠ [] := by
      rw [ne_eq, List.map_eq_nil_iff]
      exact decimal_ne_nil n
    obtain ⟨hstrip, hread⟩ := readInt_asciiPoint n
    rw [filterSize, decodeUtf8_ascii hascii]
    simp only [newline] at hstrip hread ⊢
    simp only [hstrip, if_neg hne, hread]
  blank := by
    have hascii : ∀ b ∈ [newline], b.toNat < 128 := by
      intro b hb
      rw [List.mem_singleton.mp hb]
      decide
    rw [filterSize, decodeUtf8_ascii hascii]
    rfl

/-! ## The Python readers -/

/-- A read of as many bytes as were written gives exactly these bytes and leaves the rest. -/
theorem reads_read (data : Bytes) : Reads (read data.length) data data := by
  have hpos : (0 : ℤ) ≤ data.length := Int.natCast_nonneg _
  rw [read, if_pos hpos, Int.toNat_natCast]
  exact reads_upTo data

/-- After the line of its size, the bytes of a value are read together with the line feed behind
them. -/
theorem reads_getSized (data : Bytes) :
    Reads (getSized (some data.length)) (data ++ [newline]) (some data) := by
  refine (reads_read data).bind ?_
  rw [if_neg (not_not.mpr rfl)]
  exact (reads_upTo [newline]).bind (Reads.pure (some data))

section PythonReaders

variable {sizeOf : Bytes → Except Stop (Option ℤ)}

/-- A length that was understood without reading on. -/
theorem reads_lift {α : Type} {outcome : Except Stop α} {value : α} (h : outcome = .ok value) :
    Reads (liftM outcome : FrameReader α) [] value := by
  intro rest
  rw [h]
  rfl

/-- Reading an item is reading a line, the size in it, and as many bytes as the size says. The three
parts are composed here once for every reader of sizes. -/
theorem reads_getItemWith {cells cells' : Bytes} {size : Option ℤ} {value : Option Bytes}
    (hline : Reads (line newline : FrameReader Bytes) cells cells) (hne : cells ≠ [])
    (hsize : sizeOf cells = .ok size) (hrest : Reads (getSized size) cells' value) :
    Reads (getItemWith sizeOf) (cells ++ cells') value := by
  refine hline.bind ?_
  rw [if_neg hne]
  exact (reads_lift hsize).bind hrest

variable (h : ReadsSizes sizeOf)

include h in
/-- A value that is sent with its size is read back as it was, also when it holds line feeds. -/
theorem reads_sendValue (data : Bytes) : Reads (getItemWith sizeOf) (sendValue data) (some data) :=
  reads_getItemWith (reads_sizeLine data.length) (List.append_ne_nil_of_right_ne_nil _ (by simp))
    (h.number data.length) (reads_getSized data)

include h in
/-- A blank line in place of a size is read as no value. -/
theorem reads_blank : Reads (getItemWith sizeOf) [newline] none := by
  have hrest : Reads (getSized none) [] none := Reads.pure none
  exact reads_getItemWith reads_blankLine (List.cons_ne_nil _ _) h.blank hrest

end PythonReaders

/-! ## The C readers -/

/-- Without a NUL inside, a C string has all the bytes that it was made of. -/
theorem cString_eq {data : Bytes} (h : (0 : UInt8) ∉ data) : cString data = data := by
  have hall : ∀ b ∈ data, decide (b ≠ 0) = true := by
    intro b hb
    have hne : b ≠ 0 := fun heq => h (heq ▸ hb)
    exact decide_eq_true hne
  exact List.takeWhile_eq_self_iff.mpr hall

/-- What is left of a size line without its line feed are the digits. -/
theorem gStrchomp_sizeLine (n : ℕ) :
    gStrchomp (cString (decimal n ++ [newline])) = decimal n := by
  have hnul : (0 : UInt8) ∉ decimal n ++ [newline] := by
    rw [List.mem_append, not_or, List.mem_singleton]
    exact ⟨fun h => (ne_of_isDigit (isDigit_of_mem_decimal h)).2.2.2.2 rfl, by decide⟩
  have hdigits : ∀ b ∈ decimal n, gIsSpace b = false := by
    intro b hb
    have hdigit := isDigit_of_mem_decimal hb
    unfold IsDigit at hdigit
    simp only [gIsSpace, List.mem_cons, List.not_mem_nil, or_false, decide_eq_false_iff_not]
    omega
  rw [cString_eq hnul]
  exact rdropWhile_append hdigits fun b hb => by rw [List.mem_singleton.mp hb]; rfl

/-- A length line that fits an `int`. -/
theorem reads_lfGetSize {n : ℕ} (h : n ≤ intMax) :
    Reads lfGetSize (decimal n ++ [newline]) (n : ℤ) := by
  have hline : decimal n ++ [newline] ≠ [] := List.append_ne_nil_of_right_ne_nil _ (by simp)
  have hsize : cSize (decimal n ++ [newline]) = .ok (n : ℤ) := by
    have hin : ¬ ((n : ℤ) < -(intMax : ℤ) - 1 ∨ (intMax : ℤ) < n) := by omega
    rw [cSize, gStrchomp_sizeLine, atoi_decimal, if_neg hline, if_neg (decimal_ne_nil n)]
    exact if_neg hin
  have hread : Reads lfGetSize (decimal n ++ [newline] ++ []) (n : ℤ) :=
    (reads_sizeLine n).bind (reads_lift hsize)
  rwa [List.append_nil] at hread

/-- The C library gives -1 for a blank line. -/
theorem reads_lfGetSize_blank : Reads lfGetSize [newline] (-1) := by
  have hsize : cSize [newline] = .ok (-1) := rfl
  exact reads_blankLine.bind (reads_lift hsize)

/-- A string without a NUL that is shorter than the greatest `int` is read back by the C library;
the byte for the NUL at its end has to fit too. -/
theorem reads_lfGetString {data : Bytes} (hlen : data.length < intMax)
    (hnul : (0 : UInt8) ∉ data) : Reads lfGetString (sendValue data) (some data) := by
  refine (reads_lfGetSize hlen.le).bind ?_
  have hsize : ¬ (data.length : ℤ) = -1 := by omega
  have hmax : ¬ (data.length : ℤ) = intMax := by omega
  have hpos : ¬ (data.length : ℤ) < 0 := by omega
  rw [getCString, if_neg hsize, if_neg hmax, if_neg hpos, Int.toNat_natCast]
  refine (reads_take Stop.exitSuccess data).bind ?_
  rw [cString_eq hnul]
  exact (reads_upTo [newline]).bind (Reads.pure (some data))

/-- At the greatest `int` the size of the buffer overflows. -/
theorem fails_lfGetString {data : Bytes} (hlen : data.length = intMax) :
    Fails lfGetString (sendValue data) .undefined := by
  refine (reads_lfGetSize hlen.le).bind_fails fun rest => ?_
  rw [hlen]
  rfl

/-- The C library gives no string for a blank line. -/
theorem reads_lfGetString_blank : Reads lfGetString [newline] none := by
  have hrest : Reads (getCString (-1)) [] none := Reads.pure none
  exact reads_lfGetSize_blank.bind hrest

/-- Binary data is read back by the C library up to the greatest `int`, with its length beside
it. -/
theorem reads_lfGetBinary {data : Bytes} (hlen : data.length ≤ intMax) :
    Reads lfGetBinary (sendValue data) ((data.length : ℤ), data) := by
  refine (reads_lfGetSize hlen).bind ?_
  have hsize : (data.length : ℤ) ≠ -1 := by omega
  have hfread : Reads (freadBinary data.length) data data := by
    unfold freadBinary
    split
    · rw [Int.toNat_natCast]
      exact reads_take Stop.exitSuccess data
    · have hnil : data = [] := List.length_eq_zero_iff.mp (by omega)
      rw [hnil]
      exact Reads.pure []
  refine hfread.bind ?_
  rw [if_pos hsize]
  exact (reads_upTo [newline]).bind (Reads.pure _)

/-- For a blank line the C library gives the length -1 and no data. -/
theorem reads_lfGetBinary_blank : Reads lfGetBinary [newline] (-1, []) := by
  have hfread : Reads (freadBinary (-1)) [] [] := Reads.pure []
  have hrest : Reads (getCBinary (-1)) [] (-1, []) := by
    refine hfread.bind ?_
    rw [if_neg (not_not.mpr rfl)]
    exact (reads_upTo []).bind (Reads.pure _)
  exact reads_lfGetSize_blank.bind hrest

/-! ## The C writers -/

/-- A length below `2 ^ 31` is itself as an `int`; from there on it would wrap around. -/
theorem cInt_eq {n : ℕ} (h : n < 2 ^ 31) : cInt n = n := by
  have hn : n < 2147483648 := by simpa using h
  exact Int.bmod_eq_of_le (by omega) (by omega)

theorem printInt_natCast (n : ℕ) : printInt (n : ℤ) = decimal n := rfl

/-- A value is sent with the digits of its size and two line feeds. -/
theorem length_sendValue (data : Bytes) :
    (sendValue data).length = (decimal data.length).length + data.length + 2 := by
  simp only [sendValue, List.length_append, List.length_singleton]
  omega

/-- Even an empty value is sent as something, so that a reader gets on. -/
theorem sendValue_ne_nil (data : Bytes) : sendValue data ≠ [] := by
  have hlen := length_sendValue data
  exact fun h => by rw [h] at hlen; simp at hlen

theorem lfSendBlank_eq : lfSendBlank = .ok [newline] := rfl

/-- Below `2 ^ 31` bytes the C library prints a string as the server sends one. -/
theorem lfSendString_eq {str : CString} (h : str.bytes.length < 2 ^ 31) :
    lfSendString str = fprintf (sendValue str.bytes) := by
  rw [lfSendString, cInt_eq h, printInt_natCast, sendValue]

/-- The length line of binary data is short. -/
theorem length_sizeLine_le {n : ℕ} (h : n < 2 ^ 31) : (decimal n ++ [newline]).length ≤ 11 := by
  have hdigits : (Nat.toDigits 10 n).length ≤ 10 := by
    rw [Nat.length_toDigits_le_iff (by omega) (by omega)]
    omega
  rw [List.length_append, List.length_singleton, decimal, List.length_map]
  omega

/-- Below `2 ^ 31` bytes the C library sends data as the server does, unless there is none: then the
write of no bytes fails. -/
theorem lfSendBinary_eq {data : Bytes} (h : data.length < 2 ^ 31) (hne : data ≠ []) :
    lfSendBinary data = .ok (sendValue data) := by
  have hsize : ¬ intMax < (decimal data.length ++ [newline]).length := by
    have hle := length_sizeLine_le h
    simp only [intMax]
    omega
  have hzero : ¬ (data.length : ℤ) = 0 := by
    have hpos := List.length_pos_iff.mpr hne
    omega
  have hneg : ¬ (data.length : ℤ) < 0 := by omega
  have hfirst : fprintf (printInt (cInt data.length) ++ [newline]) =
      .ok (decimal data.length ++ [newline]) := by
    rw [cInt_eq h, printInt_natCast, fprintf, if_neg hsize]
  have hsecond : fwrite data (cInt data.length) = .ok data := by
    rw [cInt_eq h, fwrite, if_neg hzero, if_neg hneg, Int.toNat_natCast, List.take_length]
  have hlast : writeAll [fprintf [newline]] = .ok [newline] := rfl
  rw [lfSendBinary, writeAll_cons_ok hfirst (writeAll_cons_ok hsecond hlast), sendValue]

/-- An element that the C library can send goes out as the server would send it. -/
theorem CItem.write_of_sendable {element : CItem} (h : element.data.length < 2 ^ 31)
    (hsendable : element.Sendable) : element.write = .ok (sendValue element.data) := by
  cases element with
  | string str =>
    have hcount : ¬ intMax < (sendValue str.bytes).length := by
      rw [length_sendValue]
      exact Nat.not_lt.mpr hsendable
    rw [CItem.write, lfSendString_eq h, fprintf, if_neg hcount, CItem.data]
  | binary data => exact lfSendBinary_eq h hsendable

/-- The C library exits at an element that it cannot send. -/
theorem CItem.write_of_not_sendable {element : CItem} (h : element.data.length < 2 ^ 31)
    (hsendable : ¬ element.Sendable) : element.write = .error .exitFailure := by
  cases element with
  | string str =>
    have hcount : intMax < (sendValue str.bytes).length := by
      rw [length_sendValue]
      exact Nat.not_le.mp hsendable
    rw [CItem.write, lfSendString_eq h, fprintf, if_pos hcount]
  | binary data =>
    have hnil : data = [] := not_not.mp hsendable
    rw [hnil]
    rfl

/-! ## Values -/

/-- The framing of a value. -/
def Received.spell : Received → Written UInt8 Stop
  | .tag text => .ok (text ++ [newline])
  | .item (some data) => .ok (sendValue data)
  | .item none => .ok [newline]
  | .array elements =>
    writeAll (elements.map (fun data => .ok (sendValue data)) ++ [.ok [newline]])

/-- An array is its elements in a row, and a blank line behind them. -/
theorem spell_array (elements : List Bytes) :
    (Received.array elements).spell = .ok (elements.flatMap sendValue ++ [newline]) := by
  have hparts : writeAll ((elements.map sendValue ++ [[newline]]).map
      fun cells => (.ok cells : Written UInt8 Stop)) = _ := writeAll_ok _
  rw [List.map_append, List.map_map] at hparts
  rw [Received.spell]
  refine hparts.trans ?_
  rw [List.flatten_append, List.flatMap_def, List.flatten_singleton]

/-- What the server sends for a value is the spelling of its meaning. -/
theorem Value.spell_meaning (value : Value) : value.meaning.spell = .ok value.bytes := by
  cases value with
  | array elements => exact spell_array elements
  | scalar data => rfl
  | boolean value => rfl
  | none => rfl

/-- What the Python library sends for a value of a message is the spelling of its meaning. -/
theorem MessageValue.spell_meaning (value : MessageValue) :
    value.meaning.spell = .ok value.bytes := by
  cases value with
  | array elements => exact spell_array elements
  | scalar data => rfl

/-- A reader of items reads back what `_send_value` and a blank line spell, for
good data, and fails on other data. -/
structure ReadsItems (getItem : FrameReader (Option Bytes)) (valid good : Bytes → Prop) : Prop where
  /-- An item. -/
  item : ∀ data, valid data → good data → Reads getItem (sendValue data) (some data)
  /-- An item the reader cannot take. -/
  bad : ∀ data, valid data → ¬ good data → ∃ error, Fails getItem (sendValue data) error
  /-- An absent item. -/
  absent : Reads getItem [newline] none

/-- A reader of sizes makes a reader of items, for data of any kind and length. -/
theorem readsItems_of_readsSizes {sizeOf : Bytes → Except Stop (Option ℤ)} (h : ReadsSizes sizeOf)
    (valid : Bytes → Prop) : ReadsItems (getItemWith sizeOf) valid fun _ => True where
  item data _ _ := reads_sendValue h data
  bad _ _ hbad := absurd trivial hbad
  absent := reads_blank h

/-- What the C string functions are used for. -/
def StringData (data : Bytes) : Prop := data.length < 2 ^ 31 ∧ (0 : UInt8) ∉ data

/-- What is sent to the string functions of the C library has no NULs and is short enough, as soon
as the transfer is in range. -/
theorem stringData_of_inRange {values : List Value}
    (h : (Transfer.serverToStrings values).InRange) :
    ∀ value ∈ values.map Value.meaning, ∀ data ∈ value.parts, StringData data := by
  intro value hvalue data hdata
  obtain ⟨argument, hargument, rfl⟩ := List.mem_map.mp hvalue
  exact ⟨h.1 _ hvalue data hdata, h.2 argument hargument data hdata⟩

/-- The C library reads items as strings where they have no NUL and are shorter than an `int` can
count. -/
theorem readsItems_lfGetString :
    ReadsItems lfGetString StringData fun data => data.length < intMax where
  item data hvalid hgood := reads_lfGetString hgood hvalid.2
  bad data hvalid hbad := by
    have hlen : data.length = intMax := by
      have hlt := hvalid.1
      simp only [intMax] at hbad ⊢
      omega
    exact ⟨.undefined, fails_lfGetString hlen⟩
  absent := reads_lfGetString_blank

section ReadAs

variable {getItem : FrameReader (Option Bytes)} {valid good : Bytes → Prop}
  (h : ReadsItems getItem valid good)

include h in
/-- A value whose parts are good for the reader is read back, be it an item or an array. -/
theorem agrees_readAs {value : Received} (hvalue : ∀ text, value ≠ .tag text)
    (hvalid : ∀ data ∈ value.parts, valid data) (hgood : ∀ data ∈ value.parts, good data) :
    Agrees value.spell (readAs getItem (untilNone .endless getItem) value) value := by
  cases value with
  | tag text => exact absurd rfl (hvalue text)
  | item data =>
    cases data with
    | none => exact ⟨_, rfl, h.absent.map Received.item⟩
    | some data =>
      have hmem : data ∈ (Received.item (some data)).parts := by simp [Received.parts]
      exact ⟨_, rfl, (h.item data (hvalid data hmem) (hgood data hmem)).map Received.item⟩
  | array elements =>
    have hlist : Agrees (Received.array elements).spell (untilNone .endless getItem)
        (elements.map id) :=
      agrees_untilNone ⟨[newline], rfl, h.absent⟩
        (fun data _ heq => sendValue_ne_nil data (by simpa using heq))
        fun data hdata => ⟨_, rfl, h.item data (hvalid data hdata) (hgood data hdata)⟩
    rw [List.map_id] at hlist
    exact hlist.map Received.array

include h in
/-- A value with a bad part is not read back. -/
theorem breaks_readAs {value : Received} (hvalue : ∀ text, value ≠ .tag text)
    (hvalid : ∀ data ∈ value.parts, valid data) (hbad : ¬ ∀ data ∈ value.parts, good data) :
    Breaks value.spell (readAs getItem (untilNone .endless getItem) value) := by
  have hexists : ∃ data ∈ value.parts, ¬ good data := by
    simpa only [not_forall, exists_prop] using hbad
  have hfails : ∀ data ∈ value.parts, ¬ good data →
      Breaks (.ok (sendValue data) : Written UInt8 Stop) getItem := by
    intro data hdata hnot
    obtain ⟨error, hfail⟩ := h.bad data (hvalid data hdata) hnot
    exact Or.inr ⟨_, error, rfl, hfail⟩
  cases value with
  | tag text => exact absurd rfl (hvalue text)
  | item data =>
    obtain ⟨part, hpart, hnot⟩ := hexists
    obtain rfl : data = some part := by simpa [Received.parts] using hpart
    exact (hfails part hpart hnot).map Received.item
  | array elements =>
    have hgood : ∀ data ∈ elements, good data →
        Agrees (.ok (sendValue data) : Written UInt8 Stop) getItem (some (id data)) :=
      fun data hdata hok => ⟨_, rfl, h.item data (hvalid data hdata) hok⟩
    have hlist : Breaks (Received.array elements).spell (untilNone .endless getItem) :=
      breaks_untilNone (fun data _ heq => sendValue_ne_nil data (by simpa using heq)) hgood hfails
        hexists
    exact hlist.map Received.array

end ReadAs

/-! ## The C library as a writer -/

/-- An element that the C library sends is what the server reads. -/
theorem agrees_element {element : CItem} (h : element.data.length < 2 ^ 31)
    (hsendable : element.Sendable) :
    Agrees element.write Server.getItem (some element.data) :=
  ⟨_, element.write_of_sendable h hsendable, reads_sendValue readsSizes_serverSize element.data⟩

/-- The same for an item or an array of the C library, with its blank line at the end. -/
theorem agrees_cValue {value : CValue} (h : ∀ data ∈ value.meaning.parts, data.length < 2 ^ 31)
    (hsendable : value.Sendable) :
    Agrees value.write (readAs Server.getItem Server.getArray value.meaning) value.meaning := by
  cases value with
  | item element =>
    have hlen := h element.data (by simp [CValue.meaning, Received.parts])
    exact (agrees_element hlen hsendable).map Received.item
  | blank => exact ⟨_, lfSendBlank_eq, (reads_blank readsSizes_serverSize).map Received.item⟩
  | array elements =>
    have hlen : ∀ element ∈ elements, element.data.length < 2 ^ 31 :=
      fun element helement => h element.data (List.mem_map.mpr ⟨element, helement, rfl⟩)
    have hlist : Agrees (CValue.array elements).write Server.getArray (elements.map CItem.data) := by
      refine agrees_untilNone ⟨_, lfSendBlank_eq, reads_blank readsSizes_serverSize⟩ ?_
        fun element helement => agrees_element (hlen element helement) (hsendable element helement)
      intro element helement heq
      rw [element.write_of_sendable (hlen element helement) (hsendable element helement)] at heq
      exact sendValue_ne_nil element.data (by simpa using heq)
    exact hlist.map Received.array

/-- A value with an item that cannot be sent makes the process exit before the value is written. -/
theorem CValue.write_of_not_sendable {value : CValue}
    (h : ∀ data ∈ value.meaning.parts, data.length < 2 ^ 31) (hsendable : ¬ value.Sendable) :
    ∃ error, value.write = .error error := by
  cases value with
  | item element =>
    have hlen := h element.data (by simp [CValue.meaning, Received.parts])
    exact ⟨_, element.write_of_not_sendable hlen hsendable⟩
  | blank => exact absurd trivial hsendable
  | array elements =>
    simp only [CValue.Sendable, not_forall] at hsendable
    obtain ⟨element, helement, hnot⟩ := hsendable
    have hlen := h element.data (List.mem_map.mpr ⟨element, helement, rfl⟩)
    have hmem : element.write ∈ elements.map CItem.write ++ [lfSendBlank] :=
      List.mem_append_left _ (List.mem_map_of_mem helement)
    exact writeAll_eq_error hmem (element.write_of_not_sendable hlen hnot)

/-! ## Transfers -/

/-- A tag is read as a line without its line feed. -/
theorem reads_getTag (tag : Tag) : Reads Server.getTag (tag.bytes ++ [newline]) tag.bytes := by
  have hline : Reads (line newline : FrameReader Bytes) (tag.bytes ++ [newline])
      (tag.bytes ++ [newline]) := reads_line tag.single
  have hread := hline.map strip
  rwa [tag.stripped] at hread

/-- No value of the server is a tag; only a filter sends tags. -/
theorem meaning_ne_tag (value : Value) (text : Bytes) : value.meaning ≠ .tag text := by
  cases value <;> simp [Value.meaning]

/-- No value inside a message is a tag either. -/
theorem messageMeaning_ne_tag (value : MessageValue) (text : Bytes) :
    value.meaning ≠ .tag text := by
  cases value <;> simp [MessageValue.meaning]

/-- Arguments as frames. -/
theorem writeAll_spell {V : Type} {meaning : V → Received} {bytes : V → Bytes}
    (h : ∀ value, (meaning value).spell = .ok (bytes value)) (values : List V) :
    writeAll ((values.map meaning).map Received.spell) = .ok (values.flatMap bytes) := by
  have hparts : writeAll ((values.map bytes).map fun cells => (.ok cells : Written UInt8 Stop)) =
      .ok (values.map bytes).flatten := writeAll_ok _
  rw [List.flatMap_def, ← hparts, List.map_map, List.map_map]
  congr 1
  exact List.map_congr_left fun value _ => h value

section Values

variable {getItem : FrameReader (Option Bytes)} {valid good : Bytes → Prop} (values : List Received)

/-- Values whose parts are good for the reader are read back one after the other. -/
theorem agrees_values (h : ReadsItems getItem valid good)
    (hvalue : ∀ value ∈ values, ∀ text, value ≠ .tag text)
    (hvalid : ∀ value ∈ values, ∀ data ∈ value.parts, valid data)
    (hgood : ∀ value ∈ values, ∀ data ∈ value.parts, good data) :
    Agrees (writeAll (values.map Received.spell))
      (inOrder (values.map (readAs getItem (untilNone .endless getItem)))) values := by
  have hall := agrees_all fun value hmem =>
    agrees_readAs h (hvalue value hmem) (hvalid value hmem) (hgood value hmem)
  rwa [List.map_id'] at hall

/-- A value with a bad part is the end of them. -/
theorem breaks_values (h : ReadsItems getItem valid good)
    (hvalue : ∀ value ∈ values, ∀ text, value ≠ .tag text)
    (hvalid : ∀ value ∈ values, ∀ data ∈ value.parts, valid data)
    (hbad : ¬ ∀ value ∈ values, ∀ data ∈ value.parts, good data) :
    Breaks (writeAll (values.map Received.spell))
      (inOrder (values.map (readAs getItem (untilNone .endless getItem)))) := by
  have hexists : ∃ value ∈ values, ¬ ∀ data ∈ value.parts, good data := by
    simpa only [not_forall, exists_prop] using hbad
  exact breaks_all (fun value hmem hgood =>
    agrees_readAs h (hvalue value hmem) (hvalid value hmem) hgood)
    (fun value hmem hnot => breaks_readAs h (hvalue value hmem) (hvalid value hmem) hnot) hexists

end Values

/-- Where no single value means a tag, none in a list does. -/
theorem exists_meaning {V : Type} {meaning : V → Received} {values : List V}
    (h : ∀ value text, meaning value ≠ .tag text) :
    ∀ value ∈ values.map meaning, ∀ text, value ≠ .tag text := by
  intro value hvalue text
  obtain ⟨argument, _, rfl⟩ := List.mem_map.mp hvalue
  exact h argument text

/-- One piece of data, or none, that the server sends is what the C library's binary reader gets,
below `2 ^ 31` bytes. -/
theorem agrees_serverToBinary {data : Option Bytes} (h : ∀ part ∈ data, part.length < 2 ^ 31) :
    Agrees (Transfer.serverToBinary data).write (binaryItem <$> lfGetBinary) (.item data) := by
  refine ⟨_, rfl, ?_⟩
  rw [Server.send, List.flatMap_singleton]
  cases data with
  | none => exact reads_lfGetBinary_blank.map binaryItem
  | some data =>
    have hlen : data.length ≤ intMax := by
      have hlt := h data rfl
      simp only [intMax]
      omega
    have hitem : binaryItem ((data.length : ℤ), data) = .item (some data) := by
      have hne : ¬ (data.length : ℤ) = -1 := by omega
      rw [binaryItem, if_neg hne]
    rw [← hitem]
    exact (reads_lfGetBinary hlen).map binaryItem

/-- What the C library sends in a row is read in a row by the server, if it can send each of the
values. -/
theorem agrees_cToServer {values : List CValue}
    (h : ∀ value ∈ values, ∀ data ∈ value.meaning.parts, data.length < 2 ^ 31)
    (hsendable : ∀ value ∈ values, value.Sendable) :
    Agrees (Transfer.cToServer values).write (inOrder (Transfer.cToServer values).readers)
      (Transfer.cToServer values).sent := by
  have hall : Agrees (writeAll (values.map CValue.write))
      (inOrder (values.map fun value => readAs Server.getItem Server.getArray value.meaning))
      (values.map CValue.meaning) :=
    agrees_all fun value hvalue => agrees_cValue (h value hvalue) (hsendable value hvalue)
  rw [Transfer.readers, List.map_map]
  exact hall

/-- A transfer that meets no limit of the C library is read back, in whichever direction it goes. -/
theorem agrees_transfer {transfer : Transfer} (h : transfer.InRange) (hcarried : transfer.Carried) :
    Agrees transfer.write (inOrder transfer.readers) transfer.sent := by
  have hlen := h.1
  cases transfer with
  | serverToFilter values =>
    have hvalues := agrees_values (values.map Value.meaning)
      (readsItems_of_readsSizes readsSizes_filterSize fun _ => True)
      (exists_meaning meaning_ne_tag) (fun _ _ _ _ => trivial) fun _ _ _ _ => trivial
    rwa [writeAll_spell Value.spell_meaning values] at hvalues
  | serverToStrings values =>
    have hgood : ∀ value ∈ values.map Value.meaning, ∀ data ∈ value.parts,
        data.length < intMax := by
      intro value hvalue data hdata
      obtain ⟨argument, hargument, rfl⟩ := List.mem_map.mp hvalue
      exact hcarried argument hargument data hdata
    have hvalues := agrees_values (values.map Value.meaning) readsItems_lfGetString
      (exists_meaning meaning_ne_tag) (stringData_of_inRange h) hgood
    rwa [writeAll_spell Value.spell_meaning values] at hvalues
  | serverToBinary data =>
    have hdata : ∀ part ∈ data, part.length < 2 ^ 31 := fun part hpart =>
      hlen (.item data) (List.mem_singleton.mpr rfl) part (Option.mem_toList.mpr hpart)
    have hone := (agrees_serverToBinary hdata).cons agrees_nil
    have hwrite : writeAll [(Transfer.serverToBinary data).write] =
        (Transfer.serverToBinary data).write := by
      rw [Transfer.write]
      exact (writeAll_cons_ok rfl rfl).trans (by rw [List.append_nil])
    rwa [hwrite] at hone
  | filterToServer tag values =>
    have hvalues := agrees_values (values.map MessageValue.meaning)
      (readsItems_of_readsSizes readsSizes_serverSize fun _ => True)
      (exists_meaning messageMeaning_ne_tag) (fun _ _ _ _ => trivial) fun _ _ _ _ => trivial
    rw [writeAll_spell MessageValue.spell_meaning values] at hvalues
    obtain ⟨cells, hcells, hreads⟩ := hvalues
    cases hcells
    have htag : Agrees (.ok (tag.bytes ++ [newline]) : Written UInt8 Stop)
        (Received.tag <$> Server.getTag) (.tag tag.bytes) :=
      ⟨_, rfl, (reads_getTag tag).map Received.tag⟩
    obtain ⟨cells', hcells', hreads'⟩ := htag
    cases hcells'
    have hrest := hreads.map (List.cons (Received.tag tag.bytes))
    rw [map_eq_pure_bind] at hrest
    exact ⟨_, rfl, hreads'.bind hrest⟩
  | cToServer values =>
    refine agrees_cToServer (fun value hvalue data hdata => ?_) hcarried
    exact hlen _ (List.mem_map_of_mem hvalue) data hdata

/-- A transfer that meets a limit of the C library ends one of the two
sides. -/
theorem breaks_transfer {transfer : Transfer} (h : transfer.InRange)
    (hcarried : ¬ transfer.Carried) : Breaks transfer.write (inOrder transfer.readers) := by
  have hlen := h.1
  cases transfer with
  | serverToFilter values => exact absurd trivial hcarried
  | serverToStrings values =>
    have hbad : ¬ ∀ value ∈ values.map Value.meaning, ∀ data ∈ value.parts,
        data.length < intMax := by
      intro hall
      exact hcarried fun value hvalue => hall _ (List.mem_map_of_mem hvalue)
    have hvalues := breaks_values (values.map Value.meaning) readsItems_lfGetString
      (exists_meaning meaning_ne_tag) (stringData_of_inRange h) hbad
    rwa [writeAll_spell Value.spell_meaning values] at hvalues
  | serverToBinary data => exact absurd trivial hcarried
  | filterToServer tag values => exact absurd trivial hcarried
  | cToServer values =>
    have hexists : ∃ value ∈ values, ¬ value.Sendable := by
      simpa only [Transfer.Carried, not_forall, exists_prop] using hcarried
    obtain ⟨value, hvalue, hnot⟩ := hexists
    obtain ⟨error, herror⟩ := value.write_of_not_sendable (hlen _ (List.mem_map_of_mem hvalue)) hnot
    exact Or.inl (writeAll_eq_error (List.mem_map_of_mem hvalue) herror)

end OpenDiamond.FilterFraming
