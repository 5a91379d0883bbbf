import Mathlib.Data.List.DropRight
import OpenDiamond.Lib.OrderedDict
import OpenDiamond.Lib.Unicode

/-!
# Reading markup byte by byte

An incremental reader of XML documents that are made of the declaration of UTF-8, tags with
names in ASCII, and blanks. It reports the start tags. What else a document can hold, such
as text, references or comments, it refuses.
-/

namespace OpenDiamond.Lib.Markup

open Unicode OrderedDict

/-- A sequence of bytes. -/
abbrev Bytes := List UInt8

/-- A start tag, or the tag of an empty element. -/
structure Tag where
  /-- Name. -/
  name : Text
  /-- Attributes. -/
  attrs : Dict Text Text

/-- Where the reader stands. -/
inductive Mode where
  /-- Nothing was read. -/
  | start
  /-- Between two tags. -/
  | between
  /-- Behind `<`, which may begin the declaration. -/
  | opened (declares : Bool)
  /-- In the declaration. -/
  | declaration (content : Bytes)
  /-- In the name of a start tag. -/
  | name (name : Text)
  /-- Behind a blank in a start tag. -/
  | blank (tag : Tag)
  /-- In the name of an attribute. -/
  | key (tag : Tag) (key : Text)
  /-- Behind the `=` of an attribute. -/
  | equals (tag : Tag) (key : Text)
  /-- In the value of an attribute. -/
  | value (tag : Tag) (key : Text) (quote : UInt8) (value : Bytes)
  /-- Behind the value of an attribute. -/
  | behind (tag : Tag)
  /-- Behind the `/` of an empty element. -/
  | slash (tag : Tag)
  /-- In the name of an end tag. -/
  | closing (name : Text)

/-- A reader. -/
structure Reader where
  /-- The names of the open elements, the innermost first. -/
  stack : List Text
  /-- The root was opened. -/
  rooted : Bool
  /-- Where it stands. -/
  mode : Mode

/-- The reader at the beginning of a document. -/
def Reader.new : Reader := ⟨[], false, .start⟩

/-- The document is complete. -/
def Reader.finished (reader : Reader) : Bool :=
  reader.rooted && reader.stack.isEmpty &&
    match reader.mode with
    | .between => true
    | _ => false

/-- A blank. -/
def isBlank (b : UInt8) : Bool := b = 32 || b = 9 || b = 10 || b = 13

/-- A byte that begins a name. -/
def isNameStart (b : UInt8) : Bool :=
  (65 ≤ b.toNat ∧ b.toNat ≤ 90) || (97 ≤ b.toNat ∧ b.toNat ≤ 122) || b = 58 || b = 95

/-- A byte in a name. -/
def isNameByte (b : UInt8) : Bool :=
  isNameStart b || (48 ≤ b.toNat ∧ b.toNat ≤ 57) || b = 45 || b = 46

/-- The code point of a byte. -/
def point (b : UInt8) : CodePoint := ⟨b.toNat, by
  have := b.toNat_lt
  omega⟩

/-- What stands in the declaration of UTF-8. -/
def utf8Declaration : Bytes :=
  ("xml version=\"1.0\" encoding=\"UTF-8\"".toList.map fun c => UInt8.ofNat c.toNat)

/-- The text of a value, which has no noncharacters. -/
def readText (value : Bytes) : Option Text :=
  (decodeUtf8 value).filter fun text => text.all fun c => c ≠ 0xfffe && c ≠ 0xffff

namespace Reader

variable (reader : Reader)

/-- The reader elsewhere. -/
def go (mode : Mode) : Option (Reader × List Tag) := some ({ reader with mode := mode }, [])

/-- The end of a start tag. There is only one root. -/
def enter (tag : Tag) (empty : Bool) : Option (Reader × List Tag) :=
  if reader.stack = [] ∧ reader.rooted then none
  else some (⟨if empty then reader.stack else tag.name :: reader.stack, true, .between⟩, [tag])

/-- The end of an end tag. -/
def leave (name : Text) : Option (Reader × List Tag) :=
  match reader.stack with
  | [] => none
  | top :: rest => if top = name then some (⟨rest, reader.rooted, .between⟩, []) else none

/-- What follows in a start tag: a blank, or its end. -/
def goOn (tag : Tag) (b : UInt8) : Option (Reader × List Tag) :=
  if isBlank b then reader.go (.blank tag)
  else if b = 47 then reader.go (.slash tag)
  else if b = 62 then reader.enter tag false
  else none

/-- One byte, `none` for an error. -/
def step (b : UInt8) : Option (Reader × List Tag) :=
  match reader.mode with
  | .start =>
    if b = 60 then reader.go (.opened true)
    else if isBlank b then reader.go .between
    else none
  | .between =>
    if b = 60 then reader.go (.opened false)
    else if isBlank b then reader.go .between
    else none
  | .opened declares =>
    if declares && b = 63 then reader.go (.declaration [])
    else if b = 47 then reader.go (.closing [])
    else if isNameStart b then reader.go (.name [point b])
    else none
  | .declaration content =>
    if b ≠ 62 then reader.go (.declaration (content ++ [b]))
    else if content.getLast? = some 63 ∧
        content.dropLast.rdropWhile isBlank = utf8Declaration then reader.go .between
    else none
  | .name name =>
    if isNameByte b then reader.go (.name (name ++ [point b]))
    else reader.goOn ⟨name, Dict.empty⟩ b
  | .blank tag =>
    if isNameStart b then reader.go (.key tag [point b]) else reader.goOn tag b
  | .key tag key =>
    if isNameByte b then reader.go (.key tag (key ++ [point b]))
    else if b = 61 ∧ tag.attrs.get? key = none then reader.go (.equals tag key)
    else none
  | .equals tag key => if b = 34 ∨ b = 39 then reader.go (.value tag key b []) else none
  | .value tag key quote value =>
    if b = quote then
      match readText value with
      | none => none
      | some text => reader.go (.behind { tag with attrs := tag.attrs.set key text })
    -- a value holds no markup and no control character, and every blank in it is a space
    else if b = 60 ∨ b = 38 then none
    else if isBlank b then reader.go (.value tag key quote (value ++ [32]))
    else if b.toNat < 32 then none
    else reader.go (.value tag key quote (value ++ [b]))
  | .behind tag => reader.goOn tag b
  | .slash tag => if b = 62 then reader.enter tag true else none
  | .closing name =>
    if isNameByte b then reader.go (.closing (name ++ [point b]))
    else if b = 62 then reader.leave name
    else none

end Reader

/-- The tags that are reported, and the reader behind the bytes, `none` behind an error. -/
def run : Reader → Bytes → List Tag × Option Reader
  | reader, [] => ([], some reader)
  | reader, b :: rest =>
    match reader.step b with
    | none => ([], none)
    | some (next, tags) => (tags ++ (run next rest).1, (run next rest).2)

/-- The bytes are read without an error. -/
def ReadsBytes (reader : Reader) (bytes : Bytes) (tags : List Tag) (next : Reader) : Prop :=
  run reader bytes = (tags, some next)

/-- The text is read without an error. -/
def Reads (reader : Reader) (text : Text) (tags : List Tag) (next : Reader) : Prop :=
  ∃ bytes, encodeUtf8 text = some bytes ∧ ReadsBytes reader bytes tags next

/-! ## Reading in parts -/

/-- Reading two pieces is reading the second one where the first one ended. -/
theorem run_append (reader : Reader) (bytes rest : Bytes) :
    run reader (bytes ++ rest) =
      ((run reader bytes).1 ++ ((run reader bytes).2.map fun next => (run next rest).1).getD [],
        (run reader bytes).2.bind fun next => (run next rest).2) := by
  induction bytes generalizing reader with
  | nil => rfl
  | cons b bytes ih =>
    rw [List.cons_append, run, run]
    cases reader.step b with
    | none => rfl
    | some result =>
      obtain ⟨next, tags⟩ := result
      simp only [ih, List.append_assoc]

/-- Two pieces in a row give their tags in a row. -/
theorem ReadsBytes.append {reader next last : Reader} {bytes rest : Bytes} {tags more : List Tag}
    (h : ReadsBytes reader bytes tags next) (hrest : ReadsBytes next rest more last) :
    ReadsBytes reader (bytes ++ rest) (tags ++ more) last := by
  rw [ReadsBytes] at h hrest ⊢
  rw [run_append, h]
  simp [hrest]

/-- What is read in two parts. -/
theorem ReadsBytes.of_append {reader last : Reader} {bytes rest : Bytes} {tags : List Tag}
    (h : ReadsBytes reader (bytes ++ rest) tags last) :
    ∃ next first more, ReadsBytes reader bytes first next ∧ ReadsBytes next rest more last ∧
      tags = first ++ more := by
  rw [ReadsBytes, run_append] at h
  obtain ⟨htags, hlast⟩ := Prod.mk.inj h
  obtain ⟨next, hnext, hrest⟩ := Option.bind_eq_some_iff.mp hlast
  refine ⟨next, (run reader bytes).1, (run next rest).1, ?_, ?_, ?_⟩
  · exact Prod.ext rfl hnext
  · exact Prod.ext rfl hrest
  · rw [hnext] at htags
    exact htags.symm

/-- A document is read in the same way in whatever parts it arrives. -/
theorem Reads.append {reader next last : Reader} {text rest : Text} {tags more : List Tag}
    (h : Reads reader text tags next) (hrest : Reads next rest more last) :
    Reads reader (text ++ rest) (tags ++ more) last := by
  obtain ⟨bytes, hbytes, hreads⟩ := h
  obtain ⟨others, hothers, hreads'⟩ := hrest
  exact ⟨bytes ++ others, encodeUtf8_append hbytes hothers, hreads.append hreads'⟩

theorem Reads.nil (reader : Reader) : Reads reader [] [] reader := ⟨[], rfl, rfl⟩

/-- The byte of a symbol of ASCII. -/
def byte (c : CodePoint) : UInt8 := UInt8.ofNat c.val

/-- An ASCII character is one byte and is read back from it. -/
theorem point_byte {c : CodePoint} (h : c.val < 128) : point (byte c) = c := by
  apply Fin.ext
  show (UInt8.ofNat c.val).toNat = c.val
  rw [UInt8.toNat_ofNat']
  omega

/-- One symbol of ASCII. -/
theorem Reads.of_step {reader next : Reader} {c : CodePoint} {tags : List Tag} (hc : c.val < 128)
    (h : reader.step (byte c) = some (next, tags)) : Reads reader [c] tags next := by
  refine ⟨[byte c], encodeUtf8_singleton hc, ?_⟩
  rw [ReadsBytes, run, h]
  simp [run]

/-! ## Names -/

/-- A symbol in a name. -/
def nameSymbol (c : CodePoint) : Bool := c.val < 128 && isNameByte (byte c)

/-- A name. -/
def isName : Text → Bool
  | [] => false
  | first :: rest => first.val < 128 && isNameStart (byte first) && rest.all nameSymbol

/-- A mode that gathers a name goes on to the end of the name. -/
theorem reads_name {stack : List Text} {rooted : Bool} {grow : Text → Mode}
    (hgrow : ∀ name b, isNameByte b = true → Reader.step ⟨stack, rooted, grow name⟩ b =
      some (⟨stack, rooted, grow (name ++ [point b])⟩, []))
    {rest : Text} (h : rest.all nameSymbol = true) (name : Text) :
    Reads ⟨stack, rooted, grow name⟩ rest [] ⟨stack, rooted, grow (name ++ rest)⟩ := by
  induction rest generalizing name with
  | nil =>
    rw [List.append_nil]
    exact Reads.nil _
  | cons c rest ih =>
    rw [List.all_cons, Bool.and_eq_true, nameSymbol, Bool.and_eq_true, decide_eq_true_eq] at h
    obtain ⟨⟨hc, hname⟩, hrest⟩ := h
    have hfirst := Reads.of_step hc (hgrow name (byte c) hname)
    rw [point_byte hc] at hfirst
    have hall := hfirst.append (ih hrest (name ++ [c]))
    rwa [List.append_assoc] at hall

/-- A name of any kind: its first symbol changes the mode, the others are gathered. -/
theorem reads_isName {stack : List Text} {rooted : Bool} {before : Mode} {grow : Text → Mode}
    (hstart : ∀ b, isNameStart b = true → Reader.step ⟨stack, rooted, before⟩ b =
      some (⟨stack, rooted, grow [point b]⟩, []))
    (hgrow : ∀ name b, isNameByte b = true → Reader.step ⟨stack, rooted, grow name⟩ b =
      some (⟨stack, rooted, grow (name ++ [point b])⟩, []))
    {name : Text} (h : isName name = true) :
    Reads ⟨stack, rooted, before⟩ name [] ⟨stack, rooted, grow name⟩ := by
  cases name with
  | nil => cases h
  | cons first rest =>
    rw [isName, Bool.and_eq_true, Bool.and_eq_true, decide_eq_true_eq] at h
    obtain ⟨⟨hlt, hfirst⟩, hrest⟩ := h
    have hstep := Reads.of_step hlt (hstart (byte first) hfirst)
    rw [point_byte hlt] at hstep
    exact hstep.append (reads_name hgrow hrest [first])

/-! ## Values -/

/-- A symbol that a value between double quotes can hold as it is, other than a blank that is
not a space. -/
def plain (c : CodePoint) : Bool :=
  32 ≤ c.val && c.val ∉ [34, 38, 60, 0xfffe, 0xffff] && !(0xd800 ≤ c.val && c.val ≤ 0xdfff)

/-- What a plain character is not: a control character, a quotation mark, an opening bracket, an
ampersand, or no character at all. -/
theorem plain_spec {c : CodePoint} (h : plain c = true) :
    32 ≤ c.val ∧ c.val ≠ 34 ∧ c.val ≠ 38 ∧ c.val ≠ 60 ∧ c.val ≠ 0xfffe ∧ c.val ≠ 0xffff ∧
      (c.val < 0xd800 ∨ 0xdfff < c.val) := by
  simp only [plain, Bool.and_eq_true, Bool.not_eq_true', Bool.and_eq_false_iff, decide_eq_true_eq,
    decide_eq_false_iff_not, List.mem_cons, List.not_mem_nil, or_false] at h
  omega

/-- A text of plain characters has an encoding. -/
theorem isSome_encodeUtf8_of_plain {text : Text} (h : text.all plain = true) :
    (encodeUtf8 text).isSome := by
  rw [isSome_encodeUtf8_iff]
  intro c hc
  have hplain := List.all_eq_true.mp h c hc
  have hvalid : c.val.isValidChar := by
    have hlt := c.isLt
    have hval := plain_spec hplain
    unfold Nat.isValidChar
    omega
  rw [character, dif_pos hvalid, Option.isSome_some]

/-- The bytes of a plain text are all gathered. -/
theorem readsBytes_value {stack : List Text} {rooted : Bool} {tag : Tag} {key : Text}
    {bytes : Bytes} (h : ∀ b ∈ bytes, 32 ≤ b.toNat ∧ b ≠ 34 ∧ b ≠ 38 ∧ b ≠ 60) (value : Bytes) :
    ReadsBytes ⟨stack, rooted, .value tag key 34 value⟩ bytes []
      ⟨stack, rooted, .value tag key 34 (value ++ bytes)⟩ := by
  induction bytes generalizing value with
  | nil =>
    rw [List.append_nil]
    rfl
  | cons b rest ih =>
    obtain ⟨hlow, hquote, hand, hopen⟩ := h b List.mem_cons_self
    have hstep : Reader.step ⟨stack, rooted, .value tag key 34 value⟩ b =
        some (⟨stack, rooted, .value tag key 34 (value ++ [b])⟩, []) := by
      rw [Reader.step]
      dsimp only
      rw [if_neg hquote, if_neg (not_or_intro hopen hand)]
      by_cases hspace : b = 32
      · rw [hspace]
        rfl
      · have hblank : isBlank b = false := by
          have h9 : b ≠ 9 := fun heq => by rw [heq] at hlow; exact absurd hlow (by decide)
          have h10 : b ≠ 10 := fun heq => by rw [heq] at hlow; exact absurd hlow (by decide)
          have h13 : b ≠ 13 := fun heq => by rw [heq] at hlow; exact absurd hlow (by decide)
          simp [isBlank, hspace, h9, h10, h13]
        rw [hblank, if_neg Bool.false_ne_true, if_neg (by omega)]
        rfl
    have hrest := ih (fun other hother => h other (List.mem_cons_of_mem b hother)) (value ++ [b])
    rw [ReadsBytes] at hrest ⊢
    rw [run, hstep]
    simp [hrest]

/-- A plain value between double quotes is read as it is. -/
theorem reads_value {stack : List Text} {rooted : Bool} {tag : Tag} {key value : Text}
    (h : value.all plain = true) :
    Reads ⟨stack, rooted, .equals tag key⟩ ([34] ++ value ++ [34]) []
      ⟨stack, rooted, .behind { tag with attrs := tag.attrs.set key value }⟩ := by
  obtain ⟨bytes, hbytes⟩ := Option.isSome_iff_exists.mp (isSome_encodeUtf8_of_plain h)
  have hplain : ∀ b ∈ bytes, 32 ≤ b.toNat ∧ b ≠ 34 ∧ b ≠ 38 ∧ b ≠ 60 := by
    intro b hb
    have hbyte : 32 ≤ b.toNat ∧ b.toNat ≠ 34 ∧ b.toNat ≠ 38 ∧ b.toNat ≠ 60 := by
      rcases mem_encodeUtf8 hbytes hb with ⟨c, hc, hval⟩ | hlarge
      · have hc := plain_spec (List.all_eq_true.mp h c hc)
        omega
      · omega
    refine ⟨hbyte.1, ?_, ?_, ?_⟩
    · exact fun heq => hbyte.2.1 (congrArg UInt8.toNat heq)
    · exact fun heq => hbyte.2.2.1 (congrArg UInt8.toNat heq)
    · exact fun heq => hbyte.2.2.2 (congrArg UInt8.toNat heq)
  have htext : readText bytes = some value := by
    have hall : value.all (fun c => c ≠ 0xfffe && c ≠ 0xffff) = true := by
      refine List.all_eq_true.mpr fun c hc => ?_
      have hval := plain_spec (List.all_eq_true.mp h c hc)
      have hfirst : c ≠ 0xfffe := fun heq => hval.2.2.2.2.1 (congrArg Fin.val heq)
      have hsecond : c ≠ 0xffff := fun heq => hval.2.2.2.2.2.1 (congrArg Fin.val heq)
      simp [hfirst, hsecond]
    rw [readText, decodeUtf8_encodeUtf8 hbytes, Option.filter_some, if_pos hall]
  have hopen : Reads ⟨stack, rooted, .equals tag key⟩ [34] []
      ⟨stack, rooted, .value tag key 34 []⟩ := Reads.of_step (by decide) rfl
  have hvalue : Reads ⟨stack, rooted, .value tag key 34 []⟩ value []
      ⟨stack, rooted, .value tag key 34 bytes⟩ := ⟨bytes, hbytes, readsBytes_value hplain []⟩
  have hclose : Reads ⟨stack, rooted, .value tag key 34 bytes⟩ [34] []
      ⟨stack, rooted, .behind { tag with attrs := tag.attrs.set key value }⟩ := by
    have hquote : byte 34 = 34 := rfl
    refine Reads.of_step (by decide) ?_
    simp [Reader.step, hquote, htext, Reader.go]
  exact (hopen.append hvalue).append hclose

/-! ## Tags -/

section Tags

variable {stack : List Text} {rooted : Bool}

/-- A start tag is reported, unless it would be a second root. -/
theorem enter_eq (hroot : stack = [] → rooted = false) (mode : Mode) (tag : Tag) (empty : Bool) :
    Reader.enter ⟨stack, rooted, mode⟩ tag empty =
      some (⟨if empty then stack else tag.name :: stack, true, .between⟩, [tag]) := by
  rw [Reader.enter, if_neg]
  rintro ⟨hstack, hrooted⟩
  rw [hroot hstack] at hrooted
  cases hrooted

/-- The beginning of a start tag. -/
theorem reads_opening {name : Text} (h : isName name = true) :
    Reads ⟨stack, rooted, .between⟩ ([60] ++ name) [] ⟨stack, rooted, .name name⟩ := by
  have hopen : Reads ⟨stack, rooted, .between⟩ [60] [] ⟨stack, rooted, .opened false⟩ :=
    Reads.of_step (by decide) rfl
  have hname : Reads ⟨stack, rooted, .opened false⟩ name [] ⟨stack, rooted, .name name⟩ := by
    refine reads_isName (fun b hb => ?_) (fun other b hb => ?_) h
    · have hslash : b ≠ 47 := fun heq => by rw [heq] at hb; exact absurd hb (by decide)
      simp [Reader.step, hb, hslash, Reader.go]
    · simp [Reader.step, hb, Reader.go]
  exact hopen.append hname

/-- A start tag without attributes. -/
theorem reads_startTag {name : Text} (h : isName name = true) (hroot : stack = [] → rooted = false) :
    Reads ⟨stack, rooted, .between⟩ ([60] ++ name ++ [62]) [⟨name, Dict.empty⟩]
      ⟨name :: stack, true, .between⟩ := by
  have hend : Reads ⟨stack, rooted, .name name⟩ [62] [⟨name, Dict.empty⟩]
      ⟨name :: stack, true, .between⟩ :=
    Reads.of_step (by decide) (enter_eq hroot _ _ false)
  exact (reads_opening h).append hend

/-- An attribute with a plain value. -/
theorem reads_attribute {tag : Tag} {key value : Text} (hkey : isName key = true)
    (hnew : tag.attrs.get? key = none) (hvalue : value.all plain = true) :
    Reads ⟨stack, rooted, .blank tag⟩ (key ++ [61] ++ ([34] ++ value ++ [34])) []
      ⟨stack, rooted, .behind { tag with attrs := tag.attrs.set key value }⟩ := by
  have hname : Reads ⟨stack, rooted, .blank tag⟩ key [] ⟨stack, rooted, .key tag key⟩ := by
    refine reads_isName (fun b hb => ?_) (fun other b hb => ?_) hkey
    · simp [Reader.step, hb, Reader.go]
    · simp [Reader.step, hb, Reader.go]
  have hequals : Reads ⟨stack, rooted, .key tag key⟩ [61] [] ⟨stack, rooted, .equals tag key⟩ := by
    refine Reads.of_step (by decide) ?_
    show (if (61 : UInt8) = 61 ∧ tag.attrs.get? key = none then _ else _) = _
    rw [if_pos ⟨rfl, hnew⟩]
    rfl
  exact (hname.append hequals).append (reads_value hvalue)

/-- Between the attributes of a start tag, and before and behind them. -/
def Mode.Within (tag : Tag) (mode : Mode) : Prop :=
  mode = .name tag.name ∧ tag.attrs = Dict.empty ∨ mode = .blank tag ∨ mode = .behind tag

/-- Inside a tag every byte that is no part of a name goes on in the same way. -/
theorem Mode.Within.step_eq {tag : Tag} {mode : Mode} (h : mode.Within tag) {b : UInt8}
    (hb : isNameByte b = false) :
    Reader.step ⟨stack, rooted, mode⟩ b = Reader.goOn ⟨stack, rooted, mode⟩ tag b := by
  have hstart : isNameStart b = false := by
    rw [isNameByte, Bool.or_assoc, Bool.or_assoc, Bool.or_eq_false_iff] at hb
    exact hb.1
  obtain ⟨name, attrs⟩ := tag
  rcases h with ⟨rfl, hattrs⟩ | rfl | rfl
  · dsimp only at hattrs
    subst hattrs
    simp [Reader.step, hb]
  · simp [Reader.step, hstart]
  · rfl

/-- The end of the tag of an empty element. -/
theorem Mode.Within.reads_end {mode : Mode} {tag : Tag} (h : mode.Within tag)
    (hroot : stack = [] → rooted = false) :
    Reads ⟨stack, rooted, mode⟩ [47, 62] [tag] ⟨stack, true, .between⟩ := by
  have hslash : Reads ⟨stack, rooted, mode⟩ [47] [] ⟨stack, rooted, .slash tag⟩ :=
    Reads.of_step (by decide) (h.step_eq rfl)
  have hend : Reads ⟨stack, rooted, .slash tag⟩ [62] [tag] ⟨stack, true, .between⟩ :=
    Reads.of_step (by decide) (enter_eq hroot _ _ true)
  exact hslash.append hend

/-- A space in a start tag. -/
theorem Mode.Within.reads_space {mode : Mode} {tag : Tag} (h : mode.Within tag) :
    Reads ⟨stack, rooted, mode⟩ [32] [] ⟨stack, rooted, .blank tag⟩ :=
  Reads.of_step (by decide) (h.step_eq rfl)

/-- The line feed between two tags. -/
theorem reads_newline : Reads ⟨stack, rooted, .between⟩ [10] [] ⟨stack, rooted, .between⟩ :=
  Reads.of_step (by decide) rfl

/-- The end tag of the innermost element. -/
theorem reads_endTag {name : Text} (h : isName name = true) :
    Reads ⟨name :: stack, rooted, .between⟩ ([60, 47] ++ name ++ [62]) []
      ⟨stack, rooted, .between⟩ := by
  have hopen : Reads ⟨name :: stack, rooted, .between⟩ [60] []
      ⟨name :: stack, rooted, .opened false⟩ := Reads.of_step (by decide) rfl
  have hslash : Reads ⟨name :: stack, rooted, .opened false⟩ [47] []
      ⟨name :: stack, rooted, .closing []⟩ := Reads.of_step (by decide) rfl
  have hall : name.all nameSymbol = true := by
    cases name with
    | nil => rfl
    | cons first rest =>
      rw [isName, Bool.and_eq_true, Bool.and_eq_true] at h
      rw [List.all_cons, nameSymbol, isNameByte, h.1.1, h.1.2, h.2]
      rfl
  have hname : Reads ⟨name :: stack, rooted, .closing []⟩ name []
      ⟨name :: stack, rooted, .closing ([] ++ name)⟩ :=
    reads_name (fun other b hb => by simp [Reader.step, hb, Reader.go]) hall []
  have hend : Reads ⟨name :: stack, rooted, .closing ([] ++ name)⟩ [62] []
      ⟨stack, rooted, .between⟩ := by
    refine Reads.of_step (by decide) ?_
    show (if name = name then _ else _) = _
    rw [if_pos rfl]
  exact ((hopen.append hslash).append hname).append hend

end Tags

end OpenDiamond.Lib.Markup
