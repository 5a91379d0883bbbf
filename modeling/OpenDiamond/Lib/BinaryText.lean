import OpenDiamond.Lib.Unicode

/-!
# Bytes as text: hexadecimal and base64

Encoders and lenient decoders. The base64 decoder drops every symbol outside its alphabet,
so that the line breaks of a wrapped text do not matter, and stops at complete padding.
-/

namespace OpenDiamond.Lib.BinaryText

open Unicode

/-! ## Hexadecimal -/

/-- The digit of a value below sixteen. -/
def hexDigit (n : ℕ) : CodePoint := (ofString "0123456789abcdef").getD n 0

/-- The value of a digit in either case. -/
def hexValue? (c : CodePoint) : Option ℕ :=
  if 48 ≤ c.val ∧ c.val ≤ 57 then some (c.val - 48)
  else if 97 ≤ c.val ∧ c.val ≤ 102 then some (c.val - 87)
  else if 65 ≤ c.val ∧ c.val ≤ 70 then some (c.val - 55)
  else none

/-- `binascii.hexlify` as text. -/
def hexlify : List UInt8 → Text
  | [] => []
  | byte :: rest => hexDigit (byte.toNat / 16) :: hexDigit (byte.toNat % 16) :: hexlify rest

/-- `binascii.unhexlify`, `none` for the error. -/
def unhexlify : Text → Option (List UInt8)
  | [] => some []
  | [_] => none
  | high :: low :: rest => do
    let x ← hexValue? high
    let y ← hexValue? low
    let bytes ← unhexlify rest
    return UInt8.ofNat (16 * x + y) :: bytes

/-- A hexadecimal digit has the value that it was made of. -/
theorem hexValue?_hexDigit {n : ℕ} (h : n < 16) : hexValue? (hexDigit n) = some n := by
  have hall : ∀ n < 16, hexValue? (hexDigit n) = some n := by decide
  exact hall n h

/-- Only ASCII characters are hexadecimal digits. -/
theorem hexValue?_lt {c : CodePoint} (h : (hexValue? c).isSome) : c.val < 0x80 := by
  by_contra hge
  have hnone : hexValue? c = none := by
    unfold hexValue?
    rw [if_neg (by omega), if_neg (by omega), if_neg (by omega)]
  rw [hnone] at h
  cases h

/-- A byte is determined by its number. -/
theorem ofNat_eq_of_toNat {byte : UInt8} {n : ℕ} (h : n = byte.toNat) : UInt8.ofNat n = byte := by
  rw [h, UInt8.ofNat_toNat]

/-- Data written in hexadecimal is read back. -/
theorem unhexlify_hexlify (data : List UInt8) : unhexlify (hexlify data) = some data := by
  induction data with
  | nil => rfl
  | cons byte rest ih =>
    have hbyte := byte.toNat_lt
    have hhigh := hexValue?_hexDigit (by omega : byte.toNat / 16 < 16)
    have hlow := hexValue?_hexDigit (by omega : byte.toNat % 16 < 16)
    have hsum : UInt8.ofNat (16 * (byte.toNat / 16) + byte.toNat % 16) = byte :=
      ofNat_eq_of_toNat (by omega)
    simp only [hexlify, unhexlify, hhigh, hlow, ih, Option.bind_eq_bind, Option.bind_some, hsum,
      Option.pure_def]

/-- Hexadecimal text consists of digits. -/
theorem isSome_hexValue?_of_mem_hexlify {data : List UInt8} {c : CodePoint}
    (h : c ∈ hexlify data) : (hexValue? c).isSome := by
  induction data with
  | nil => simp [hexlify] at h
  | cons byte rest ih =>
    have hbyte := byte.toNat_lt
    rcases List.mem_cons.mp h with rfl | h
    · rw [hexValue?_hexDigit (by omega)]
      rfl
    · rcases List.mem_cons.mp h with rfl | h
      · rw [hexValue?_hexDigit (by omega)]
        rfl
      · exact ih h

/-- Only hexadecimal digits are read. -/
theorem isSome_hexValue?_of_unhexlify {text : Text} {data : List UInt8}
    (h : unhexlify text = some data) : ∀ c ∈ text, (hexValue? c).isSome := by
  induction text using unhexlify.induct generalizing data with
  | case1 => exact fun c hc => absurd hc List.not_mem_nil
  | case2 c =>
    rw [unhexlify] at h
    cases h
  | case3 high low rest ih =>
    rw [unhexlify] at h
    obtain ⟨x, hhigh, h⟩ := Option.bind_eq_some_iff.mp h
    obtain ⟨y, hlow, h⟩ := Option.bind_eq_some_iff.mp h
    obtain ⟨bytes, hrest, _⟩ := Option.bind_eq_some_iff.mp h
    intro c hc
    rcases List.mem_cons.mp hc with rfl | hc
    · rw [hhigh]
      rfl
    · rcases List.mem_cons.mp hc with rfl | hc
      · rw [hlow]
        rfl
      · exact ih hrest c hc

/-! ## Base64 -/

/-- The padding symbol. -/
def pad : CodePoint := 61

/-- The symbol of a value below sixty-four. -/
def digit (n : ℕ) : CodePoint :=
  (ofString "ABCDEFGHIJKLMNOPQRSTUVWXYZabcdefghijklmnopqrstuvwxyz0123456789+/").getD n 0

/-- The value of a symbol of the alphabet. -/
def value? (c : CodePoint) : Option ℕ :=
  if 65 ≤ c.val ∧ c.val ≤ 90 then some (c.val - 65)
  else if 97 ≤ c.val ∧ c.val ≤ 122 then some (c.val - 71)
  else if 48 ≤ c.val ∧ c.val ≤ 57 then some (c.val + 4)
  else if c.val = 43 then some 62
  else if c.val = 47 then some 63
  else none

/-- `base64.b64encode` as text. -/
def b64encode : List UInt8 → Text
  | [] => []
  | [a] => [digit (a.toNat / 4), digit (a.toNat % 4 * 16), pad, pad]
  | [a, b] =>
    [digit (a.toNat / 4), digit (a.toNat % 4 * 16 + b.toNat / 16), digit (b.toNat % 16 * 4), pad]
  | a :: b :: c :: rest =>
    digit (a.toNat / 4) :: digit (a.toNat % 4 * 16 + b.toNat / 16) ::
      digit (b.toNat % 16 * 4 + c.toNat / 64) :: digit (c.toNat % 64) :: b64encode rest

/-- The loop of `binascii.a2b_base64`: the position in the group of four, the bits left over
and the padding seen, `none` for the error at the end of an incomplete group. -/
def decodeFrom : ℕ → ℕ → ℕ → Text → Option (List UInt8)
  | quad, _, _, [] => if quad = 0 then some [] else none
  | quad, left, pads, c :: rest =>
    if c = pad then
      if 2 ≤ quad ∧ 4 ≤ quad + (pads + 1) then some []
      else decodeFrom quad left (if 2 ≤ quad then pads + 1 else pads) rest
    else
      match value? c with
      | none => decodeFrom quad left pads rest
      | some value =>
        match quad with
        | 0 => decodeFrom 1 value 0 rest
        | 1 => (decodeFrom 2 (value % 16) 0 rest).map (UInt8.ofNat (left * 4 + value / 16) :: ·)
        | 2 => (decodeFrom 3 (value % 4) 0 rest).map (UInt8.ofNat (left * 16 + value / 4) :: ·)
        | _ => (decodeFrom 0 0 0 rest).map (UInt8.ofNat (left * 64 + value) :: ·)

/-- `base64.b64decode`. -/
def b64decode (text : Text) : Option (List UInt8) := decodeFrom 0 0 0 text

/-- A symbol that the decoder looks at. -/
def Meaningful (c : CodePoint) : Bool := c = pad ∨ (value? c).isSome

/-- A base64 digit has the value that it was made of. -/
theorem value?_digit {n : ℕ} (h : n < 64) : value? (digit n) = some n := by
  have hall : ∀ n < 64, value? (digit n) = some n := by decide +kernel
  exact hall n h

/-- The padding is none of the 64 digits. -/
theorem digit_ne_pad {n : ℕ} (h : n < 64) : digit n ≠ pad := by
  intro heq
  have hvalue := value?_digit h
  rw [heq] at hvalue
  cases hvalue

/-- Every digit means something to the decoder. -/
theorem meaningful_digit {n : ℕ} (h : n < 64) : Meaningful (digit n) = true := by
  simp [Meaningful, value?_digit h]

/-- Only the symbols of the alphabet and the padding matter. -/
theorem decodeFrom_filter (quad left pads : ℕ) (text : Text) :
    decodeFrom quad left pads (text.filter Meaningful) = decodeFrom quad left pads text := by
  induction text generalizing quad left pads with
  | nil => rfl
  | cons c rest ih =>
    by_cases hpad : c = pad
    · have hmeaningful : Meaningful c = true := by simp [Meaningful, hpad]
      rw [List.filter_cons_of_pos hmeaningful]
      simp only [decodeFrom, if_pos hpad, ih]
    · cases hvalue : value? c with
      | none =>
        have hmeaningful : ¬Meaningful c = true := by simp [Meaningful, hpad, hvalue]
        rw [List.filter_cons_of_neg hmeaningful, ih]
        simp only [decodeFrom, if_neg hpad, hvalue]
      | some value =>
        have hmeaningful : Meaningful c = true := by simp [Meaningful, hvalue]
        rw [List.filter_cons_of_pos hmeaningful]
        simp only [decodeFrom, if_neg hpad, hvalue, ih]

section Steps

variable {n : ℕ} (h : n < 64) (left pads : ℕ) (rest : Text)
include h

/-- The first digit of a group of four gives no byte yet; its six bits are kept. -/
theorem decodeFrom_first : decodeFrom 0 left pads (digit n :: rest) = decodeFrom 1 n 0 rest := by
  simp only [decodeFrom, if_neg (digit_ne_pad h), value?_digit h]

/-- The second digit completes a byte and leaves four bits. -/
theorem decodeFrom_second : decodeFrom 1 left pads (digit n :: rest) =
    (decodeFrom 2 (n % 16) 0 rest).map (UInt8.ofNat (left * 4 + n / 16) :: ·) := by
  simp only [decodeFrom, if_neg (digit_ne_pad h), value?_digit h]

/-- The third digit completes a byte and leaves two bits. -/
theorem decodeFrom_third : decodeFrom 2 left pads (digit n :: rest) =
    (decodeFrom 3 (n % 4) 0 rest).map (UInt8.ofNat (left * 16 + n / 4) :: ·) := by
  simp only [decodeFrom, if_neg (digit_ne_pad h), value?_digit h]

/-- The fourth digit completes a byte and leaves nothing. -/
theorem decodeFrom_fourth : decodeFrom 3 left pads (digit n :: rest) =
    (decodeFrom 0 0 0 rest).map (UInt8.ofNat (left * 64 + n) :: ·) := by
  simp only [decodeFrom, if_neg (digit_ne_pad h), value?_digit h]

end Steps

/-- Data encoded in base64 is decoded again, whatever its length is; the induction goes by groups of
three bytes, with one or two left at the end. -/
theorem b64decode_b64encode (data : List UInt8) : b64decode (b64encode data) = some data := by
  unfold b64decode
  fun_induction b64encode data with
  | case1 => rfl
  | case2 a =>
    have ha := a.toNat_lt
    have hbyte : UInt8.ofNat (a.toNat / 4 * 4 + a.toNat % 4 * 16 / 16) = a :=
      ofNat_eq_of_toNat (by omega)
    rw [decodeFrom_first (by omega), decodeFrom_second (by omega), hbyte]
    rfl
  | case3 a b =>
    have ha := a.toNat_lt
    have hb := b.toNat_lt
    have hfirst : UInt8.ofNat (a.toNat / 4 * 4 + (a.toNat % 4 * 16 + b.toNat / 16) / 16) = a :=
      ofNat_eq_of_toNat (by omega)
    have hsecond : UInt8.ofNat ((a.toNat % 4 * 16 + b.toNat / 16) % 16 * 16 +
        b.toNat % 16 * 4 / 4) = b := ofNat_eq_of_toNat (by omega)
    rw [decodeFrom_first (by omega), decodeFrom_second (by omega), decodeFrom_third (by omega),
      hfirst, hsecond]
    rfl
  | case4 a b c rest ih =>
    have ha := a.toNat_lt
    have hb := b.toNat_lt
    have hc := c.toNat_lt
    have hfirst : UInt8.ofNat (a.toNat / 4 * 4 + (a.toNat % 4 * 16 + b.toNat / 16) / 16) = a :=
      ofNat_eq_of_toNat (by omega)
    have hsecond : UInt8.ofNat ((a.toNat % 4 * 16 + b.toNat / 16) % 16 * 16 +
        (b.toNat % 16 * 4 + c.toNat / 64) / 4) = b := ofNat_eq_of_toNat (by omega)
    have hthird : UInt8.ofNat ((b.toNat % 16 * 4 + c.toNat / 64) % 4 * 64 + c.toNat % 64) = c :=
      ofNat_eq_of_toNat (by omega)
    rw [decodeFrom_first (by omega), decodeFrom_second (by omega), decodeFrom_third (by omega),
      decodeFrom_fourth (by omega), hfirst, hsecond, hthird, ih]
    rfl

/-- Encoded data has no symbols but digits and padding. -/
theorem meaningful_of_mem_b64encode {data : List UInt8} {c : CodePoint}
    (h : c ∈ b64encode data) : Meaningful c = true := by
  have hpad : Meaningful pad = true := rfl
  fun_induction b64encode data with
  | case1 => simp at h
  | case2 a =>
    have ha := a.toNat_lt
    simp only [List.mem_cons, List.not_mem_nil, or_false] at h
    rcases h with rfl | rfl | rfl | rfl
    · exact meaningful_digit (by omega)
    · exact meaningful_digit (by omega)
    · exact hpad
    · exact hpad
  | case3 a b =>
    have ha := a.toNat_lt
    have hb := b.toNat_lt
    simp only [List.mem_cons, List.not_mem_nil, or_false] at h
    rcases h with rfl | rfl | rfl | rfl
    · exact meaningful_digit (by omega)
    · exact meaningful_digit (by omega)
    · exact meaningful_digit (by omega)
    · exact hpad
  | case4 a b c' rest ih =>
    have ha := a.toNat_lt
    have hb := b.toNat_lt
    have hc := c'.toNat_lt
    simp only [List.mem_cons] at h
    rcases h with rfl | rfl | rfl | rfl | h
    · exact meaningful_digit (by omega)
    · exact meaningful_digit (by omega)
    · exact meaningful_digit (by omega)
    · exact meaningful_digit (by omega)
    · exact ih h

/-- A text that spells the encoding with other symbols in between is decoded. -/
theorem b64decode_of_filter {text : Text} {data : List UInt8}
    (h : text.filter Meaningful = b64encode data) : b64decode text = some data := by
  have hfilter := decodeFrom_filter 0 0 0 text
  rw [h] at hfilter
  exact hfilter.symm.trans (b64decode_b64encode data)

end OpenDiamond.Lib.BinaryText
