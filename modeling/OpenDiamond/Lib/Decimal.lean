import OpenDiamond.Lib.Words

/-!
# Decimal numbers as bytes

The decimal spelling of a natural number in ASCII, and the ways a number is read back:
`int` on bytes and on decoded text, and `atoi`.
-/

namespace OpenDiamond.Lib.Decimal

open Unicode

/-- The decimal digits of a number, the most significant first. -/
def decimal (n : ℕ) : List UInt8 := (Nat.toDigits 10 n).map fun c => c.toNat.toUInt8

/-- The value of an ASCII digit. -/
def digit? (b : UInt8) : Option ℕ :=
  if 48 ≤ b.toNat ∧ b.toNat ≤ 57 then some (b.toNat - 48) else none

/-- A byte that is an ASCII digit. -/
def IsDigit (b : UInt8) : Prop := 48 ≤ b.toNat ∧ b.toNat ≤ 57

/-- The value of a byte as a digit. -/
def digitValue (b : UInt8) : ℕ := (digit? b).getD 0

/-- Digits read on after a number. -/
def valueFrom (value : ℕ) : List UInt8 → ℕ
  | [] => value
  | b :: rest => valueFrom (10 * value + digitValue b) rest

/-- The value of a digit is how far its code stands behind that of zero. -/
theorem digitValue_eq {b : UInt8} (h : IsDigit b) : digitValue b = b.toNat - 48 := by
  unfold IsDigit at h
  rw [digitValue, digit?, if_pos h, Option.getD_some]

/-- A digit has its own value as a numeral. -/
theorem digit?_eq {b : UInt8} (h : IsDigit b) : digit? b = some (digitValue b) := by
  rw [digitValue_eq h]
  unfold IsDigit at h
  rw [digit?, if_pos h]

/-- The decimal digits among the characters are single bytes with the same codes. -/
theorem toUInt8_of_isDigit {c : Char} (h : c.isDigit = true) :
    IsDigit c.toNat.toUInt8 ∧ c.toNat.toUInt8.toNat = c.toNat := by
  simp only [Char.isDigit, ge_iff_le, Bool.and_eq_true, decide_eq_true_eq] at h
  obtain ⟨hlow, hhigh⟩ := h
  have hlow' : 48 ≤ c.toNat := hlow
  have hhigh' : c.toNat ≤ 57 := hhigh
  have hbyte : c.toNat.toUInt8.toNat = c.toNat := by
    rw [Nat.toUInt8, UInt8.toNat_ofNat', Nat.mod_eq_of_lt (by omega)]
  exact ⟨by rw [IsDigit, hbyte]; omega, hbyte⟩

/-- A printed number has no bytes but digits. -/
theorem isDigit_of_mem_decimal {n : ℕ} {b : UInt8} (h : b ∈ decimal n) : IsDigit b := by
  obtain ⟨c, hc, rfl⟩ := List.mem_map.mp h
  exact (toUInt8_of_isDigit (Nat.isDigit_of_mem_toDigits (by omega) (by omega) hc)).1

/-- Every number is printed as something, zero included. -/
theorem decimal_ne_nil (n : ℕ) : decimal n ≠ [] := by
  rw [decimal, ne_eq, List.map_eq_nil_iff]
  exact Nat.toDigits_ne_nil

/-- The digits of a printed number have the number as their value. -/
theorem value_decimal (n : ℕ) : valueFrom 0 (decimal n) = n := by
  have hdigits : ∀ c ∈ Nat.toDigits 10 n, c.isDigit = true :=
    fun c hc => Nat.isDigit_of_mem_toDigits (by omega) (by omega) hc
  have hsame : ∀ (chars : List Char) (value : ℕ), (∀ c ∈ chars, c.isDigit = true) →
      valueFrom value (chars.map fun c => c.toNat.toUInt8) = Nat.ofDigitChars 10 chars value := by
    intro chars
    induction chars with
    | nil => exact fun value _ => (Nat.ofDigitChars_nil).symm
    | cons c chars ih =>
      intro value hc
      obtain ⟨hdigit, hbyte⟩ := toUInt8_of_isDigit (hc c List.mem_cons_self)
      rw [List.map_cons, valueFrom, digitValue_eq hdigit, hbyte, Nat.ofDigitChars_cons]
      exact ih _ fun d hd => hc d (List.mem_cons_of_mem c hd)
  rw [decimal, hsame _ 0 hdigits]
  exact Nat.ofDigitChars_ten_toDigits

/-! ## `int` on bytes -/

/-- `bytes.isspace` on one byte. -/
def isSpace (b : UInt8) : Bool := (9 ≤ b.toNat ∧ b.toNat ≤ 13) ∨ b.toNat = 32

/-- `bytes.strip`. -/
def strip (bytes : List UInt8) : List UInt8 := (bytes.dropWhile isSpace).rdropWhile isSpace

/-- Digits with single underscores between them; the flag says that a digit comes before. -/
def readDigits (value : ℕ) (afterDigit : Bool) : List UInt8 → Option ℕ
  | [] => if afterDigit then some value else none
  | b :: rest =>
    if b = 95 then if afterDigit then readDigits value false rest else none
    else
      match digit? b with
      | some digit => readDigits (10 * value + digit) true rest
      | none => none

/-- `int` on bytes, `none` for the `ValueError`. -/
def readInt (bytes : List UInt8) : Option ℤ :=
  match strip bytes with
  | [] => none
  | b :: rest =>
    if b = 43 then (readDigits 0 false rest).map fun value => (value : ℤ)
    else if b = 45 then (readDigits 0 false rest).map fun value => -(value : ℤ)
    else (readDigits 0 false (b :: rest)).map fun value => (value : ℤ)

/-! ## `atoi` -/

/-- The number at the front of the bytes; what follows the digits is ignored. -/
def leadingNumber (value : ℕ) : List UInt8 → ℕ
  | [] => value
  | b :: rest =>
    match digit? b with
    | some digit => leadingNumber (10 * value + digit) rest
    | none => value

/-- `atoi`, before the value is cut to an `int`. -/
def atoi (bytes : List UInt8) : ℤ :=
  match bytes.dropWhile isSpace with
  | [] => 0
  | b :: rest =>
    if b = 43 then leadingNumber 0 rest
    else if b = 45 then -(leadingNumber 0 rest : ℤ)
    else leadingNumber 0 (b :: rest)

/-! ## Digits read back -/

/-- No digit is a blank. -/
theorem isSpace_of_isDigit {b : UInt8} (h : IsDigit b) : isSpace b = false := by
  obtain ⟨hlow, hhigh⟩ := h
  simp only [isSpace, decide_eq_false_iff_not]
  omega

/-- No digit is a sign, an underscore, a line feed or a NUL. -/
theorem ne_of_isDigit {b : UInt8} (h : IsDigit b) : b ≠ 43 ∧ b ≠ 45 ∧ b ≠ 95 ∧ b ≠ 10 ∧ b ≠ 0 := by
  obtain ⟨hlow, hhigh⟩ := h
  refine ⟨?_, ?_, ?_, ?_, ?_⟩ <;>
  · rintro rfl
    simp at hlow hhigh

/-- Blanks after text that is free of them are stripped. -/
theorem rdropWhile_append {α : Type*} {p : α → Bool} {front back : List α}
    (hfront : ∀ a ∈ front, p a = false) (hback : ∀ a ∈ back, p a = true) :
    (front ++ back).rdropWhile p = front := by
  rw [List.rdropWhile, List.reverse_append,
    List.dropWhile_append_of_pos fun a ha => hback a (List.mem_reverse.mp ha)]
  have hself : front.reverse.dropWhile p = front.reverse := by
    cases hrev : front.reverse with
    | nil => rfl
    | cons a rest =>
      have ha : a ∈ front := List.mem_reverse.mp (hrev ▸ List.mem_cons_self)
      simp [hfront a ha]
  rw [hself, List.reverse_reverse]

/-- Nothing is dropped from a text whose front is to be kept. -/
theorem dropWhile_append_of_ne_nil {α : Type*} {p : α → Bool} {front : List α} (hne : front ≠ [])
    (hfront : ∀ a ∈ front, p a = false) (back : List α) :
    (front ++ back).dropWhile p = front ++ back := by
  cases front with
  | nil => exact absurd rfl hne
  | cons a rest =>
    have ha := hfront a List.mem_cons_self
    simp [ha]

/-- A line that holds digits is stripped to the digits. -/
theorem strip_digits {digits : List UInt8} (hne : digits ≠ []) (h : ∀ b ∈ digits, IsDigit b) :
    strip (digits ++ [10]) = digits := by
  have hfront : ∀ b ∈ digits, isSpace b = false := fun b hb => isSpace_of_isDigit (h b hb)
  rw [strip, dropWhile_append_of_ne_nil hne hfront,
    rdropWhile_append hfront fun b hb => by rw [List.mem_singleton.mp hb]; rfl]

/-- Digits in a row are read to their value; underscores do not come into it. -/
theorem readDigits_eq {digits : List UInt8} (h : ∀ b ∈ digits, IsDigit b) (value : ℕ)
    (afterDigit : Bool) (hne : digits ≠ [] ∨ afterDigit = true) :
    readDigits value afterDigit digits = some (valueFrom value digits) := by
  induction digits generalizing value afterDigit with
  | nil => simp [readDigits, valueFrom, hne.resolve_left (not_not.mpr rfl)]
  | cons b rest ih =>
    have hb := h b List.mem_cons_self
    have hrest := ih (fun c hc => h c (List.mem_cons_of_mem b hc)) (10 * value + digitValue b)
      true (Or.inr rfl)
    simp only [readDigits, if_neg (ne_of_isDigit hb).2.2.1, digit?_eq hb, hrest, valueFrom]

/-- The line with a number is read as the number. -/
theorem readInt_decimal (n : ℕ) : readInt (decimal n ++ [10]) = some (n : ℤ) := by
  have hdigits : ∀ b ∈ decimal n, IsDigit b := fun b => isDigit_of_mem_decimal
  have hread := readDigits_eq hdigits 0 false (Or.inl (decimal_ne_nil n))
  rw [value_decimal] at hread
  rw [readInt, strip_digits (decimal_ne_nil n) hdigits]
  cases hspell : decimal n with
  | nil => exact absurd hspell (decimal_ne_nil n)
  | cons b rest =>
    have hb := ne_of_isDigit (hdigits b (hspell ▸ List.mem_cons_self))
    simp only [if_neg hb.1, if_neg hb.2.1]
    rw [← hspell, hread]
    rfl

/-- The same value is read by a reader that stops at the first other byte. -/
theorem leadingNumber_eq {digits : List UInt8} (h : ∀ b ∈ digits, IsDigit b) (value : ℕ) :
    leadingNumber value digits = valueFrom value digits := by
  induction digits generalizing value with
  | nil => rfl
  | cons b rest ih =>
    have hb := h b List.mem_cons_self
    simp only [leadingNumber, digit?_eq hb, valueFrom]
    exact ih (fun c hc => h c (List.mem_cons_of_mem b hc)) _

/-- `atoi` reads back the number that was printed. -/
theorem atoi_decimal (n : ℕ) : atoi (decimal n) = n := by
  have hdigits : ∀ b ∈ decimal n, IsDigit b := fun b => isDigit_of_mem_decimal
  have hdrop : (decimal n).dropWhile isSpace = decimal n := by
    simpa using dropWhile_append_of_ne_nil (decimal_ne_nil n)
      (fun b hb => isSpace_of_isDigit (hdigits b hb)) []
  have hnumber := leadingNumber_eq hdigits 0
  rw [value_decimal] at hnumber
  rw [atoi, hdrop]
  cases hspell : decimal n with
  | nil => exact absurd hspell (decimal_ne_nil n)
  | cons b rest =>
    have hb := ne_of_isDigit (hdigits b (hspell ▸ List.mem_cons_self))
    simp only [if_neg hb.1, if_neg hb.2.1]
    rw [← hspell, hnumber]

/-! ## The digits as text -/

/-- The code point of an ASCII byte. -/
def asciiPoint (b : UInt8) : CodePoint :=
  ⟨b.toNat, Nat.lt_of_lt_of_le b.toNat_lt (by omega)⟩

/-- A byte below 128 is a character whose encoding is that byte. -/
theorem character_asciiPoint {b : UInt8} (h : b.toNat < 128) :
    ∃ c, character (asciiPoint b) = some c ∧ String.utf8EncodeChar c = [b] := by
  have hvalid : (asciiPoint b).val.isValidChar := Or.inl (by simp only [asciiPoint]; omega)
  refine ⟨Char.ofNatAux (asciiPoint b).val hvalid, by rw [character, dif_pos hvalid], ?_⟩
  have hval : (Char.ofNatAux (asciiPoint b).val hvalid).val.toNat = b.toNat := rfl
  generalize Char.ofNatAux (asciiPoint b).val hvalid = c at hval ⊢
  simp [String.utf8EncodeChar, hval, show b.toNat ≤ 127 by omega]

/-- ASCII bytes are decoded one by one. -/
theorem decodeUtf8_ascii {bytes : List UInt8} (h : ∀ b ∈ bytes, b.toNat < 128) :
    decodeUtf8 bytes = some (bytes.map asciiPoint) := by
  refine decodeUtf8_encodeUtf8 ?_
  induction bytes with
  | nil => rfl
  | cons b rest ih =>
    obtain ⟨c, hc, hbyte⟩ := character_asciiPoint (h b List.mem_cons_self)
    have hrest := ih fun d hd => h d (List.mem_cons_of_mem b hd)
    obtain ⟨chars, hchars, hspell⟩ := Option.bind_eq_some_iff.mp hrest
    simp only [Option.pure_def, Option.some.injEq] at hspell
    simp [encodeUtf8, hc, hchars, hbyte, hspell]

/-- A digit keeps its value as a character of a text. -/
theorem decimalValue?_asciiPoint {b : UInt8} (h : IsDigit b) :
    Words.decimalValue? (asciiPoint b) = some (digitValue b) := by
  have hvalue := digitValue_eq h
  unfold IsDigit at h
  simp [Words.decimalValue?, Words.decimalZeros, asciiPoint, h, hvalue]

/-- It is no blank there either. -/
theorem isSpace_asciiPoint {b : UInt8} (h : IsDigit b) : Words.isSpace (asciiPoint b) = false := by
  unfold IsDigit at h
  simp only [Words.isSpace, asciiPoint, List.mem_cons, List.not_mem_nil, or_false,
    decide_eq_false_iff_not]
  omega

/-- A text of digits is read to the value of its bytes. -/
theorem readDigits_asciiPoint {digits : List UInt8} (h : ∀ b ∈ digits, IsDigit b) (value : ℕ)
    (afterDigit : Bool) (hne : digits ≠ [] ∨ afterDigit = true) :
    Words.readDigits value afterDigit (digits.map asciiPoint) = some (valueFrom value digits) := by
  induction digits generalizing value afterDigit with
  | nil => simp [Words.readDigits, valueFrom, hne.resolve_left (not_not.mpr rfl)]
  | cons b rest ih =>
    have hb := h b List.mem_cons_self
    have hrest := ih (fun c hc => h c (List.mem_cons_of_mem b hc)) (10 * value + digitValue b)
      true (Or.inr rfl)
    have hunder : (asciiPoint b).val ≠ 95 := by
      unfold IsDigit at hb
      simp only [asciiPoint]
      omega
    simp only [List.map_cons, Words.readDigits, if_neg hunder, decimalValue?_asciiPoint hb, hrest,
      valueFrom]

/-- The decoded line with a number holds the number and no blank but the line feed. -/
theorem readInt_asciiPoint (n : ℕ) :
    Words.strip ((decimal n ++ [10]).map asciiPoint) = (decimal n).map asciiPoint ∧
      Words.readInt ((decimal n ++ [10]).map asciiPoint) = some (n : ℤ) := by
  have hdigits : ∀ b ∈ decimal n, IsDigit b := fun b => isDigit_of_mem_decimal
  have hfront : ∀ c ∈ (decimal n).map asciiPoint, Words.isSpace c = false := by
    intro c hc
    obtain ⟨b, hb, rfl⟩ := List.mem_map.mp hc
    exact isSpace_asciiPoint (hdigits b hb)
  have hne : (decimal n).map asciiPoint ≠ [] := by
    rw [ne_eq, List.map_eq_nil_iff]
    exact decimal_ne_nil n
  have hstrip : Words.strip ((decimal n ++ [10]).map asciiPoint) = (decimal n).map asciiPoint := by
    rw [List.map_append, Words.strip, dropWhile_append_of_ne_nil hne hfront]
    refine rdropWhile_append hfront fun c hc => ?_
    rw [List.map_singleton, List.mem_singleton] at hc
    rw [hc]
    rfl
  refine ⟨hstrip, ?_⟩
  have hread := readDigits_asciiPoint hdigits 0 false (Or.inl (decimal_ne_nil n))
  rw [value_decimal] at hread
  rw [Words.readInt, hstrip]
  cases hspell : decimal n with
  | nil => exact absurd hspell (decimal_ne_nil n)
  | cons b rest =>
    have hb := hdigits b (hspell ▸ List.mem_cons_self)
    unfold IsDigit at hb
    have hplus : (asciiPoint b).val ≠ 43 := by simp only [asciiPoint]; omega
    have hminus : (asciiPoint b).val ≠ 45 := by simp only [asciiPoint]; omega
    simp only [List.map_cons, if_neg hplus, if_neg hminus]
    rw [← List.map_cons, ← hspell, hread]
    rfl

end OpenDiamond.Lib.Decimal
