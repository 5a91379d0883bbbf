import OpenDiamond.Lib.Traversal

/-!
# Strings of code points and their UTF-8 spelling

A string is a list of code points, among them the surrogates, which have no UTF-8
spelling. Strict encoding fails on them, strict decoding never produces them.
-/

namespace OpenDiamond.Lib.Unicode

open Traversal

/-- A Unicode code point, a surrogate included. -/
abbrev CodePoint := Fin 0x110000

instance neZero_codePoints : @NeZero ℕ Zero.ofOfNat0 0x110000 := ⟨Nat.succ_ne_zero 0x10ffff⟩

instance lawfulBEq_codePoint : LawfulBEq CodePoint := inferInstance

/-- A string as a sequence of code points. -/
abbrev Text := List CodePoint

instance lawfulBEq_text : LawfulBEq Text := inferInstance

/-- The code point of a character. -/
def codePoint (c : Char) : CodePoint := ⟨c.toNat, by
  rcases c.valid with h | ⟨_, h⟩ <;> simp only [Char.toNat, UInt32.toNat] at * <;> omega⟩

/-- The character of a code point that is not a surrogate. -/
def character (point : CodePoint) : Option Char :=
  if h : point.val.isValidChar then some (Char.ofNatAux point.val h) else none

/-- The code points of a string of characters. -/
def ofString (text : String) : Text := text.toList.map codePoint

theorem codePoint_injective : Function.Injective codePoint := by
  intro c d h
  have hvalue : (codePoint c).val = (codePoint d).val := by rw [h]
  exact Char.ext (UInt32.toNat_inj.mp hvalue)

theorem ofString_injective : Function.Injective ofString := by
  intro text text' h
  have hlist := List.map_injective_iff.mpr codePoint_injective h
  exact String.toList_inj.mp hlist

/-- Strict encoding. -/
def encodeUtf8 (text : Text) : Option (List UInt8) := do
  let chars ← text.mapM character
  return chars.flatMap String.utf8EncodeChar

/-- Strict decoding. -/
def decodeUtf8 (bytes : List UInt8) : Option Text :=
  (ByteArray.utf8Decode? ⟨bytes.toArray⟩).map fun chars => chars.toList.map codePoint

/-- A code point below the surrogates is a character. -/
theorem isSome_character_of_lt {point : CodePoint} (h : point.val < 0xd800) :
    (character point).isSome := by
  have hvalid : point.val.isValidChar := Or.inl h
  rw [character, dif_pos hvalid, Option.isSome_some]

/-- Strict encoding succeeds exactly on texts without surrogates. -/
theorem isSome_encodeUtf8_iff {text : Text} :
    (encodeUtf8 text).isSome ↔ ∀ point ∈ text, (character point).isSome := by
  rw [← isSome_mapM_iff, encodeUtf8]
  cases text.mapM character <;> simp

theorem codePoint_of_character {point : CodePoint} {c : Char} (h : character point = some c) :
    codePoint c = point := by
  unfold character at h
  by_cases hvalid : point.val.isValidChar
  · rw [dif_pos hvalid, Option.some.injEq] at h
    subst h
    rfl
  · rw [dif_neg hvalid] at h
    cases h

theorem map_codePoint_of_mapM {text : Text} {chars : List Char}
    (h : text.mapM character = some chars) : chars.map codePoint = text := by
  have hpairs := forall₂_of_mapM_some h
  clear h
  induction hpairs with
  | nil => rfl
  | cons hfirst _ ih => rw [List.map_cons, codePoint_of_character hfirst, ih]

/-- Texts are encoded one after the other. -/
theorem encodeUtf8_append {text rest : Text} {bytes more : List UInt8}
    (h : encodeUtf8 text = some bytes) (hrest : encodeUtf8 rest = some more) :
    encodeUtf8 (text ++ rest) = some (bytes ++ more) := by
  obtain ⟨chars, hchars, heq⟩ := Option.bind_eq_some_iff.mp h
  obtain ⟨others, hothers, heq'⟩ := Option.bind_eq_some_iff.mp hrest
  cases heq
  cases heq'
  simp [encodeUtf8, List.mapM_append, hchars, hothers]

/-- A code point of ASCII is its own byte, the others have no bytes of ASCII. -/
theorem mem_utf8EncodeChar {c : Char} {b : UInt8} (h : b ∈ String.utf8EncodeChar c) :
    (c.toNat < 128 ∧ b.toNat = c.toNat) ∨ 128 ≤ b.toNat := by
  have hc : c.val.toNat = c.toNat := rfl
  unfold String.utf8EncodeChar at h
  dsimp only at h
  split at h
  · left
    rw [List.mem_singleton] at h
    rw [h, UInt8.toNat_ofNat']
    omega
  · right
    split at h
    · simp only [List.mem_cons, List.not_mem_nil, or_false] at h
      rcases h with rfl | rfl <;> rw [UInt8.toNat_ofNat'] <;> omega
    · split at h
      · simp only [List.mem_cons, List.not_mem_nil, or_false] at h
        rcases h with rfl | rfl | rfl <;> rw [UInt8.toNat_ofNat'] <;> omega
      · simp only [List.mem_cons, List.not_mem_nil, or_false] at h
        rcases h with rfl | rfl | rfl | rfl <;> rw [UInt8.toNat_ofNat'] <;> omega

/-- The bytes of a text stand for its code points of ASCII, or for none. -/
theorem mem_encodeUtf8 {text : Text} {bytes : List UInt8} (h : encodeUtf8 text = some bytes)
    {b : UInt8} (hb : b ∈ bytes) : (∃ c ∈ text, c.val = b.toNat) ∨ 128 ≤ b.toNat := by
  obtain ⟨chars, hchars, heq⟩ := Option.bind_eq_some_iff.mp h
  cases heq
  obtain ⟨c, hc, hb⟩ := List.mem_flatMap.mp hb
  rcases mem_utf8EncodeChar hb with ⟨-, hval⟩ | hlarge
  · left
    refine ⟨codePoint c, ?_, hval.symm⟩
    rw [← map_codePoint_of_mapM hchars]
    exact List.mem_map_of_mem hc
  · exact Or.inr hlarge

theorem encodeUtf8_singleton {point : CodePoint} (h : point.val < 128) :
    encodeUtf8 [point] = some [UInt8.ofNat point.val] := by
  obtain ⟨c, hc⟩ := Option.isSome_iff_exists.mp (isSome_character_of_lt (by omega : point.val < _))
  have hval : c.val.toNat = point.val := congrArg Fin.val (codePoint_of_character hc)
  have hbytes : String.utf8EncodeChar c = [UInt8.ofNat point.val] := by
    rw [String.utf8EncodeChar, hval]
    exact if_pos (by omega)
  simp [encodeUtf8, hc, hbytes]

/-- What strict encoding wrote is decoded to the same text. -/
theorem decodeUtf8_encodeUtf8 {text : Text} {bytes : List UInt8}
    (h : encodeUtf8 text = some bytes) : decodeUtf8 bytes = some text := by
  obtain ⟨chars, hchars, h⟩ := Option.bind_eq_some_iff.mp h
  cases h
  have hbytes : (⟨(chars.flatMap String.utf8EncodeChar).toArray⟩ : ByteArray) =
      chars.utf8Encode := by
    simp [List.utf8Encode, ByteArray.ext_iff]
  rw [decodeUtf8, hbytes, List.utf8Decode?_utf8Encode, Option.map_some,
    map_codePoint_of_mapM hchars]

end OpenDiamond.Lib.Unicode
