import OpenDiamond.Lib.BigEndian
import OpenDiamond.Lib.Records

/-!
# The codec for lists of patches

A header of twelve bytes holds the number of patches and the distance, and every patch has sixteen
bytes. The numbers are little-endian.
-/

namespace OpenDiamond.PatchesCodec

open Lib.BigEndian Lib.Records

/-! ## The program -/

/-- A double as its eight bytes. -/
abbrev Distance := Exact 8 UInt8

/-- A patch. -/
structure Patch where
  /-- `upper_left_coord`. -/
  upperLeft : ℤ × ℤ
  /-- `lower_right_coord`. -/
  lowerRight : ℤ × ℤ
  deriving DecidableEq

/-- The signed 32-bit range. -/
def InRange (value : ℤ) : Prop := -2 ^ 31 ≤ value ∧ value < 2 ^ 31

instance (value : ℤ) : Decidable (InRange value) := inferInstanceAs (Decidable (_ ∧ _))

/-- The bytes of a signed number, the least significant first. -/
def packedInt (value : ℤ) : Exact 4 UInt8 :=
  ⟨(toBytes 4 (unsigned 32 value)).reverse, by rw [List.length_reverse, toBytes_length]⟩

/-- The signed number that four bytes spell. -/
def unpackInt (bytes : List UInt8) : ℤ := signed 32 (ofBytes bytes.reverse)

/-- `struct.pack` of a number, `none` for `struct.error`. -/
def packInt (value : ℤ) : Option (Exact 4 UInt8) :=
  if InRange value then some (packedInt value) else none

/-- `struct.pack('<id', count, distance)`. -/
def packHeader (count : ℤ) (distance : Distance) : Option (Exact 12 UInt8) := do
  let count ← packInt count
  return ⟨count.1 ++ distance.1, by rw [List.length_append, count.2, distance.2]⟩

/-- `struct.pack('<iiii', a[0], a[1], b[0], b[1])`. -/
def packPatch (patch : Patch) : Option (Exact 16 UInt8) := do
  let x0 ← packInt patch.upperLeft.1
  let y0 ← packInt patch.upperLeft.2
  let x1 ← packInt patch.lowerRight.1
  let y1 ← packInt patch.lowerRight.2
  return ⟨x0.1 ++ y0.1 ++ x1.1 ++ y1.1, by
    rw [List.length_append, List.length_append, List.length_append, x0.2, y0.2, x1.2, y1.2]⟩

/-- `PatchesAttributeCodec.encode`, `none` for `struct.error`. -/
def encode (item : Distance × List Patch) : Option (List UInt8) := do
  let header ← packHeader item.2.length item.1
  let pieces ← item.2.mapM packPatch
  return header.1 ++ join pieces

/-- `struct.unpack('<id', data)`. -/
def unpackHeader (bytes : Exact 12 UInt8) : ℤ × Distance :=
  (unpackInt (bytes.1.take 4), ⟨bytes.1.drop 4, by rw [List.length_drop, bytes.2]⟩)

/-- `struct.unpack('<iiii', data)`, as a patch. -/
def unpackPatch (bytes : Exact 16 UInt8) : Patch where
  upperLeft := (unpackInt (bytes.1.take 4), unpackInt ((bytes.1.drop 4).take 4))
  lowerRight := (unpackInt ((bytes.1.drop 8).take 4), unpackInt ((bytes.1.drop 12).take 4))

/-- `PatchesAttributeCodec.decode`, `none` for `struct.error`. A negative count is an empty range. -/
def decode (data : List UInt8) : Option (Distance × List Patch) := do
  let (data, count, distance) ← parse unpackHeader data
  let patches ← parseMany unpackPatch count.toNat data
  return (distance, patches)

/-! ## One number, one patch -/

theorem unpackInt_packedInt {value : ℤ} (h : InRange value) :
    unpackInt (packedInt value).1 = value := by
  have hlt : unsigned 32 value < 256 ^ 4 := unsigned_lt 32 value
  unfold unpackInt packedInt
  rw [List.reverse_reverse, ofBytes_toBytes_of_lt hlt]
  exact signed_unsigned h.1 h.2

theorem packInt_eq {value : ℤ} (h : InRange value) : packInt value = some (packedInt value) :=
  if_pos h

/-- Coordinates in the signed 32-bit range. -/
structure Patch.InRange (patch : Patch) : Prop where
  /-- `x0`. -/
  left : PatchesCodec.InRange patch.upperLeft.1
  /-- `y0`. -/
  upper : PatchesCodec.InRange patch.upperLeft.2
  /-- `x1`. -/
  right : PatchesCodec.InRange patch.lowerRight.1
  /-- `y1`. -/
  lower : PatchesCodec.InRange patch.lowerRight.2

theorem take_packed {value : ℤ} (rest : List UInt8) :
    ((packedInt value).1 ++ rest).take 4 = (packedInt value).1 :=
  List.take_left' (packedInt value).2

theorem drop_packed {value : ℤ} (rest : List UInt8) (n : ℕ) :
    ((packedInt value).1 ++ rest).drop (4 + n) = rest.drop n := by
  rw [← List.drop_drop, List.drop_left' (packedInt value).2]

/-- A header is read back. -/
theorem exists_packHeader {count : ℤ} (h : InRange count) (distance : Distance) :
    ∃ header, packHeader count distance = some header ∧
      unpackHeader header = (count, distance) := by
  refine ⟨_, by rw [packHeader, packInt_eq h]; rfl, ?_⟩
  unfold unpackHeader
  simp only [take_packed, unpackInt_packedInt h]
  exact congrArg (Prod.mk count) (Subtype.ext (List.drop_left' (packedInt count).2))

/-- A patch is read back. -/
theorem exists_packPatch {patch : Patch} (h : patch.InRange) :
    ∃ piece, packPatch patch = some piece ∧ unpackPatch piece = patch := by
  refine ⟨_, by rw [packPatch, packInt_eq h.left, packInt_eq h.upper, packInt_eq h.right,
    packInt_eq h.lower]; rfl, ?_⟩
  have hfirst : ∀ {value : ℤ} (rest : List UInt8), ((packedInt value).1 ++ rest).drop 4 = rest :=
    fun rest => drop_packed rest 0
  have hsecond : ∀ {value : ℤ} (rest : List UInt8),
      ((packedInt value).1 ++ rest).drop 8 = rest.drop 4 := fun rest => drop_packed rest 4
  have hthird : ∀ {value : ℤ} (rest : List UInt8),
      ((packedInt value).1 ++ rest).drop 12 = rest.drop 8 := fun rest => drop_packed rest 8
  have hwhole : ∀ value : ℤ, (packedInt value).1.take 4 = (packedInt value).1 := fun value =>
    List.take_of_length_le (packedInt value).2.le
  unfold unpackPatch
  simp only [List.append_assoc, hthird, hsecond, hfirst, take_packed, hwhole,
    unpackInt_packedInt h.left, unpackInt_packedInt h.upper, unpackInt_packedInt h.right,
    unpackInt_packedInt h.lower]

/-- All patches are packed and read back. -/
theorem exists_mapM_packPatch {patches : List Patch} (h : ∀ patch ∈ patches, patch.InRange) :
    ∃ pieces, patches.mapM packPatch = some pieces ∧ pieces.map unpackPatch = patches := by
  induction patches with
  | nil => exact ⟨[], rfl, rfl⟩
  | cons patch rest ih =>
    obtain ⟨piece, hpiece, hpatch⟩ := exists_packPatch (h patch List.mem_cons_self)
    obtain ⟨pieces, hpieces, hrest⟩ := ih fun other hother => h other (List.mem_cons_of_mem _ hother)
    refine ⟨piece :: pieces, ?_, by rw [List.map_cons, hpatch, hrest]⟩
    rw [List.mapM_cons, hpiece, hpieces]
    rfl

/-! ## Lists of patches -/

/-- Patches are decoded as they were encoded, for every distance and any number of patches within
the 32 bits of their fields; and no proper prefix of the encoding is decoded. -/
theorem decode_encode (distance : Distance) {patches : List Patch}
    (hcount : patches.length < 2 ^ 31) (hpatches : ∀ patch ∈ patches, patch.InRange) :
    ∃ data, encode (distance, patches) = some data ∧ decode data = some (distance, patches) ∧
      ∀ cut, cut <+: data → cut ≠ data → decode cut = none := by
  have hrange : InRange (patches.length : ℤ) := ⟨by omega, by omega⟩
  obtain ⟨header, hheader, hunpack⟩ := exists_packHeader hrange distance
  obtain ⟨pieces, hpieces, hmap⟩ := exists_mapM_packPatch hpatches
  have hlength : pieces.length = patches.length := by rw [← hmap, List.length_map]
  refine ⟨header.1 ++ join pieces, ?_, ?_, fun cut hcut hne => ?_⟩
  · unfold encode
    simp only [hheader, hpieces, Option.bind_eq_bind, Option.bind_some]
    rfl
  · have hmany := parseMany_join unpackPatch pieces []
    rw [List.append_nil, hlength, hmap] at hmany
    unfold decode
    rw [parse_append, hunpack]
    simp only [Option.bind_eq_bind, Option.bind_some, Int.toNat_natCast, hmany]
    rfl
  · have hless := hcut.length_le
    have hproper : cut.length ≠ (header.1 ++ join pieces).length := fun heq =>
      hne (hcut.eq_of_length heq)
    rw [List.length_append, header.2, length_join] at hless hproper
    unfold decode
    by_cases hshort : cut.length < 12
    · rw [parse_eq_none unpackHeader hshort]
      rfl
    -- the header is whole, so the count is that of all patches
    · obtain ⟨rest, rfl⟩ : header.1 <+: cut :=
        List.prefix_of_prefix_length_le (List.prefix_append _ _) hcut (by rw [header.2]; omega)
      rw [List.length_append, header.2] at hless hproper
      have hnone : parseMany unpackPatch patches.length rest = none :=
        parseMany_eq_none unpackPatch (by omega)
      rw [parse_append, hunpack]
      simp only [Option.bind_eq_bind, Option.bind_some, Int.toNat_natCast, hnone, Option.bind_none]

/-- No patches at distance 1.0. -/
example : encode (⟨[0, 0, 0, 0, 0, 0, 0xf0, 0x3f], rfl⟩, []) =
    some [0, 0, 0, 0, 0, 0, 0, 0, 0, 0, 0xf0, 0x3f] := by decide

/-- Two patches, one that begins left of the image and one without an area. -/
def samplePatches : List Patch := [⟨(-1, 2), (300, 2 ^ 31 - 1)⟩, ⟨(-2 ^ 31, 0), (-2 ^ 31, 0)⟩]

/-- Two patches, one with a negative corner and one without an area, are read back, and no shorter
data is. -/
theorem decode_encode_samplePatches :
    ∃ data, encode (⟨List.replicate 8 0, rfl⟩, samplePatches) = some data ∧
      decode data = some (⟨List.replicate 8 0, rfl⟩, samplePatches) ∧
      ∀ cut, cut <+: data → cut ≠ data → decode cut = none :=
  decode_encode ⟨List.replicate 8 0, rfl⟩ (by decide) fun patch hpatch => by
    rcases List.mem_pair.mp hpatch with rfl | rfl
    · exact ⟨by decide, by decide, by decide, by decide⟩
    · exact ⟨by decide, by decide, by decide, by decide⟩

end OpenDiamond.PatchesCodec
