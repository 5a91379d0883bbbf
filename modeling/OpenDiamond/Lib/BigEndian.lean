import Mathlib.Data.Nat.Init
import Mathlib.Tactic.Positivity
import Mathlib.Tactic.Ring

/-!
# Fixed-width big-endian numbers

A number is written as a given number of bytes, the most significant first. Bytes
that do not fit are dropped, so reading back gives the number modulo the width.
Signed numbers use two's complement.
-/

namespace OpenDiamond.Lib.BigEndian

/-- The low `width` bytes of a number, the most significant first. -/
def toBytes : ℕ → ℕ → List UInt8
  | 0, _ => []
  | width + 1, value => UInt8.ofNat (value / 256 ^ width) :: toBytes width value

/-- The number that a list of bytes spells, the most significant first. -/
def ofBytes : List UInt8 → ℕ
  | [] => 0
  | byte :: rest => byte.toNat * 256 ^ rest.length + ofBytes rest

@[simp] theorem toBytes_length (width value : ℕ) : (toBytes width value).length = width := by
  induction width with
  | zero => rfl
  | succ width ih => rw [toBytes, List.length_cons, ih]

/-- Reading back gives the number modulo what the width can hold. -/
theorem ofBytes_toBytes (width value : ℕ) :
    ofBytes (toBytes width value) = value % 256 ^ width := by
  induction width with
  | zero => rw [toBytes, ofBytes, Nat.pow_zero, Nat.mod_one]
  | succ width ih =>
    rw [toBytes, ofBytes, ih, toBytes_length, Nat.mod_pow_succ, UInt8.toNat_ofNat']
    ring

/-- A number that fits its width is read back unchanged. -/
theorem ofBytes_toBytes_of_lt {width value : ℕ} (h : value < 256 ^ width) :
    ofBytes (toBytes width value) = value := by
  rw [ofBytes_toBytes, Nat.mod_eq_of_lt h]

/-- The unsigned number with the same `bits` low bits as a signed one. -/
def unsigned (bits : ℕ) (value : ℤ) : ℕ := (value % 2 ^ bits).toNat

/-- The two's complement reading of an unsigned number of `bits` bits. -/
def signed (bits : ℕ) (value : ℕ) : ℤ :=
  if value < 2 ^ (bits - 1) then value else value - 2 ^ bits

theorem unsigned_lt (bits : ℕ) (value : ℤ) : unsigned bits value < 2 ^ bits := by
  have hpos : (0 : ℤ) < 2 ^ bits := by positivity
  have hlt := Int.emod_lt_of_pos value hpos
  have hnonneg := Int.emod_nonneg value hpos.ne'
  have hcast : ((unsigned bits value : ℕ) : ℤ) < ((2 ^ bits : ℕ) : ℤ) := by
    rw [unsigned, Int.toNat_of_nonneg hnonneg]
    simpa using hlt
  exact Int.ofNat_lt.mp hcast

/-- A signed number that fits its width survives two's complement. -/
theorem signed_unsigned {bits : ℕ} {value : ℤ} (hlow : -2 ^ bits ≤ value)
    (hhigh : value < 2 ^ bits) : signed (bits + 1) (unsigned (bits + 1) value) = value := by
  have hpow : (2 : ℤ) ^ (bits + 1) = 2 * 2 ^ bits := by ring
  have hcast : ((2 ^ bits : ℕ) : ℤ) = 2 ^ bits := by simp
  unfold signed unsigned
  rw [Nat.add_sub_cancel]
  by_cases hneg : value < 0
  · have hmod : value % 2 ^ (bits + 1) = value + 2 ^ (bits + 1) := by
      rw [← Int.add_emod_right]
      exact Int.emod_eq_of_lt (by omega) (by omega)
    rw [hmod, if_neg (by omega), Int.toNat_of_nonneg (by omega)]
    ring
  · have hmod : value % 2 ^ (bits + 1) = value :=
      Int.emod_eq_of_lt (by omega) (by omega)
    rw [hmod, if_pos (by omega), Int.toNat_of_nonneg (by omega)]

end OpenDiamond.Lib.BigEndian
