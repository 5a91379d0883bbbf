import Mathlib.Algebra.Order.Ring.Nat
import Mathlib.Data.Int.Order.Basic

/-!
# The order of IEEE-754 doubles

A double is kept as its 64 bits: one sign bit over the exponent and the
fraction. The magnitude bits of two numbers compare like the numbers, both
zeros have rank zero, and a NaN is neither below nor above anything, itself
included.
-/

namespace OpenDiamond.Lib.Binary64

/-- An IEEE-754 binary64 value as its bit pattern. -/
structure Double where
  /-- Sign, exponent and fraction, most significant first. -/
  bits : UInt64
  deriving DecidableEq

namespace Double

/-- The bits below the sign. -/
def magnitude (d : Double) : ℕ := d.bits.toNat % 2 ^ 63

/-- All exponent bits are set and the fraction is not zero. -/
def isNaN (d : Double) : Bool := decide (0x7ff0000000000000 < d.magnitude)

/-- Position of a number on the line; signed magnitude. -/
def rank (d : Double) : ℤ := if 2 ^ 63 ≤ d.bits.toNat then -(d.magnitude : ℤ) else d.magnitude

/-- The comparison of the hardware and of Python: false on a NaN. -/
def le (a b : Double) : Bool := !a.isNaN && !b.isNaN && decide (a.rank ≤ b.rank)

/-- Positive zero. -/
def zero : Double := ⟨0⟩

/-- The number one. -/
def one : Double := ⟨0x3ff0000000000000⟩

/-- A quiet NaN. -/
def nan : Double := ⟨0x7ff8000000000000⟩

theorem le_iff (a b : Double) :
    a.le b = true ↔ a.isNaN = false ∧ b.isNaN = false ∧ a.rank ≤ b.rank := by
  simp [le, and_assoc]

theorem le_trans {a b c : Double} (hab : a.le b = true) (hbc : b.le c = true) :
    a.le c = true := by
  rw [le_iff] at *
  exact ⟨hab.1, hbc.2.1, Int.le_trans hab.2.2 hbc.2.2⟩

/-- Whatever is below something is a number, hence below itself. -/
theorem le_self_of_le {a b : Double} (h : a.le b = true) : a.le a = true := by
  rw [le_iff] at *
  exact ⟨h.1, h.1, Int.le_refl _⟩

theorem le_nan (a : Double) : a.le nan = false := by
  have hn : nan.isNaN = true := by decide
  simp [le, hn]

end Double

end OpenDiamond.Lib.Binary64
