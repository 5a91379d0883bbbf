import Mathlib.Algebra.Order.Archimedean.Basic
import Mathlib.Data.Nat.Bitwise
import Mathlib.Data.Rat.Floor
import Mathlib.Tactic.Positivity
import Mathlib.Tactic.Ring

/-!
# Repeated halving with rounding

Items are grouped by powers of two, the last group perhaps not full; a length that is halved as
often is rounded down. Tiles of a fixed size cover a length when the last one is cut off.
-/

namespace OpenDiamond.Lib.Halving

/-- How many groups of `2 ^ i` items there are. -/
def groups (n i : ℕ) : ℕ := ⌈(n : ℚ) / 2 ^ i⌉₊

theorem lt_ceil_div_iff {c n d : ℕ} (hd : 0 < d) : c < ⌈(n : ℚ) / d⌉₊ ↔ c * d < n := by
  have hd' : (0 : ℚ) < d := by exact_mod_cast hd
  rw [Nat.lt_ceil, lt_div_iff₀ hd']
  exact_mod_cast Iff.rfl

/-- A group begins at one of the items. -/
theorem lt_groups_iff {c n i : ℕ} : c < groups n i ↔ c * 2 ^ i < n := by
  have h := lt_ceil_div_iff (c := c) (n := n) (Nat.two_pow_pos i)
  rwa [Nat.cast_pow, Nat.cast_ofNat] at h

@[simp] theorem groups_zero (n : ℕ) : groups n 0 = n := by
  rw [groups, pow_zero, div_one, Nat.ceil_natCast]

/-- No more groups than powers of two are left. -/
theorem lt_two_pow_of_lt_groups {c n i levels : ℕ} (hn : n ≤ 2 ^ (levels + i))
    (h : c < groups n i) : c < 2 ^ levels := by
  have hc := (lt_groups_iff.mp h).trans_le hn
  rw [pow_add] at hc
  exact Nat.lt_of_mul_lt_mul_right hc

/-- The first half of a group is a group. -/
theorem two_mul_lt_groups {c n i : ℕ} (h : c < groups n (i + 1)) : 2 * c < groups n i := by
  have hc := lt_groups_iff.mp h
  rw [lt_groups_iff]
  calc 2 * c * 2 ^ i = c * 2 ^ (i + 1) := by rw [pow_succ]; ring
    _ < n := hc

/-! ## Tiles over a length -/

/-- The part of a tile that lies in the length; not positive when the tile lies beyond it. -/
def inside (size length c : ℕ) : ℤ :=
  if length < (c + 1) * size then (size : ℤ) - ((c + 1) * size - length : ℤ) else size

theorem inside_le (size length c : ℕ) : inside size length c ≤ size := by
  unfold inside
  split
  · rename_i h
    have h' : (length : ℤ) < (c + 1) * size := by exact_mod_cast h
    omega
  · exact le_rfl

theorem inside_pos_iff {size length c : ℕ} (hsize : 0 < size) :
    1 ≤ inside size length c ↔ c * size < length := by
  unfold inside
  split
  · have hsplit : ((c : ℤ) + 1) * size = c * size + size := by ring
    constructor
    · intro h
      have h' : ((c * size : ℕ) : ℤ) < length := by push_cast; omega
      exact_mod_cast h'
    · intro h
      have h' : ((c * size : ℕ) : ℤ) < length := by exact_mod_cast h
      push_cast at h'
      omega
  · rename_i h
    have hsplit : (c + 1) * size = c * size + size := by ring
    omega

/-- Tiles that do not reach beyond the length are whole. -/
theorem sum_inside_of_le {size length n : ℕ} (h : n * size ≤ length) :
    ((List.range n).map (inside size length)).sum = n * size := by
  induction n with
  | zero => simp
  | succ n ih =>
    have hsplit : (n + 1) * size = n * size + size := by ring
    have hwhole : inside size length n = size := if_neg (by omega)
    rw [List.range_succ, List.map_append, List.sum_append, ih (by omega), List.map_singleton,
      List.sum_singleton, hwhole]
    push_cast
    ring

/-- The tiles up to the end of the length add up to it, also when the last of them is empty. -/
theorem sum_inside {size length n : ℕ} (hlow : n * size ≤ length)
    (hhigh : length ≤ (n + 1) * size) :
    ((List.range (n + 1)).map (inside size length)).sum = length := by
  rw [List.range_succ, List.map_append, List.sum_append, sum_inside_of_le hlow, List.map_singleton,
    List.sum_singleton, inside]
  split
  · ring
  · have heq : length = (n + 1) * size := by omega
    rw [heq]
    push_cast
    ring

/-- The tiles of a length, grouped by `2 ^ i`, all reach into the length halved `i` times and
rounded down: the remainder of the last group is none or makes up a unit. -/
theorem forall_inside_pos_iff {size n i : ℕ} (hsize : 0 < size) :
    (∀ c, c * (size * 2 ^ i) < n → 1 ≤ inside size (n / 2 ^ i) c) ↔
      n % (size * 2 ^ i) = 0 ∨ 2 ^ i ≤ n % (size * 2 ^ i) := by
  have hpow := Nat.two_pow_pos i
  have hgroup : 2 ^ i ≤ size * 2 ^ i := Nat.le_mul_of_pos_left _ hsize
  have hsplit := Nat.div_add_mod n (size * 2 ^ i)
  have hlt := Nat.mod_lt n (Nat.mul_pos hsize hpow)
  have hinside : ∀ c, 1 ≤ inside size (n / 2 ^ i) c ↔ c * (size * 2 ^ i) + 2 ^ i ≤ n := by
    intro c
    rw [inside_pos_iff hsize, ← Nat.succ_le_iff, Nat.le_div_iff_mul_le hpow, Nat.succ_mul, mul_assoc]
  generalize n % (size * 2 ^ i) = r at *
  generalize n / (size * 2 ^ i) = q at *
  rw [mul_comm] at hsplit
  constructor
  · intro h
    by_cases hr : r = 0
    · exact Or.inl hr
    · have hlast := (hinside q).mp (h q (by omega))
      exact Or.inr (by omega)
  · intro h c hc
    rw [hinside]
    rcases Nat.lt_or_ge c q with hcq | hcq
    · have hnext : (c + 1) * (size * 2 ^ i) ≤ q * (size * 2 ^ i) := Nat.mul_le_mul_right _ hcq
      rw [Nat.succ_mul] at hnext
      omega
    · have hle : q * (size * 2 ^ i) ≤ c * (size * 2 ^ i) := Nat.mul_le_mul_right _ hcq
      have hcr : c = q := by
        by_contra hne
        have hnext : (q + 1) * (size * 2 ^ i) ≤ c * (size * 2 ^ i) :=
          Nat.mul_le_mul_right _ (by omega)
        rw [Nat.succ_mul] at hnext
        omega
      subst hcr
      omega

end OpenDiamond.Lib.Halving
