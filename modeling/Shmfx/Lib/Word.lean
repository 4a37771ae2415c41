import Mathlib.Algebra.Order.Ring.Int
import Mathlib.Data.Nat.Basic
import Mathlib.Tactic.Common

/-! Fixed-width unsigned arithmetic on naturals, with the wrap written at each operation. -/
namespace Word

/-- Narrowing to 32 bits. -/
def u32 (n : Nat) : Nat := n % 2 ^ 32

/-- Reduction to 64 bits. -/
def u64 (n : Nat) : Nat := n % 2 ^ 64

/-- The signed reading of a 64-bit word. -/
def toInt64 (n : Nat) : Int := if n < 2 ^ 63 then n else n - 2 ^ 64

/-- Two's complement difference of two 64-bit words. -/
def diff64 (a b : Nat) : Int := toInt64 ((a + 2 ^ 64 - b) % 2 ^ 64)

/-- `(value + alignment - 1) & ~(alignment - 1)` on 64-bit words. -/
def alignUp (value alignment : Nat) : Nat :=
  u64 (value + alignment - 1) &&& (2 ^ 64 - alignment)

theorem u64_lt (n : Nat) : u64 n < 2 ^ 64 := Nat.mod_lt _ (by decide)

theorem u64_of_lt {n : Nat} (h : n < 2 ^ 64) : u64 n = n := Nat.mod_eq_of_lt h

theorem diff64_eq_zero {a b : Nat} (ha : a < 2 ^ 64) (hb : b < 2 ^ 64) :
    diff64 a b = 0 ↔ a = b := by
  unfold diff64 toInt64
  split <;> omega

/-- The difference has the sign of the true one while the words are less than half the range
apart. -/
theorem diff64_neg {a b : Nat} (ha : a < b + 2 ^ 63) (hb : b < a + 2 ^ 63) :
    diff64 a b < 0 ↔ a < b := by
  unfold diff64 toInt64
  split <;> omega

/-- The difference of two wrapped counters follows the counters themselves. -/
theorem diff64_u64_neg {a b : Nat} (hab : a < b) (hb : b ≤ a + 2 ^ 63) :
    diff64 (u64 a) (u64 b) < 0 := by
  have h : 2 ^ 63 ≤ (u64 a + 2 ^ 64 - u64 b) % 2 ^ 64 := by
    simp only [u64]; omega
  simp only [diff64, toInt64, Nat.not_lt.mpr h, if_false]
  omega

theorem diff64_u64_pos {a b : Nat} (hab : b < a) (ha : a < b + 2 ^ 63) :
    0 < diff64 (u64 a) (u64 b) := by
  have h : (u64 a + 2 ^ 64 - u64 b) % 2 ^ 64 = a - b := by
    simp only [u64]; omega
  have hlt : a - b < 2 ^ 63 := by omega
  simp only [diff64, toInt64, h, hlt, if_true]
  omega

/-- Masking with the complement of a power of two clears the low bits. -/
theorem and_two_pow_sub {x k : Nat} (hk : k ≤ 64) (hx : x < 2 ^ 64) :
    x &&& (2 ^ 64 - 2 ^ k) = x / 2 ^ k * 2 ^ k := by
  apply Nat.eq_of_testBit_eq
  intro i
  have hpos := Nat.two_pow_pos k
  have hle := Nat.pow_le_pow_right (show 0 < 2 by decide) hk
  have hmask : 2 ^ 64 - 2 ^ k = 2 ^ 64 - ((2 ^ k - 1) + 1) := by omega
  rw [Nat.testBit_and, hmask, Nat.testBit_two_pow_sub_succ (by omega), Nat.testBit_two_pow_sub_one,
    Nat.testBit_mul_two_pow, Nat.testBit_div_two_pow]
  by_cases hki : k ≤ i
  · by_cases hi : i < 64
    · simp [hi, hki, Nat.not_lt.mpr hki, Nat.sub_add_cancel hki]
    · have hz : x.testBit i = false :=
        Nat.testBit_lt_two_pow
          (Nat.lt_of_lt_of_le hx (Nat.pow_le_pow_right (by decide) (by omega)))
      simp [hz, hki, Nat.sub_add_cancel hki]
  · simp [hki, Nat.lt_of_not_le hki]

theorem alignUp_two_pow {v k : Nat} (hk : k ≤ 64) :
    alignUp v (2 ^ k) = u64 (v + 2 ^ k - 1) / 2 ^ k * 2 ^ k :=
  and_two_pow_sub hk (u64_lt _)

theorem alignUp_64 (v : Nat) : alignUp v 64 = u64 (v + 63) / 64 * 64 :=
  alignUp_two_pow (v := v) (k := 6) (by decide)

theorem alignUp_8 (v : Nat) : alignUp v 8 = u64 (v + 7) / 8 * 8 :=
  alignUp_two_pow (v := v) (k := 3) (by decide)

theorem toNat_add_one {n : UInt32} (h : n.toNat + 1 < 2 ^ 32) : (n + 1).toNat = n.toNat + 1 := by
  rw [UInt32.toNat_add]
  exact Nat.mod_eq_of_lt h

theorem toNat_sub_one {n : UInt32} (h : 0 < n.toNat) : (n - 1).toNat = n.toNat - 1 :=
  UInt32.toNat_sub_of_le n 1 (UInt32.le_iff_toNat_le.mpr h)

end Word
