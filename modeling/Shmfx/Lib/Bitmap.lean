import Mathlib.Data.Nat.Bitwise
import Mathlib.Logic.Function.Basic
import Mathlib.Tactic.Common
import Mathlib.Tactic.IntervalCases

/-! Sets of indices packed eight to a byte. -/
namespace Bitmap

/-- The byte with only bit `i % 8` set. -/
def mask (i : Nat) : UInt8 := 1 <<< UInt8.ofNat (i % 8)

def test (b : Nat → UInt8) (i : Nat) : Bool := b (i / 8) &&& mask i != 0

def set (b : Nat → UInt8) (i : Nat) : Nat → UInt8 :=
  Function.update b (i / 8) (b (i / 8) ||| mask i)

def clear (b : Nat → UInt8) (i : Nat) : Nat → UInt8 :=
  Function.update b (i / 8) (b (i / 8) &&& ~~~mask i)

theorem mask_toNat (i : Nat) : (mask i).toNat = 2 ^ (i % 8) := by
  have h : i % 8 < 8 := Nat.mod_lt _ (by decide)
  unfold mask
  generalize i % 8 = k at h
  interval_cases k <;> rfl

theorem test_eq_testBit (b : Nat → UInt8) (i : Nat) :
    test b i = (b (i / 8)).toNat.testBit (i % 8) := by
  have h : b (i / 8) &&& mask i = 0 ↔ (b (i / 8)).toNat.testBit (i % 8) = false := by
    rw [← UInt8.toNat_inj, UInt8.toNat_and, mask_toNat, Nat.and_two_pow]
    simp
  rw [test, bne]
  cases hb : (b (i / 8)).toNat.testBit (i % 8) with
  | false => simp [h.mpr hb]
  | true => simp [mt h.mp (by simp [hb])]

theorem eq_of_div_mod {i j : Nat} (hd : j / 8 = i / 8) (hm : j % 8 = i % 8) : j = i := by
  omega

theorem test_set (b : Nat → UInt8) (i j : Nat) :
    test (set b i) j = (decide (j = i) || test b j) := by
  rw [test_eq_testBit, test_eq_testBit, set, Function.update_apply]
  by_cases hd : j / 8 = i / 8
  · rw [if_pos hd, UInt8.toNat_or, mask_toNat, Nat.testBit_or, Nat.testBit_two_pow, hd,
      Bool.or_comm]
    congr 1
    exact decide_eq_decide.mpr ⟨fun h => eq_of_div_mod hd h.symm, fun h => by rw [h]⟩
  · have hne : j ≠ i := fun h => hd (by rw [h])
    rw [if_neg hd, decide_eq_false hne, Bool.false_or]

theorem test_clear (b : Nat → UInt8) (i j : Nat) :
    test (clear b i) j = (decide (j ≠ i) && test b j) := by
  rw [test_eq_testBit, test_eq_testBit, clear, Function.update_apply]
  by_cases hd : j / 8 = i / 8
  · have hlt : j % 8 < 8 := Nat.mod_lt _ (by decide)
    have hmask : (mask i).toNat < 2 ^ 8 := UInt8.toNat_lt _
    have hnot : (~~~mask i).toNat.testBit (j % 8) = decide (j ≠ i) := by
      rw [UInt8.toNat_not, show UInt8.size - 1 - (mask i).toNat = 2 ^ 8 - ((mask i).toNat + 1) by
        simp only [UInt8.size]; omega, Nat.testBit_two_pow_sub_succ hmask, mask_toNat,
        Nat.testBit_two_pow, decide_eq_true hlt, Bool.true_and, ← decide_not]
      exact decide_eq_decide.mpr
        ⟨fun h he => h (by rw [he]), fun h he => h (eq_of_div_mod hd he.symm)⟩
    rw [if_pos hd, UInt8.toNat_and, Nat.testBit_and, hnot, hd, Bool.and_comm]
  · have hne : j ≠ i := fun h => hd (by rw [h])
    rw [if_neg hd, decide_eq_true hne, Bool.true_and]

end Bitmap
