import Mathlib.Data.List.Basic
import Mathlib.Data.Nat.Digits.Defs

/-! Decimal numerals as strings of bytes. -/
namespace Decimal

def isDigit (c : UInt8) : Bool := 48 ≤ c && c ≤ 57

/-- The positional value of a string of digits. -/
def value (digits : List UInt8) : Nat := digits.foldl (fun n c => 10 * n + (c.toNat - 48)) 0

/-- The numeral of a number, without leading zeros. -/
def numeral (n : Nat) : List UInt8 := (Nat.toDigits 10 n).map fun c => UInt8.ofNat c.toNat

/-- The numeral of an integer, with its sign if it is negative. -/
def signed (n : Int) : List UInt8 := if n < 0 then 45 :: numeral n.natAbs else numeral n.natAbs

section Numerals

variable {n k : Nat} {c : UInt8}

/-- Decimal digits are single bytes. -/
theorem toNat_of_mem_toDigits {d : Char} (h : d ∈ Nat.toDigits 10 n) :
    48 ≤ d.toNat ∧ d.toNat ≤ 57 ∧ (UInt8.ofNat d.toNat).toNat = d.toNat := by
  have hdigit := Nat.isDigit_of_mem_toDigits (by decide) (by decide) h
  obtain ⟨hlo, hhi⟩ : 48 ≤ d.toNat ∧ d.toNat ≤ 57 := by
    simpa [Char.isDigit, UInt32.le_iff_toNat_le] using hdigit
  refine ⟨hlo, hhi, ?_⟩
  rw [UInt8.toNat_ofNat']
  omega

theorem isDigit_of_mem_numeral (h : c ∈ numeral n) : isDigit c = true := by
  obtain ⟨d, hd, rfl⟩ := List.mem_map.mp h
  obtain ⟨hlo, hhi, hbyte⟩ := toNat_of_mem_toDigits hd
  simp only [isDigit, Bool.and_eq_true, decide_eq_true_eq, UInt8.le_iff_toNat_le, hbyte,
    UInt8.reduceToNat]
  exact ⟨hlo, hhi⟩

theorem numeral_ne_nil (n : Nat) : numeral n ≠ [] := by
  intro h
  exact Nat.toDigits_ne_nil (List.map_eq_nil_iff.mp h)

theorem length_numeral_le (hk : 0 < k) (hn : n < 10 ^ k) : (numeral n).length ≤ k := by
  rw [numeral, List.length_map]
  exact Nat.toDigits_length 10 n k hk hn

theorem value_numeral (n : Nat) : value (numeral n) = n := by
  have hfold : value (numeral n) = Nat.ofDigitChars 10 (Nat.toDigits 10 n) 0 := by
    rw [Nat.ofDigitChars_eq_foldl, value, numeral, List.foldl_map]
    apply List.foldl_ext
    intro m d hd
    rw [(toNat_of_mem_toDigits hd).2.2]
    rfl
  rw [hfold, Nat.ofDigitChars_ten_toDigits]

theorem numeral_injective : Function.Injective numeral :=
  Function.LeftInverse.injective value_numeral

end Numerals

section Signed

variable {n : Int} {k : Nat} {c : UInt8}

theorem mem_signed (h : c ∈ signed n) : c = 45 ∨ isDigit c = true := by
  unfold signed at h
  split at h
  · rcases List.mem_cons.mp h with hsign | hdigit
    · exact .inl hsign
    · exact .inr (isDigit_of_mem_numeral hdigit)
  · exact .inr (isDigit_of_mem_numeral h)

theorem length_signed_le (hk : 0 < k) (hn : n.natAbs < 10 ^ k) : (signed n).length ≤ k + 1 := by
  have hlen := length_numeral_le hk hn
  unfold signed
  split
  · exact Nat.succ_le_succ hlen
  · omega

/-- A sign is no digit, so it tells the two halves apart. -/
theorem signed_injective : Function.Injective signed := by
  have hsign : ∀ (m k : Nat), 45 :: numeral m ≠ numeral k := by
    intro m k h
    have hmem : 45 ∈ numeral k := h ▸ List.mem_cons_self
    exact absurd (isDigit_of_mem_numeral hmem) (by decide)
  intro n m h
  unfold signed at h
  split at h <;> split at h
  · have habs := numeral_injective (List.cons.inj h).2
    omega
  · exact absurd h (hsign _ _)
  · exact absurd h.symm (hsign _ _)
  · have habs := numeral_injective h
    omega

end Signed

end Decimal
