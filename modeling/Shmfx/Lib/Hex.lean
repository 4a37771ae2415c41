import Mathlib.Data.List.Basic

/-! Byte strings written in hexadecimal, two digits a byte, in either case. -/
namespace Hex

/-- The digit of a number below 16, in lower case. -/
def digit (n : UInt8) : UInt8 := if n < 10 then 48 + n else 87 + n

/-- The digits `A` to `F` in lower case, every other byte as it is. -/
def lower (c : UInt8) : UInt8 := if 65 ≤ c ∧ c ≤ 70 then c + 32 else c

def text (bytes : List UInt8) : List UInt8 :=
  bytes.flatMap fun b => [digit (b / 16), digit (b % 16)]

/-- `t` writes `bytes` in hexadecimal, each digit in the case it likes. -/
def Spells (t bytes : List UInt8) : Prop := t.map lower = text bytes

instance (t bytes : List UInt8) : Decidable (Spells t bytes) :=
  inferInstanceAs (Decidable (_ = _))

variable {hi lo b c : UInt8} {t bytes : List UInt8}

theorem length_text (bytes : List UInt8) : (text bytes).length = 2 * bytes.length := by
  induction bytes with
  | nil => rfl
  | cons b bytes ih =>
    rw [text, List.flatMap_cons, List.length_append, ← text, ih]
    simp only [List.length_cons, List.length_nil]
    omega

theorem Spells.length (h : Spells t bytes) : t.length = 2 * bytes.length := by
  rw [← length_text, ← h, List.length_map]

theorem spells_nil : Spells [] bytes ↔ bytes = [] := by
  cases bytes <;> simp [Spells, text]

theorem spells_cons : Spells (hi :: lo :: t) (b :: bytes) ↔
    lower hi = digit (b / 16) ∧ lower lo = digit (b % 16) ∧ Spells t bytes := by
  rw [Spells, text, List.flatMap_cons, ← text]
  simp [Spells]

theorem halves_lt (b : UInt8) : b / 16 < 16 ∧ b % 16 < 16 := by
  have hb := b.toNat_lt
  simp only [UInt8.lt_iff_toNat_lt, UInt8.toNat_div, UInt8.toNat_mod, UInt8.reduceToNat]
  omega

theorem Spells.digit_of_mem (h : Spells t bytes) (hc : c ∈ t) :
    ∃ n, n < 16 ∧ lower c = digit n := by
  have hmem : lower c ∈ text bytes := h ▸ List.mem_map_of_mem hc
  obtain ⟨b, -, hb⟩ := List.mem_flatMap.mp hmem
  simp only [List.mem_cons, List.not_mem_nil, or_false] at hb
  rcases hb with hb | hb
  · exact ⟨_, (halves_lt b).1, hb⟩
  · exact ⟨_, (halves_lt b).2, hb⟩

/-- Two digits put together are the byte whose halves they are. -/
theorem or_shift_eq_iff (hhi : hi < 16) (hlo : lo < 16) :
    (hi <<< 4) ||| lo = b ↔ hi = b / 16 ∧ lo = b % 16 := by
  have hhi : hi.toNat < 16 := UInt8.lt_iff_toNat_lt.mp hhi
  have hlo : lo.toNat < 2 ^ 4 := UInt8.lt_iff_toNat_lt.mp hlo
  have hor : ((hi <<< 4) ||| lo).toNat = 16 * hi.toNat + lo.toNat := by
    have hbyte : hi.toNat <<< 4 < 2 ^ 8 := by
      rw [Nat.shiftLeft_eq]
      omega
    calc ((hi <<< 4) ||| lo).toNat
        = (hi.toNat <<< 4) % 2 ^ 8 ||| lo.toNat := by simp
      _ = hi.toNat <<< 4 + lo.toNat := by
        rw [Nat.mod_eq_of_lt hbyte, Nat.shiftLeft_add_eq_or_of_lt hlo]
      _ = 16 * hi.toNat + lo.toNat := by rw [Nat.shiftLeft_eq, Nat.mul_comm]
  simp only [← UInt8.toNat_inj, hor, UInt8.toNat_div, UInt8.toNat_mod, UInt8.reduceToNat]
  omega

end Hex
