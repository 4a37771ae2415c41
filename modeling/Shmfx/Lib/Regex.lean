import Mathlib.Computability.RegularExpressions

/-! The literals, character classes and bounded repetitions of textual regular expressions. -/
namespace Regex

universe u

variable {α : Type u}

/-- A text that stands for itself. -/
def literal : List α → RegularExpression α
  | [] => 1
  | c :: text => .char c * literal text

/-- A character class `[...]`. -/
def oneOf : List α → RegularExpression α
  | [] => 0
  | c :: cs => .char c + oneOf cs

/-- The alternation of `P` repeated `lo` to `lo + n` times. -/
def upFrom (P : RegularExpression α) (lo : Nat) : Nat → RegularExpression α
  | 0 => P ^ lo
  | n + 1 => upFrom P lo n + P ^ (lo + (n + 1))

/-- A bounded repetition `P{lo,hi}`. -/
def between (P : RegularExpression α) (lo hi : Nat) : RegularExpression α := upFrom P lo (hi - lo)

section Matching

variable {x text cs : List α} {P Q : RegularExpression α} {lo hi n : Nat}

theorem mem_comp : x ∈ (P * Q).matches' ↔ ∃ a b, x = a ++ b ∧ a ∈ P.matches' ∧ b ∈ Q.matches' := by
  rw [RegularExpression.matches'_mul, Language.mem_mul]
  constructor
  · rintro ⟨a, ha, b, hb, rfl⟩
    exact ⟨a, b, rfl, ha, hb⟩
  · rintro ⟨a, b, rfl, ha, hb⟩
    exact ⟨a, ha, b, hb, rfl⟩

theorem mem_char {c : α} : x ∈ (RegularExpression.char c).matches' ↔ x = [c] :=
  Iff.rfl

theorem mem_literal : x ∈ (literal text).matches' ↔ x = text := by
  induction text generalizing x with
  | nil => exact Language.mem_one x
  | cons c text ih =>
    rw [literal, mem_comp]
    constructor
    · rintro ⟨a, b, rfl, ha, hb⟩
      rw [mem_char.mp ha, ih.mp hb]
      rfl
    · rintro rfl
      exact ⟨[c], text, rfl, mem_char.mpr rfl, ih.mpr rfl⟩

theorem mem_oneOf : x ∈ (oneOf cs).matches' ↔ ∃ c ∈ cs, x = [c] := by
  induction cs with
  | nil =>
    constructor
    · intro h
      exact (Language.notMem_zero x h).elim
    · rintro ⟨c, hc, -⟩
      cases hc
  | cons c cs ih =>
    rw [oneOf, RegularExpression.matches'_add, Language.mem_add, ih, mem_char]
    simp only [List.mem_cons, exists_eq_or_imp]

theorem mem_upFrom : x ∈ (upFrom P lo n).matches' ↔
    ∃ k, lo ≤ k ∧ k ≤ lo + n ∧ x ∈ P.matches' ^ k := by
  induction n with
  | zero =>
    rw [upFrom, RegularExpression.matches'_pow]
    constructor
    · intro h
      exact ⟨lo, Nat.le_refl lo, Nat.le_refl lo, h⟩
    · rintro ⟨k, hlo, hhi, hk⟩
      obtain rfl : k = lo := by omega
      exact hk
  | succ n ih =>
    rw [upFrom, RegularExpression.matches'_add, Language.mem_add, ih,
      RegularExpression.matches'_pow]
    constructor
    · rintro (⟨k, hlo, hhi, hk⟩ | hk)
      · exact ⟨k, hlo, by omega, hk⟩
      · exact ⟨_, by omega, by omega, hk⟩
    · rintro ⟨k, hlo, hhi, hk⟩
      rcases Nat.lt_or_ge k (lo + (n + 1)) with hlt | hge
      · exact .inl ⟨k, hlo, by omega, hk⟩
      · obtain rfl : k = lo + (n + 1) := by omega
        exact .inr hk

/-- Repetitions of a character class are told apart by their length. -/
theorem mem_pow_oneOf : x ∈ (oneOf cs).matches' ^ n ↔ x.length = n ∧ ∀ c ∈ x, c ∈ cs := by
  induction n generalizing x with
  | zero =>
    rw [pow_zero, Language.mem_one, List.length_eq_zero_iff]
    constructor
    · rintro rfl
      exact ⟨rfl, nofun⟩
    · exact And.left
  | succ n ih =>
    rw [pow_succ', Language.mem_mul]
    constructor
    · rintro ⟨a, ha, b, hb, rfl⟩
      obtain ⟨c, hc, rfl⟩ := mem_oneOf.mp ha
      obtain ⟨hlen, hall⟩ := ih.mp hb
      exact ⟨congrArg Nat.succ hlen, List.forall_mem_cons.mpr ⟨hc, hall⟩⟩
    · rintro ⟨hlen, hall⟩
      cases x with
      | nil => cases hlen
      | cons c x =>
        obtain ⟨hc, hx⟩ := List.forall_mem_cons.mp hall
        exact ⟨[c], mem_oneOf.mpr ⟨c, hc, rfl⟩, x, ih.mpr ⟨Nat.succ.inj hlen, hx⟩, rfl⟩

theorem mem_between_oneOf (h : lo ≤ hi) : x ∈ (between (oneOf cs) lo hi).matches' ↔
    lo ≤ x.length ∧ x.length ≤ hi ∧ ∀ c ∈ x, c ∈ cs := by
  rw [between, mem_upFrom, Nat.add_sub_cancel' h]
  constructor
  · rintro ⟨k, hlo, hhi, hk⟩
    obtain ⟨rfl, hall⟩ := mem_pow_oneOf.mp hk
    exact ⟨hlo, hhi, hall⟩
  · rintro ⟨hlo, hhi, hall⟩
    exact ⟨x.length, hlo, hhi, mem_pow_oneOf.mpr ⟨rfl, hall⟩⟩

end Matching

end Regex
