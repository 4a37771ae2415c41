import Mathlib.Data.Nat.ModEq
import Mathlib.Logic.Function.Basic
import Mathlib.Tactic.Common

/-! A window of `n` consecutive positions stored cyclically: position `p` lives at cell `p % n`. -/
namespace Window

variable {β : Type*} {n lo p q : Nat}

/-- Membership of a position in the window that starts at `lo`. -/
def In (n lo p : Nat) : Prop := lo ≤ p ∧ p < lo + n

/-- Positions of one window that share a cell are equal. -/
theorem In.eq_of_mod_eq (hp : In n lo p) (hq : In n lo q) (h : p % n = q % n) : p = q := by
  obtain ⟨hp1, hp2⟩ := hp
  obtain ⟨hq1, hq2⟩ := hq
  apply Nat.ModEq.eq_of_abs_lt (m := n) h
  rw [abs_lt]
  constructor <;> omega

theorem In.mod_eq_iff (hp : In n lo p) (hq : In n lo q) : p % n = q % n ↔ p = q :=
  ⟨hp.eq_of_mod_eq hq, fun h => h ▸ rfl⟩

/-- Writing the cell of one position leaves the cells of the others alone. -/
theorem In.update_mod (f : Nat → β) (v : β) (hp : In n lo p) (hq : In n lo q) :
    Function.update f (p % n) v (q % n) = if q = p then v else f (q % n) := by
  rw [Function.update_apply]
  simp only [hq.mod_eq_iff hp]

/-- A congruent position outside the window on the right is at least a lap ahead. -/
theorem In.lap_of_lt (hp : In n lo p) (hpq : p < q) (h : q % n = p % n) : lo + n ≤ q := by
  by_contra hlt
  have hq : In n lo q := ⟨hp.1.trans hpq.le, by omega⟩
  have he := hp.eq_of_mod_eq hq h.symm
  omega

/-- Every cell is the cell of exactly one position of the window. -/
theorem exists_mod_eq (hn : 0 < n) (lo i : Nat) (hi : i < n) : ∃ p, In n lo p ∧ p % n = i := by
  have hl := Nat.mod_lt lo hn
  have hd := Nat.div_add_mod lo n
  by_cases h : lo % n ≤ i
  · refine ⟨n * (lo / n) + i, ⟨by omega, by omega⟩, ?_⟩
    rw [Nat.mul_add_mod, Nat.mod_eq_of_lt hi]
  · refine ⟨n * (lo / n + 1) + i, ⟨?_, ?_⟩, ?_⟩
    · rw [Nat.mul_add]; omega
    · rw [Nat.mul_add]; omega
    · rw [Nat.mul_add_mod, Nat.mod_eq_of_lt hi]

end Window
