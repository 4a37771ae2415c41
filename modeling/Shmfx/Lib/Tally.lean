import Mathlib.Data.Finset.Card
import Mathlib.Tactic.Common

/-! How many participants, out of any number, are in a given phase. -/
namespace Tally

variable {P S : Type*} {Q : S → Prop} {f : P → S} {n : Nat} {p : P} {s : S}

/-- Exactly `n` participants satisfy `Q`. -/
def Counts (Q : S → Prop) (f : P → S) (n : Nat) : Prop :=
  ∃ B : Finset P, (∀ p, p ∈ B ↔ Q (f p)) ∧ B.card = n

theorem counts_zero (h : ∀ p, ¬ Q (f p)) : Counts Q f 0 :=
  ⟨∅, fun p => by simp [h p], rfl⟩

theorem Counts.none (h : Counts Q f 0) (p : P) : ¬ Q (f p) := by
  obtain ⟨B, hB, hcard⟩ := h
  rw [Finset.card_eq_zero] at hcard
  simp [← hB, hcard]

theorem Counts.pos (h : Counts Q f n) (hp : Q (f p)) : 0 < n := by
  obtain ⟨B, hB, rfl⟩ := h
  exact Finset.card_pos.mpr ⟨p, (hB p).mpr hp⟩

theorem Counts.keep [DecidableEq P] (h : Counts Q f n) (hs : Q s ↔ Q (f p)) :
    Counts Q (Function.update f p s) n := by
  obtain ⟨B, hB, hcard⟩ := h
  refine ⟨B, fun q => ?_, hcard⟩
  by_cases hq : q = p
  · rw [hq, Function.update_self, hB, hs]
  · rw [Function.update_of_ne hq, hB]

theorem Counts.enter [DecidableEq P] (h : Counts Q f n) (ho : ¬ Q (f p)) (hn : Q s) :
    Counts Q (Function.update f p s) (n + 1) := by
  obtain ⟨B, hB, hcard⟩ := h
  refine ⟨insert p B, fun q => ?_, ?_⟩
  · by_cases hq : q = p
    · simp [hq, hn]
    · simp [hq, hB]
  · rw [Finset.card_insert_of_notMem (by simp [hB, ho]), hcard]

theorem Counts.leave [DecidableEq P] (h : Counts Q f n) (ho : Q (f p)) (hn : ¬ Q s) :
    Counts Q (Function.update f p s) (n - 1) := by
  obtain ⟨B, hB, hcard⟩ := h
  refine ⟨B.erase p, fun q => ?_, ?_⟩
  · by_cases hq : q = p
    · simp [hq, hn]
    · simp [hq, hB]
  · rw [Finset.card_erase_of_mem ((hB p).mpr ho), hcard]

/-- A participant changes its state: the count follows the phases it leaves and enters. -/
theorem Counts.set [DecidableEq P] {b : S → Bool} (h : Counts (fun s => b s = true) f n)
    (p : P) (s : S) :
    ∃ m, Counts (fun s => b s = true) (Function.update f p s) m ∧
      m + (b (f p)).toNat = n + (b s).toNat := by
  cases hp : b (f p) with
  | false =>
    cases hs : b s with
    | false => exact ⟨n, h.keep (by rw [hp, hs]), rfl⟩
    | true => exact ⟨n + 1, h.enter (by simp [hp]) hs, rfl⟩
  | true =>
    cases hs : b s with
    | false => exact ⟨n - 1, h.leave hp (by simp [hs]), Nat.sub_add_cancel (h.pos hp)⟩
    | true => exact ⟨n, h.keep (by rw [hp, hs]), rfl⟩

/-- Those in a narrower phase are no more. -/
theorem Counts.narrow {Q' : S → Prop} (h : Counts Q f n) (hq : ∀ s, Q' s → Q s) :
    ∃ m ≤ n, Counts Q' f m := by
  classical
  obtain ⟨B, hB, rfl⟩ := h
  refine ⟨_, Finset.card_filter_le B fun p => Q' (f p), _, fun p => ?_, rfl⟩
  rw [Finset.mem_filter, hB]
  exact ⟨And.right, fun hp => ⟨hq _ hp, hp⟩⟩

end Tally
