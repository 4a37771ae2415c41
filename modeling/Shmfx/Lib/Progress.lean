import Mathlib.Data.List.Count
import Shmfx.Lib.Lts

/-! Progress from a measure: steps that use it up are few. -/
namespace Lts

universe u v

variable {σ : Type u} {α : Type v} {step : σ → α → σ → Prop} {s t : σ} {as : List α} {μ : σ → Nat}

/-- The steps of a kind `p` are bounded by a measure that each of them uses up and no other step
adds to, as long as `B` lasts and all labels are as `q` says. -/
theorem Run.count_le {p : α → Bool} {q : α → Prop} {B : σ → Prop}
    (hs : ∀ s a t, B s → q a → step s a t → B t ∧ μ t + (if p a then 1 else 0) ≤ μ s)
    (hB : B s) (h : Run step s as t) (hq : ∀ a ∈ as, q a) : B t ∧ as.countP p + μ t ≤ μ s := by
  induction h with
  | nil => simpa using hB
  | @snoc as u a t _ ha ih =>
    obtain ⟨hu, hle⟩ := ih fun b hb => hq b (List.mem_append_left _ hb)
    obtain ⟨ht, hlast⟩ := hs u a t hu (hq a (by simp)) ha
    refine ⟨ht, ?_⟩
    rw [List.countP_append, List.countP_singleton]
    omega

end Lts
