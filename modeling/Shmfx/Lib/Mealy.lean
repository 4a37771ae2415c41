import Mathlib.Logic.Basic
import Mathlib.Tactic.Common

/-! Deterministic machines that answer each call, and simulations between them. -/
namespace Mealy

variable {σ τ ι ρ : Type*} {f : σ → ι → ρ × σ} {g : τ → ι → ρ × τ}

/-- The answers to a sequence of calls. -/
def replies (f : σ → ι → ρ × σ) (s : σ) : List ι → List ρ
  | [] => []
  | c :: cs => (f s c).1 :: replies f (f s c).2 cs

/-- The state after a sequence of calls. -/
def final (f : σ → ι → ρ × σ) (s : σ) : List ι → σ
  | [] => s
  | c :: cs => final f (f s c).2 cs

theorem replies_append (s : σ) (cs ds : List ι) :
    replies f s (cs ++ ds) = replies f s cs ++ replies f (final f s cs) ds := by
  induction cs generalizing s with
  | nil => rfl
  | cons c cs ih => simp [replies, final, ih]

theorem final_append (s : σ) (cs ds : List ι) :
    final f s (cs ++ ds) = final f (final f s cs) ds := by
  induction cs generalizing s with
  | nil => rfl
  | cons c cs ih => simp [final, ih]

/-- One call of a simulation: equal answers, and the relation holds of the calls still to come. -/
def Simulates (f : σ → ι → ρ × σ) (g : τ → ι → ρ × τ) (R : List ι → σ → τ → Prop) : Prop :=
  ∀ c cs s t, R (c :: cs) s t → (f s c).1 = (g t c).1 ∧ R cs (f s c).2 (g t c).2

/-- A simulation answers every sequence of calls alike and ends in related states. -/
theorem Simulates.replies_eq {R : List ι → σ → τ → Prop} (h : Simulates f g R) {cs : List ι}
    {s : σ} {t : τ} (hr : R cs s t) :
    replies f s cs = replies g t cs ∧ R [] (final f s cs) (final g t cs) := by
  induction cs generalizing s t with
  | nil => exact ⟨rfl, hr⟩
  | cons c cs ih =>
    obtain ⟨ha, hn⟩ := h c cs s t hr
    obtain ⟨he, hf⟩ := ih hn
    exact ⟨by simp [replies, ha, he], hf⟩

end Mealy
