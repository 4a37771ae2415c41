import Mathlib.Logic.Basic
import Mathlib.Tactic.Common

/-! Labelled transition relations: finite runs with their histories, invariance, guarded steps. -/
namespace Lts

universe u v

variable {σ : Type u} {α : Type v} {step : σ → α → σ → Prop} {s s₀ t : σ} {a : α} {as bs : List α}

/-- Finite runs grow at the end, so the label list reads in execution order. -/
inductive Run (step : σ → α → σ → Prop) (s₀ : σ) : List α → σ → Prop
  | nil : Run step s₀ [] s₀
  | snoc {as : List α} {s : σ} {a : α} {t : σ} :
      Run step s₀ as s → step s a t → Run step s₀ (as ++ [a]) t

/-- The history-aware invariance rule: one step at a time, with the run so far at hand. -/
theorem Run.invariant {I : List α → σ → Prop} (hi : I [] s₀)
    (hs : ∀ as s a t, Run step s₀ as s → I as s → step s a t → I (as ++ [a]) t)
    (h : Run step s₀ as t) : I as t := by
  induction h with
  | nil => exact hi
  | snoc hr ht ih => exact hs _ _ _ _ hr ih ht

theorem Run.single (h : step s a t) : Run step s [a] t :=
  .snoc .nil h

theorem Run.append (h : Run step s₀ as s) (h' : Run step s bs t) : Run step s₀ (as ++ bs) t := by
  induction h' with
  | nil => simpa using h
  | snoc _ hs ih => simpa using Run.snoc ih hs

theorem Run.cons (h : step s a t) {u : σ} (h' : Run step t as u) : Run step s (a :: as) u :=
  (Run.single h).append h'

/-- A run decomposes at every point of its history. -/
theorem Run.split (h : Run step s₀ (as ++ bs) t) : ∃ s, Run step s₀ as s ∧ Run step s bs t := by
  generalize hl : as ++ bs = l at h
  induction h generalizing bs with
  | nil =>
    obtain ⟨rfl, rfl⟩ := List.append_eq_nil_iff.mp hl
    exact ⟨s₀, .nil, .nil⟩
  | @snoc cs u a t hr hs ih =>
    rcases List.eq_nil_or_concat bs with rfl | ⟨bs', b, rfl⟩
    · refine ⟨t, ?_, .nil⟩
      rw [List.append_nil] at hl
      exact hl ▸ .snoc hr hs
    · rw [List.concat_eq_append, ← List.append_assoc] at hl
      obtain ⟨hcs, hb⟩ := List.append_inj' hl rfl
      obtain ⟨v, hv, hvu⟩ := ih hcs
      obtain rfl : b = a := by simpa using hb
      exact ⟨v, hv, by simpa using Run.snoc hvu hs⟩

theorem Run.eq_of_nil (h : Run step s [] t) : s = t := by
  generalize hl : [] = l at h
  cases h with
  | nil => rfl
  | snoc => simp at hl

theorem Run.uncons (h : Run step s (a :: as) t) : ∃ s', step s a s' ∧ Run step s' as t := by
  rw [← List.singleton_append] at h
  obtain ⟨s', h₁, h₂⟩ := Run.split h
  generalize hl : [a] = l at h₁
  cases h₁ with
  | nil => simp at hl
  | @snoc bs u b _ hr hs =>
    rw [← List.nil_append [a]] at hl
    obtain ⟨rfl, hb⟩ := List.append_inj' hl rfl
    obtain rfl : a = b := by simpa using hb
    obtain rfl := hr.eq_of_nil
    exact ⟨s', hs, h₂⟩

theorem Run.unsnoc (h : Run step s₀ (as ++ [a]) t) : ∃ s, Run step s₀ as s ∧ step s a t := by
  obtain ⟨s, hs, hlast⟩ := Run.split h
  obtain ⟨s', hstep, hnil⟩ := Run.uncons hlast
  obtain rfl := hnil.eq_of_nil
  exact ⟨s, hs, hstep⟩

/-- A label of a run is that of a step taken from a state the run passed through. -/
theorem Run.exists_step (h : Run step s₀ as t) (ha : a ∈ as) :
    ∃ bs cs s s', as = bs ++ a :: cs ∧ Run step s₀ bs s ∧ step s a s' := by
  obtain ⟨bs, cs, rfl⟩ := List.append_of_mem ha
  obtain ⟨s, hs, hrest⟩ := Run.split h
  obtain ⟨s', hstep, -⟩ := Run.uncons hrest
  exact ⟨bs, cs, s, s', rfl, hs, hstep⟩

/-- A forward simulation carries every run over to a run with the same history. -/
theorem Run.simulate {τ : Type*} {step' : τ → α → τ → Prop} {R : σ → τ → Prop} {t₀ : τ}
    (h₀ : R s₀ t₀) {ok : α → Prop}
    (hs : ∀ s t a s', R s t → ok a → step s a s' → ∃ t', step' t a t' ∧ R s' t')
    (h : Run step s₀ as s) (hok : ∀ a ∈ as, ok a) : ∃ t, Run step' t₀ as t ∧ R s t := by
  induction h with
  | nil => exact ⟨t₀, .nil, h₀⟩
  | @snoc as s a s' _ ha ih =>
    obtain ⟨t, ht, hr⟩ := ih fun b hb => hok b (List.mem_append_left _ hb)
    obtain ⟨t', ht', hr'⟩ := hs s t a s' hr (hok a (by simp)) ha
    exact ⟨t', .snoc ht ht', hr'⟩

/-- A map of states and labels that takes steps to steps takes runs to runs. -/
theorem Run.map {τ β : Type*} {step' : τ → β → τ → Prop} (f : σ → τ) (g : α → β)
    (hs : ∀ s a t, step s a t → step' (f s) (g a) (f t)) (h : Run step s as t) :
    Run step' (f s) (as.map g) (f t) := by
  induction h with
  | nil => exact .nil
  | snoc _ ha ih =>
    rw [List.map_append]
    exact ih.snoc (hs _ _ _ ha)

/-- Steps taken only where `ok` holds of the source state and the label. -/
def Guarded (ok : σ → α → Prop) (step : σ → α → σ → Prop) (s : σ) (a : α) (t : σ) : Prop :=
  ok s a ∧ step s a t

/-- A run whose steps all happen to meet the guard is one of the guarded relation. -/
theorem Run.guard {ok : σ → α → Prop} (h : Run step s₀ as t)
    (hok : ∀ bs a cs s s', as = bs ++ a :: cs → Run step s₀ bs s → step s a s' → ok s a) :
    Run (Guarded ok step) s₀ as t := by
  induction h with
  | nil => exact .nil
  | @snoc as s a t hr ha ih =>
    refine .snoc (ih ?_) ⟨hok as a [] s t rfl hr ha, ha⟩
    intro bs b cs u u' he
    refine hok bs b (cs ++ [a]) u u' ?_
    simp [he]

theorem Run.unguard {ok : σ → α → Prop} (h : Run (Guarded ok step) s₀ as t) :
    Run step s₀ as t := by
  induction h with
  | nil => exact .nil
  | snoc _ hs ih => exact .snoc ih hs.2

end Lts
