import Mathlib.Algebra.Ring.Nat
import Mathlib.Data.Fintype.Basic
import Mathlib.Logic.Function.Basic
import Mathlib.Tactic.Common

/-! Sequence locks: a 32-bit counter that is odd while its record is being rewritten, and readers
that accept a copy bracketed by two equal even readings of it. -/
namespace Seqlock

variable {ι V : Type*} {q : ι} {base n k s seq : Nat} {busy busy' : Prop}
  {data content content' out : ι → V}

/-- The counter after `n` completed writes. -/
def version (base n : Nat) : Nat := (base + 2 * n) % 2 ^ 32

theorem version_even (hb : base % 2 = 0) (n : Nat) : version base n % 2 = 0 := by
  unfold version
  omega

/-- Equal versions fewer than 2^31 writes apart are the same version. -/
theorem version_inj (hle : k ≤ n) (hlt : n < k + 2 ^ 31) (h : version base n = version base k) :
    n = k := by
  unfold version at h
  omega

/-- The writer's side, after `n` completed writes: the counter is odd while the writer is busy, and
otherwise shows the version of the content. The cell `q` is the counter's own. -/
structure Discipline (q : ι) (base n : Nat) (busy : Prop) (seq : Nat) (data content : ι → V) :
    Prop where
  odd : busy → seq % 2 = 1
  seq_eq : ¬ busy → seq = version base n
  data_eq : ¬ busy → ∀ f, f ≠ q → data f = content f

/-- The reader's side: it loaded version `k`, and unless a write has begun since, every cell it has
copied is the content's. -/
structure Reading (q : ι) (base n : Nat) (busy : Prop) (content : ι → V) (k s : Nat)
    (out : ι → V) (todo : Finset ι) : Prop where
  le : k ≤ n
  seq_eq : s = version base k
  copied : ¬ busy → k = n → ∀ f, f ≠ q → f ∉ todo → out f = content f

theorem Discipline.free_of_even (h : Discipline q base n busy seq data content)
    (he : seq % 2 = 0) : ¬ busy := by
  intro hbusy
  have := h.odd hbusy
  omega

/-- An even counter opens a read of the current version. -/
theorem Discipline.load [Fintype ι] (h : Discipline q base n busy seq data content)
    (he : seq % 2 = 0) : Reading q base n busy content n seq out Finset.univ where
  le := le_rfl
  seq_eq := h.seq_eq (h.free_of_even he)
  copied _ _ f _ hf := absurd (Finset.mem_univ f) hf

theorem Reading.copy [DecidableEq ι] {todo : Finset ι}
    (hr : Reading q base n busy content k s out todo)
    (h : Discipline q base n busy seq data content) {f : ι} {out' : ι → V}
    (hout : ∀ g, out' g = if g = f then data g else out g) :
    Reading q base n busy content k s out' (todo.erase f) where
  le := hr.le
  seq_eq := hr.seq_eq
  copied hfree hk g hg hmem := by
    rw [hout]
    by_cases hgf : g = f
    · rw [if_pos hgf]
      exact h.data_eq hfree g hg
    · rw [if_neg hgf]
      exact hr.copied hfree hk g hg fun hm => hmem (Finset.mem_erase.mpr ⟨hgf, hm⟩)

/-- A write that begins or goes on leaves an open read open. -/
theorem Reading.occupy {todo : Finset ι} (hr : Reading q base n busy content k s out todo) :
    Reading q base n True content k s out todo :=
  ⟨hr.le, hr.seq_eq, fun h => absurd trivial h⟩

/-- A completed write makes the version of every open read an old one. -/
theorem Reading.commit {todo : Finset ι} (hr : Reading q base n busy content k s out todo) :
    Reading q base (n + 1) busy' content' k s out todo where
  le := hr.le.trans (Nat.le_succ n)
  seq_eq := hr.seq_eq
  copied _ hk := by
    have := hr.le
    omega

/-- A second reading equal to the first accepts the content of the last completed write. -/
theorem Reading.accept (hb : base % 2 = 0) (hr : Reading q base n busy content k s out ∅)
    (h : Discipline q base n busy seq data content) (hs : seq = s) (hlt : n < k + 2 ^ 31) {f : ι}
    (hf : f ≠ q) : out f = content f := by
  have heven : seq % 2 = 0 := by
    rw [hs, hr.seq_eq]
    exact version_even hb k
  have hfree := h.free_of_even heven
  have hv : version base n = version base k := by rw [← h.seq_eq hfree, hs, hr.seq_eq]
  exact hr.copied hfree (version_inj hr.le hlt hv).symm f hf (Finset.notMem_empty f)

end Seqlock
