import Shmfx.Lib.Lts
import Shmfx.Lib.RobustMutex
import Shmfx.Types

/-! `ShmMutexGuard` objects: constructed, moved, marked and destroyed by threads that may die. -/
namespace Shmfx

open Lts RobustMutex

universe u v w

/-- A `ShmMutexGuard`; an `error` of `none` is `ErrorCode::Ok`. -/
structure ShmMutexGuard (M : Type w) where
  mutex : Option M := none
  locked : Bool := false
  priorOwnerDead : Bool := false
  error : Option ErrorCode := none
  deriving DecidableEq

namespace ShmMutexGuard

variable {T : Type u} {M : Type w}

/-- The mutex a guard has to unlock, and whether it was taken over from a dead owner and has not
been marked since. -/
def claim (g : ShmMutexGuard M) : Option (M × Bool) :=
  if g.locked then g.mutex.map fun m => (m, g.priorOwnerDead) else none

/-- What the members of a guard say together. -/
structure Coherent (g : ShmMutexGuard M) : Prop where
  locked_iff : g.locked = true ↔ g.mutex ≠ none
  dead_locked : g.priorOwnerDead = true → g.locked = true
  error_locked : g.locked = true →
    g.error = if g.priorOwnerDead then some .priorOwnerDead else none
  error_cases : g.error = none ∨ g.error = some .priorOwnerDead

theorem claim_eq_some_iff {g : ShmMutexGuard M} {m : M} {b : Bool} :
    g.claim = some (m, b) ↔ g.locked = true ∧ g.mutex = some m ∧ g.priorOwnerDead = b := by
  rw [claim]
  split_ifs with h
  · simp [h]
  · simp [h]

theorem coherent_empty : ({} : ShmMutexGuard M).Coherent := by
  constructor <;> simp

variable [DecidableEq M]

/-- The constructor, run by `t`: the guard and the mutexes after `pthread_mutex_lock`, or nothing
while the call waits. -/
def construct (t : T) (m : M) (s : M → State T) : Option (ShmMutexGuard M × (M → State T)) :=
  match lock t (s m) with
  | none => none
  | some (.ok, x) => some (⟨some m, true, false, none⟩, Function.update s m x)
  | some (.ownerDead, x) =>
    some (⟨some m, true, true, some .priorOwnerDead⟩, Function.update s m x)
  | some (.notRecoverable, x) =>
    some (⟨none, false, false, some .priorOwnerDead⟩, Function.update s m x)

theorem construct_coherent {t : T} {m : M} {s s' : M → State T} {g : ShmMutexGuard M}
    (h : construct t m s = some (g, s')) : g.Coherent := by
  unfold construct at h
  split at h <;> cases h <;> constructor <;> simp

/-- The constructor waits for a mutex that has an owner, and for no other. -/
theorem construct_eq_none_iff {t : T} {m : M} {s : M → State T} :
    construct t m s = none ↔ ∃ u, (s m).owner = some u := by
  rw [← lock_eq_none_iff (t := t), construct]
  split <;> simp_all

/-- A guard that was constructed has taken a mutex that nobody held, or found it lost. -/
theorem construct_cases {t : T} {m : M} {s s' : M → State T} {g : ShmMutexGuard M}
    (h : construct t m s = some (g, s')) :
    (∃ b, g.claim = some (m, b) ∧ (s m).owner = none ∧ s m ≠ .notRecoverable ∧
        s' = Function.update s m (taken t b)) ∨
      g.claim = none ∧ s m = .notRecoverable ∧ s' = s := by
  unfold construct at h
  cases hl : lock t (s m) with
  | none =>
    rw [hl] at h
    cases h
  | some r =>
    obtain ⟨r, x⟩ := r
    rw [hl] at h
    rcases lock_cases hl with ⟨hs, rfl, rfl⟩ | ⟨hs, rfl, rfl⟩ | ⟨hs, rfl, rfl⟩
    · cases h
      refine .inl ⟨false, rfl, ?_, ?_, rfl⟩ <;> simp [hs, State.owner]
    · cases h
      refine .inl ⟨true, rfl, ?_, ?_, rfl⟩ <;> simp [hs, State.owner]
    · cases h
      refine .inr ⟨rfl, hs, ?_⟩
      rw [← hs, Function.update_eq_self]

variable [DecidableEq T]

/-- `mark_consistent`: the error it reports, if any, with the guard and the mutexes it leaves. -/
def markConsistent (t : T) (g : ShmMutexGuard M) (s : M → State T) :
    Option ErrorCode × ShmMutexGuard M × (M → State T) :=
  match g.mutex with
  | none => (g.error, g, s)
  | some m =>
    if g.locked = false then (g.error, g, s)
    else if g.priorOwnerDead = false then (none, g, s)
    else
      match consistent t (s m) with
      | (false, x) => (some .priorOwnerDead, g, Function.update s m x)
      | (true, x) => (none, ⟨some m, g.locked, false, none⟩, Function.update s m x)

/-- The mutexes after `reset`, which leaves the guard empty. -/
def reset (t : T) (g : ShmMutexGuard M) (s : M → State T) : M → State T :=
  match g.mutex with
  | none => s
  | some m => if g.locked then Function.update s m (unlock t (s m)) else s

end ShmMutexGuard

/-- The mutexes, and the places where guards live. -/
structure GuardConfig (T : Type u) (V : Type v) (M : Type w) where
  mutexes : M → State T
  slots : V → Option (ShmMutexGuard M)

/-- What happens to guards; `released` is the claim of a guard that is reset. -/
inductive GuardEvent (T : Type u) (V : Type v) (M : Type w)
  | constructed (v : V) (m : M)
  | moved (target source : V)
  | assigned (target source : V) (released : Option (M × Bool))
  | marked (v : V)
  | destroyed (v : V) (released : Option (M × Bool))
  | died (t : T)

variable {T : Type u} {V : Type v} {M : Type w}

namespace GuardEvent

def released : GuardEvent T V M → Option (M × Bool)
  | .assigned _ _ r | .destroyed _ r => r
  | .constructed .. | .moved .. | .marked _ | .died _ => none

/-- A guard moves between places of one thread only. -/
def Local (home : V → T) : GuardEvent T V M → Prop
  | .moved v w | .assigned v w _ => home v = home w
  | .constructed .. | .marked _ | .destroyed .. | .died _ => True

/-- The thread that a reset runs on. -/
def resetBy (home : V → T) : GuardEvent T V M → Option T
  | .assigned v _ _ | .destroyed v _ => some (home v)
  | .constructed .. | .moved .. | .marked _ | .died _ => none

end GuardEvent

namespace GuardConfig

def initial : GuardConfig T V M := ⟨fun _ => .free, fun _ => none⟩

end GuardConfig

/-- What the guard at a place has to unlock. -/
def claimsOf (slots : V → Option (ShmMutexGuard M)) (v : V) : Option (M × Bool) :=
  (slots v).bind ShmMutexGuard.claim

section Claims

variable {slots : V → Option (ShmMutexGuard M)} {v w : V} {g : ShmMutexGuard M}

theorem claimsOf_none (h : slots v = none) : claimsOf slots v = none := by
  rw [claimsOf, h]
  rfl

theorem claimsOf_some (h : slots v = some g) : claimsOf slots v = g.claim := by
  rw [claimsOf, h]
  rfl

variable [DecidableEq V]

theorem claimsOf_update (x : Option (ShmMutexGuard M)) :
    claimsOf (Function.update slots v x) =
      Function.update (claimsOf slots) v (x.bind ShmMutexGuard.claim) := by
  funext w
  rw [claimsOf, Function.update_apply, Function.update_apply]
  split_ifs <;> rfl

/-- The guard moves, and what it has to unlock with it. -/
theorem claimsOf_move (hw : slots w = some g) :
    claimsOf (Function.update (Function.update slots w (some {})) v (some g)) =
      Function.update (Function.update (claimsOf slots) w none) v (claimsOf slots w) := by
  rw [claimsOf_update, claimsOf_update, claimsOf_some hw]
  rfl

end Claims

variable [DecidableEq T] [DecidableEq M]

namespace ShmMutexGuard

variable {g : ShmMutexGuard M} {s s' : M → State T} {t : T} {m : M} {b : Bool}

theorem reset_of_claim (h : g.claim = some (m, b)) :
    g.reset t s = Function.update s m (unlock t (s m)) := by
  obtain ⟨hl, hm, -⟩ := claim_eq_some_iff.mp h
  rw [reset, hm]
  exact if_pos hl

theorem reset_of_not_claim (h : g.claim = none) : g.reset t s = s := by
  rw [claim] at h
  rw [reset]
  cases hm : g.mutex with
  | none => rfl
  | some m =>
    refine if_neg fun hl => ?_
    rw [if_pos hl, hm] at h
    cases h

theorem markConsistent_of_not_unmarked (h : ∀ m, g.claim ≠ some (m, true)) :
    (g.markConsistent t s).2 = (g, s) := by
  unfold markConsistent
  cases hm : g.mutex with
  | none => rfl
  | some m =>
    dsimp only
    split_ifs with hl hd
    · rfl
    · rfl
    · refine absurd ?_ (h m)
      exact claim_eq_some_iff.mpr
        ⟨Bool.not_eq_false _ ▸ hl, hm, Bool.not_eq_false _ ▸ hd⟩

/-- A mutex taken over is marked when its holder asks. -/
theorem markConsistent_of_unmarked (h : g.claim = some (m, true)) (hs : s m = .inconsistent t) :
    g.markConsistent t s =
      (none, ⟨some m, true, false, none⟩, Function.update s m (.held t)) := by
  obtain ⟨hl, hm, hd⟩ := claim_eq_some_iff.mp h
  unfold markConsistent
  rw [hm]
  dsimp only
  rw [if_neg (by simp [hl]), if_neg (by simp [hd]), hs, consistent, if_pos rfl, hl]

theorem markConsistent_coherent (hg : g.Coherent) : (g.markConsistent t s).2.1.Coherent := by
  unfold markConsistent
  cases hm : g.mutex with
  | none => exact hg
  | some m =>
    dsimp only
    split_ifs with hl
    · exact hg
    · exact hg
    · split
      · exact hg
      · constructor <;> simp [Bool.not_eq_false _ ▸ hl]

end ShmMutexGuard

/-- A mutex is unlocked by the thread that holds it, and loses its holder in no other way than this
or by the holder's death. -/
structure UnlocksOwn (home : V → T) (c : GuardConfig T V M) (e : GuardEvent T V M)
    (c' : GuardConfig T V M) : Prop where
  unlocked : ∀ m b, e.released = some (m, b) →
    (c.mutexes m).owner = e.resetBy home ∧ (c'.mutexes m).owner = none
  only : ∀ m t, (c.mutexes m).owner = some t → (c'.mutexes m).owner ≠ some t →
    (∃ b, e.released = some (m, b)) ∨ e = .died t

section Effects

variable {home : V → T} {c c' : GuardConfig T V M} {e : GuardEvent T V M} {v : V}
  {g : ShmMutexGuard M}

/-- The effects one operation can have on the mutexes. -/
inductive MutexEffect (home : V → T) (s : M → State T) : GuardEvent T V M → (M → State T) → Prop
  | none {e : GuardEvent T V M} (he : e.released = none) : MutexEffect home s e s
  | taken {e : GuardEvent T V M} (v : V) {m : M} (b : Bool) (he : e.released = none)
      (hm : (s m).owner = none) (hlost : s m ≠ .notRecoverable) :
      MutexEffect home s e (Function.update s m (taken (home v) b))
  | marked {e : GuardEvent T V M} (v : V) {m : M} (he : e.released = none)
      (hm : s m = .inconsistent (home v)) :
      MutexEffect home s e (Function.update s m (.held (home v)))
  | released {e : GuardEvent T V M} {v : V} {m : M} {b : Bool} (he : e.released = some (m, b))
      (hby : e.resetBy home = some (home v)) (hm : s m = RobustMutex.taken (home v) b) :
      MutexEffect home s e (Function.update s m (unlock (home v) (s m)))
  | died (t : T) : MutexEffect home s (.died t) fun m => RobustMutex.die t (s m)

theorem MutexEffect.reset (h : Accounted home (claimsOf c.slots) c.mutexes)
    (hv : c.slots v = some g) (he : e.released = g.claim) (hby : e.resetBy home = some (home v)) :
    MutexEffect home c.mutexes e (g.reset (home v) c.mutexes) := by
  cases hclaim : g.claim with
  | none =>
    rw [ShmMutexGuard.reset_of_not_claim hclaim]
    exact .none (he.trans hclaim)
  | some r =>
    obtain ⟨m, b⟩ := r
    rw [ShmMutexGuard.reset_of_claim hclaim]
    exact .released (he.trans hclaim) hby (h.state ((claimsOf_some hv).trans hclaim))

theorem MutexEffect.unlocksOwn (h : MutexEffect home c.mutexes e c'.mutexes) :
    UnlocksOwn home c e c' := by
  generalize hs' : c'.mutexes = s' at h
  constructor
  · intro m b he
    rw [hs']
    cases h with
    | none hnone | taken _ _ hnone | marked _ hnone => cases hnone.symm.trans he
    | @released _ v m' b' hrel hby hm =>
      cases hrel.symm.trans he
      have howner : (c.mutexes m).owner = some (home v) := by rw [hm, owner_taken]
      rw [Function.update_self, owner_unlock howner]
      exact ⟨howner.trans hby.symm, rfl⟩
    | died => cases he
  · intro m t ho hne
    rw [hs'] at hne
    cases h with
    | none => exact absurd ho hne
    | @taken _ _ m' _ _ hm =>
      rw [Function.update_apply] at hne
      split_ifs at hne with heq
      · cases hm.symm.trans (heq ▸ ho)
      · exact absurd ho hne
    | @marked _ v m' _ hm =>
      rw [Function.update_apply] at hne
      split_ifs at hne with heq
      · rw [heq, hm] at ho
        exact absurd ho hne
      · exact absurd ho hne
    | @released _ v m' b hrel =>
      rw [Function.update_apply] at hne
      split_ifs at hne with heq
      · exact .inl ⟨b, heq ▸ hrel⟩
      · exact absurd ho hne
    | died u =>
      refine .inr ?_
      by_contra hu
      refine hne (owner_die.mpr ⟨ho, ?_⟩)
      rintro rfl
      exact hu rfl

theorem MutexEffect.lost_iff {s s' : M → State T} (h : MutexEffect home s e s') (m : M) :
    s' m = .notRecoverable ↔ s m = .notRecoverable ∨ e.released = some (m, true) := by
  cases h with
  | none he => simp [he]
  | @taken _ v m' b he _ hlost =>
    rw [Function.update_apply]
    split_ifs with heq
    · subst heq
      simp [he, hlost, taken_ne_notRecoverable]
    · simp [he]
  | @marked _ v m' he hm =>
    rw [Function.update_apply]
    split_ifs with heq
    · subst heq
      simp [he, hm]
    · simp [he]
  | @released _ v m' b he hby hm =>
    rw [Function.update_apply]
    split_ifs with heq
    · subst heq
      rw [unlock_eq_notRecoverable (by rw [hm, owner_taken]), he, hm]
      cases b <;> simp [RobustMutex.taken]
    · have hne : ¬ m' = m := fun h => heq h.symm
      simp [he, hne]
  | died t => simp [die_eq_notRecoverable, GuardEvent.released]

end Effects

variable [DecidableEq V]

/-- One operation on guards; those at `v` are run by the thread `home v`. -/
inductive GuardStep (home : V → T) (c : GuardConfig T V M) :
    GuardEvent T V M → GuardConfig T V M → Prop
  | construct {v : V} {m : M} {g : ShmMutexGuard M} {s : M → State T} (hv : c.slots v = none)
      (h : ShmMutexGuard.construct (home v) m c.mutexes = some (g, s)) :
      GuardStep home c (.constructed v m) ⟨s, Function.update c.slots v (some g)⟩
  | moveConstruct {v w : V} {g : ShmMutexGuard M} (hv : c.slots v = none)
      (hw : c.slots w = some g) :
      GuardStep home c (.moved v w)
        ⟨c.mutexes, Function.update (Function.update c.slots w (some {})) v (some g)⟩
  | moveAssign {v w : V} {g old : ShmMutexGuard M} (hne : v ≠ w) (hv : c.slots v = some old)
      (hw : c.slots w = some g) :
      GuardStep home c (.assigned v w old.claim)
        ⟨old.reset (home v) c.mutexes,
          Function.update (Function.update c.slots w (some {})) v (some g)⟩
  | selfAssign {v : V} {g : ShmMutexGuard M} (hv : c.slots v = some g) :
      GuardStep home c (.assigned v v none) c
  | mark {v : V} {g : ShmMutexGuard M} (hv : c.slots v = some g) :
      GuardStep home c (.marked v)
        ⟨(g.markConsistent (home v) c.mutexes).2.2,
          Function.update c.slots v (some (g.markConsistent (home v) c.mutexes).2.1)⟩
  | destroy {v : V} {g : ShmMutexGuard M} (hv : c.slots v = some g) :
      GuardStep home c (.destroyed v g.claim)
        ⟨g.reset (home v) c.mutexes, Function.update c.slots v none⟩
  | die (t : T) :
      GuardStep home c (.died t)
        ⟨fun m => RobustMutex.die t (c.mutexes m),
          fun v => if home v = t then none else c.slots v⟩

/-- Guards and mutexes agree. -/
structure GuardsSound (home : V → T) (log : List (GuardEvent T V M)) (c : GuardConfig T V M) :
    Prop where
  coherent : ∀ v g, c.slots v = some g → g.Coherent
  owned : ∀ m t, (c.mutexes m).owner = some t ↔ ∃ v b, home v = t ∧ claimsOf c.slots v = some (m, b)
  alone : ∀ v w m b b', claimsOf c.slots v = some (m, b) → claimsOf c.slots w = some (m, b') → v = w
  unmarked : ∀ v m b, claimsOf c.slots v = some (m, b) →
    (b = true ↔ c.mutexes m = .inconsistent (home v))
  lost : ∀ m, c.mutexes m = .notRecoverable ↔ ∃ e ∈ log, e.released = some (m, true)

section Proofs

variable {home : V → T} {c c' : GuardConfig T V M} {e : GuardEvent T V M}
  {log : List (GuardEvent T V M)} {v : V} {g : ShmMutexGuard M}

/-- What an operation does to the mutexes when guards and mutexes agree. -/
theorem guardStep_effect (h : Accounted home (claimsOf c.slots) c.mutexes)
    (hs : GuardStep home c e c') : MutexEffect home c.mutexes e c'.mutexes := by
  cases hs with
  | @construct v m g s hv hc =>
    rcases ShmMutexGuard.construct_cases hc with ⟨b, -, hm, hlost, rfl⟩ | ⟨-, -, rfl⟩
    · exact .taken v b rfl hm hlost
    · exact .none rfl
  | moveConstruct => exact .none rfl
  | moveAssign _ hv => exact .reset h hv rfl rfl
  | selfAssign => exact .none rfl
  | @mark v g hv =>
    by_cases hun : ∃ m, g.claim = some (m, true)
    · obtain ⟨m, hclaim⟩ := hun
      have hm := h.state ((claimsOf_some hv).trans hclaim)
      rw [ShmMutexGuard.markConsistent_of_unmarked hclaim hm]
      exact .marked v rfl hm
    · rw [ShmMutexGuard.markConsistent_of_not_unmarked (not_exists.mp hun)]
      exact .none rfl
  | destroy hv => exact .reset h hv rfl rfl
  | die t => exact .died t

theorem accounted_reset (h : Accounted home (claimsOf c.slots) c.mutexes)
    (hv : c.slots v = some g) :
    Accounted home (Function.update (claimsOf c.slots) v none)
      (g.reset (home v) c.mutexes) := by
  have hclaims := claimsOf_some hv
  cases hclaim : g.claim with
  | none =>
    rw [ShmMutexGuard.reset_of_not_claim hclaim, ← hclaim, ← hclaims, Function.update_eq_self]
    exact h
  | some r =>
    obtain ⟨m, b⟩ := r
    rw [ShmMutexGuard.reset_of_claim hclaim]
    exact h.release (hclaims.trans hclaim)

/-- Moves within a thread keep guards and mutexes in agreement, as everything else does. -/
theorem accounted_step (h : Accounted home (claimsOf c.slots) c.mutexes)
    (hs : GuardStep home c e c') (hl : e.Local home) :
    Accounted home (claimsOf c'.slots) c'.mutexes := by
  cases hs with
  | @construct v m g s hv hc =>
    have hnone := claimsOf_none hv
    rw [claimsOf_update, Option.bind_some]
    rcases ShmMutexGuard.construct_cases hc with ⟨b, hclaim, hm, -, rfl⟩ | ⟨hclaim, -, rfl⟩
    · rw [hclaim]
      exact h.acquire hm hnone b
    · rw [hclaim, ← hnone, Function.update_eq_self]
      exact h
  | moveConstruct hv hw =>
    rw [claimsOf_move hw]
    exact h.transfer (claimsOf_none hv) hl
  | @moveAssign v w g old hne hv hw =>
    have hreset := (accounted_reset h hv).transfer (Function.update_self ..) hl
    rw [Function.update_of_ne hne.symm, Function.update_comm hne, Function.update_idem] at hreset
    rw [claimsOf_move hw]
    exact hreset
  | selfAssign => exact h
  | @mark v g hv =>
    have hclaims := claimsOf_some hv
    rw [claimsOf_update, Option.bind_some]
    by_cases hun : ∃ m, g.claim = some (m, true)
    · obtain ⟨m, hclaim⟩ := hun
      have hm := h.state (hclaims.trans hclaim)
      rw [ShmMutexGuard.markConsistent_of_unmarked hclaim hm]
      exact h.mark (hclaims.trans hclaim)
    · rw [ShmMutexGuard.markConsistent_of_not_unmarked (not_exists.mp hun), ← hclaims,
        Function.update_eq_self]
      exact h
  | destroy hv =>
    rw [claimsOf_update]
    exact accounted_reset h hv
  | die t =>
    have hdead : claimsOf (fun v => if home v = t then none else c.slots v) =
        fun v => if home v = t then none else claimsOf c.slots v := by
      funext v
      rw [claimsOf]
      split_ifs <;> rfl
    rw [hdead]
    exact h.die t

theorem coherent_step (h : ∀ v g, c.slots v = some g → g.Coherent)
    (hs : GuardStep home c e c') : ∀ v g, c'.slots v = some g → g.Coherent := by
  have hupdate {slots : V → Option (ShmMutexGuard M)} {w : V} {x : Option (ShmMutexGuard M)}
      (hslots : ∀ v g, slots v = some g → g.Coherent) (hx : ∀ g, x = some g → g.Coherent) :
      ∀ v g, Function.update slots w x v = some g → g.Coherent := by
    intro v g hv
    rw [Function.update_apply] at hv
    split_ifs at hv
    · exact hx g hv
    · exact hslots v g hv
  have hsome {g : ShmMutexGuard M} (hg : g.Coherent) : ∀ g', some g = some g' → g'.Coherent := by
    rintro g' ⟨⟩
    exact hg
  cases hs with
  | construct _ hc => exact hupdate h (hsome (ShmMutexGuard.construct_coherent hc))
  | moveConstruct _ hw | moveAssign _ _ hw =>
    exact hupdate (hupdate h (hsome ShmMutexGuard.coherent_empty)) (hsome (h _ _ hw))
  | selfAssign => exact h
  | mark hv => exact hupdate h (hsome (ShmMutexGuard.markConsistent_coherent (h _ _ hv)))
  | destroy =>
    refine hupdate h ?_
    rintro g ⟨⟩
  | die t =>
    intro v g hv
    dsimp only at hv
    split_ifs at hv
    exact h v g hv

/-- What holds after every operation. -/
structure GuardInv (home : V → T) (log : List (GuardEvent T V M)) (c : GuardConfig T V M) :
    Prop where
  accounted : Accounted home (claimsOf c.slots) c.mutexes
  coherent : ∀ v g, c.slots v = some g → g.Coherent
  lost : ∀ m, c.mutexes m = .notRecoverable ↔ ∃ e ∈ log, e.released = some (m, true)

omit [DecidableEq T] [DecidableEq M] [DecidableEq V] in
theorem guardInv_initial : GuardInv home [] (.initial : GuardConfig T V M) where
  accounted := .initial
  coherent := by
    intro _ _ h
    cases h
  lost := by
    intro m
    simp [GuardConfig.initial]

theorem guardInv_step (h : GuardInv home log c) (hs : GuardStep home c e c')
    (hl : e.Local home) : GuardInv home (log ++ [e]) c' where
  accounted := accounted_step h.accounted hs hl
  coherent := coherent_step h.coherent hs
  lost := by
    intro m
    rw [(guardStep_effect h.accounted hs).lost_iff, h.lost m]
    simp only [List.mem_append, List.mem_singleton, or_and_right, exists_or, exists_eq_left]

/-- Guards that are moved about within their threads, in any way and with deaths at any time, hold
every mutex at most once, unlock what they hold and nothing else, and lose a mutex for good exactly
when they let go of it unmarked. -/
theorem guards_sound (h : Run (GuardStep home) (.initial : GuardConfig T V M) log c)
    (hl : ∀ e ∈ log, e.Local home) :
    GuardsSound home log c ∧ ∀ e c', GuardStep home c e c' → UnlocksOwn home c e c' := by
  have hinv : GuardInv home log c := by
    refine h.invariant (I := fun log c => (∀ e ∈ log, e.Local home) → GuardInv home log c)
      (fun _ => guardInv_initial) ?_ hl
    intro log c e c' _ ih hs hl
    have hlog : ∀ e' ∈ log, e'.Local home := fun e' he' => hl e' (List.mem_append_left _ he')
    exact guardInv_step (ih hlog) hs (hl e (by simp))
  refine ⟨⟨hinv.coherent, fun m t => hinv.accounted.owner_iff,
    fun v w m b b' => hinv.accounted.alone, ?_, hinv.lost⟩, ?_⟩
  · intro v m b hv
    rw [hinv.accounted.state hv]
    cases b <;> simp [taken]
  · intro e c' hs
    exact (guardStep_effect hinv.accounted hs).unlocksOwn

/-- A thread dies with the lock, and another one takes it over, moves its guard and marks it. -/
theorem guards_sound_taken_over :
    ∃ c : GuardConfig Bool (Bool × Bool) Unit,
      GuardsSound Prod.fst [.constructed (false, false) (), .died false,
        .constructed (true, false) (), .moved (true, true) (true, false), .marked (true, true)] c ∧
      c.mutexes () = .held true ∧ claimsOf c.slots (true, true) = some ((), false) := by
  have hlocked : Run (GuardStep Prod.fst) (.initial : GuardConfig Bool (Bool × Bool) Unit)
      [.constructed (false, false) ()] _ := .single (.construct rfl rfl)
  have hdead := hlocked.snoc (.die false)
  have htaken := hdead.snoc (.construct (v := (true, false)) (m := ()) rfl rfl)
  have hmoved := htaken.snoc (.moveConstruct (v := (true, true)) (w := (true, false)) rfl rfl)
  have hmarked := hmoved.snoc (.mark (v := (true, true)) rfl)
  exact ⟨_, (guards_sound hmarked (by simp [GuardEvent.Local])).1, rfl, rfl⟩

-- a guard that is handed to another thread and destroyed there leaves the mutex locked for ever
example : ∃ (log : List (GuardEvent Bool Bool Unit)) (c : GuardConfig Bool Bool Unit),
    Run (GuardStep id) .initial log c ∧ c.mutexes () = .held false ∧
      ∀ v, claimsOf c.slots v = none := by
  have hlocked : Run (GuardStep id) (.initial : GuardConfig Bool Bool Unit)
      [.constructed false ()] _ := .single (.construct rfl rfl)
  have hmoved := hlocked.snoc (.moveConstruct (v := true) (w := false) rfl rfl)
  have hdestroyed := hmoved.snoc (.destroy (v := true) rfl)
  exact ⟨_, _, hdestroyed, rfl, by decide⟩

end Proofs

end Shmfx
