import Mathlib.Algebra.BigOperators.Group.Finset.Basic
import Mathlib.Algebra.Order.BigOperators.Group.Finset
import Shmfx.Lib.Progress
import Shmfx.Lifecycle.MutexGuard

/-! The locks of the registry's calls: `lock_registry_control` under `register_segment`,
`unregister` and `list`, and the control mutexes of segments that `gc` takes first. What the calls
decide from shared data is left open. -/
namespace Shmfx

open Lts RobustMutex

universe u v

/-- The control mutexes: of the registry, which `gc` skips by name, and of the other segments. -/
inductive MutexName (O : Type v)
  | registry
  | segment (o : O)
  deriving DecidableEq

/-- What a thread goes on with after a call that locks the registry. -/
inductive Resume (O : Type v)
  | application
  | list (left : Nat) (sweep : Bool) (found : Nat)
  | gc (left : Nat)
  | gcHolding (guard : ShmMutexGuard (MutexName O)) (left : Nat)

/-- Where a thread stands; `left` counts the slots or entries its loop still has to visit, and
`sweep` tells a `list` that `gc` has called. -/
inductive LockPc (O : Type v)
  | idle
  | gone
  | list (left : Nat) (sweep : Bool) (found : Nat)
  | gc (left : Nat)
  | gcLock (o : O) (left : Nat)
  | gcMark (guard : ShmMutexGuard (MutexName O)) (left : Nat)
  | gcRecheck (guard : ShmMutexGuard (MutexName O)) (left : Nat)
  | gcLeave (guard : ShmMutexGuard (MutexName O)) (left : Nat)
  | lockControl (k : Resume O)
  | recover (guard : ShmMutexGuard (MutexName O)) (k : Resume O)
  | critical (guard : ShmMutexGuard (MutexName O)) (k : Resume O)

structure LockConfig (T : Type u) (O : Type v) where
  mutexes : MutexName O → State T
  threads : T → LockPc O

inductive LockEvent (T : Type u)
  | called (t : T)
  | stepped (t : T)
  | died (t : T)

variable {T : Type u} {O : Type v}

/-- A thread that is inside no call. -/
def LockPc.Quiet (pc : LockPc O) : Prop := pc = .idle ∨ pc = .gone

/-- The first steps of the calls: `register_segment` and `unregister`, `list`, and `gc`. -/
inductive LockPc.Starts : LockPc O → Prop
  | update : Starts (.lockControl .application)
  | list : Starts (.list maxRegistryEntries false 0)
  | gc : Starts (.list maxRegistryEntries true 0)

def Resume.pc : Resume O → LockPc O
  | .application => .idle
  | .list left sweep found => .list left sweep found
  | .gc left => .gc left
  | .gcHolding guard left => .gcLeave guard left

def LockConfig.initial : LockConfig T O := ⟨fun _ => .free, fun _ => .idle⟩

variable [DecidableEq T] [DecidableEq O]

/-- A step of the thread `t`. -/
inductive LockStep (t : T) (s : MutexName O → State T) :
    LockPc O → (MutexName O → State T) → LockPc O → Prop
  | slotRead {left found found' : Nat} {sweep : Bool} (hf : found' = found ∨ found' = found + 1) :
      LockStep t s (.list (left + 1) sweep found) s (.list left sweep found')
  | slotBusy {left found found' : Nat} {sweep : Bool} (hf : found' = found ∨ found' = found + 1) :
      LockStep t s (.list (left + 1) sweep found) s (.lockControl (.list left sweep found'))
  | listed {found : Nat} : LockStep t s (.list 0 false found) s .idle
  | sweep {found : Nat} : LockStep t s (.list 0 true found) s (.gc found)
  | swept : LockStep t s (.gc 0) s .idle
  | entryKept {left : Nat} : LockStep t s (.gc (left + 1)) s (.gc left)
  | entryUpdated {left : Nat} : LockStep t s (.gc (left + 1)) s (.lockControl (.gc left))
  | entryDead {left : Nat} (o : O) : LockStep t s (.gc (left + 1)) s (.gcLock o left)
  | gcRefused {o : O} {left : Nat} {g : ShmMutexGuard (MutexName O)} {s' : MutexName O → State T}
      (h : ShmMutexGuard.construct t (.segment o) s = some (g, s')) (hl : g.locked = false) :
      LockStep t s (.gcLock o left) (g.reset t s') (.gc left)
  | gcLocked {o : O} {left : Nat} {g : ShmMutexGuard (MutexName O)} {s' : MutexName O → State T}
      (h : ShmMutexGuard.construct t (.segment o) s = some (g, s')) (hl : g.locked = true) :
      LockStep t s (.gcLock o left) s'
        (if g.priorOwnerDead then .gcMark g left else .gcRecheck g left)
  -- the result of `mark_consistent` is not looked at
  | gcMarked {g : ShmMutexGuard (MutexName O)} {left : Nat} :
      LockStep t s (.gcMark g left) (g.markConsistent t s).2.2
        (.gcRecheck (g.markConsistent t s).2.1 left)
  | gcSpared {g : ShmMutexGuard (MutexName O)} {left : Nat} :
      LockStep t s (.gcRecheck g left) s (.gcLeave g left)
  | gcUnlinked {g : ShmMutexGuard (MutexName O)} {left : Nat} :
      LockStep t s (.gcRecheck g left) s (.lockControl (.gcHolding g left))
  | gcLeft {g : ShmMutexGuard (MutexName O)} {left : Nat} :
      LockStep t s (.gcLeave g left) (g.reset t s) (.gc left)
  | refused {k : Resume O} {g : ShmMutexGuard (MutexName O)} {s' : MutexName O → State T}
      (h : ShmMutexGuard.construct t .registry s = some (g, s')) (hl : g.locked = false) :
      LockStep t s (.lockControl k) (g.reset t s') k.pc
  | locked {k : Resume O} {g : ShmMutexGuard (MutexName O)} {s' : MutexName O → State T}
      (h : ShmMutexGuard.construct t .registry s = some (g, s')) (hl : g.locked = true) :
      LockStep t s (.lockControl k) s' (if g.priorOwnerDead then .recover g k else .critical g k)
  -- the guard is moved through the returned `Result`, which leaves empty ones behind
  | recovered {k : Resume O} {g : ShmMutexGuard (MutexName O)}
      (h : (g.markConsistent t s).1 = none) :
      LockStep t s (.recover g k) (g.markConsistent t s).2.2
        (.critical (g.markConsistent t s).2.1 k)
  | unrecovered {k : Resume O} {g : ShmMutexGuard (MutexName O)}
      (h : (g.markConsistent t s).1 ≠ none) :
      LockStep t s (.recover g k)
        ((g.markConsistent t s).2.1.reset t (g.markConsistent t s).2.2) k.pc
  | released {k : Resume O} {g : ShmMutexGuard (MutexName O)} :
      LockStep t s (.critical g k) (g.reset t s) k.pc

inductive LockingStep (c : LockConfig T O) : LockEvent T → LockConfig T O → Prop
  | call {t : T} {pc : LockPc O} (ht : c.threads t = .idle) (h : pc.Starts) :
      LockingStep c (.called t) ⟨c.mutexes, Function.update c.threads t pc⟩
  | step {t : T} {s : MutexName O → State T} {pc : LockPc O}
      (h : LockStep t c.mutexes (c.threads t) s pc) :
      LockingStep c (.stepped t) ⟨s, Function.update c.threads t pc⟩
  | die {t : T} (ht : c.threads t ≠ .gone) :
      LockingStep c (.died t)
        ⟨fun m => RobustMutex.die t (c.mutexes m), Function.update c.threads t .gone⟩

/-- The registry is updated by one thread at a time, which holds the mutex; whoever has taken the
mutex over recovers the registry first; and no mutex is ever lost. -/
structure LocksSound (c : LockConfig T O) : Prop where
  one : ∀ t t' g g' k k', (c.threads t = .critical g k ∨ c.threads t = .recover g k) →
    (c.threads t' = .critical g' k' ∨ c.threads t' = .recover g' k') → t = t'
  critical : ∀ t, (∃ g k, c.threads t = .critical g k) ↔ c.mutexes .registry = .held t
  recovering : ∀ t, (∃ g k, c.threads t = .recover g k) ↔ c.mutexes .registry = .inconsistent t
  recoverable : ∀ m, c.mutexes m ≠ .notRecoverable

section Claims

omit [DecidableEq T] [DecidableEq O]

def Resume.claim : Resume O → Option (MutexName O × Bool)
  | .gcHolding g _ => g.claim
  | .application | .list .. | .gc _ => none

/-- What the guard in `lock_registry_control` and its callers has to unlock. -/
def LockPc.registryClaim : LockPc O → Option (MutexName O × Bool)
  | .recover g _ | .critical g _ => g.claim
  | _ => none

/-- What the guard in the loop of `gc` has to unlock. -/
def LockPc.segmentClaim : LockPc O → Option (MutexName O × Bool)
  | .gcMark g _ | .gcRecheck g _ | .gcLeave g _ => g.claim
  | .lockControl k | .recover _ k | .critical _ k => k.claim
  | _ => none

/-- The two guards a thread may have. -/
def lockClaims (threads : T → LockPc O) : T × Bool → Option (MutexName O × Bool)
  | (t, true) => (threads t).registryClaim
  | (t, false) => (threads t).segmentClaim

def Resume.Sound : Resume O → Prop
  | .gcHolding g _ => ∃ o, g.claim = some (.segment o, false)
  | .application | .list .. | .gc _ => True

/-- The guards of a thread hold what its position says. -/
def LockPc.Sound : LockPc O → Prop
  | .gcMark g _ => ∃ o, g.claim = some (.segment o, true)
  | .gcRecheck g _ | .gcLeave g _ => ∃ o, g.claim = some (.segment o, false)
  | .lockControl k => k.Sound
  | .recover g k => g.claim = some (.registry, true) ∧ k.Sound
  | .critical g k => g.claim = some (.registry, false) ∧ k.Sound
  | .idle | .gone | .list .. | .gc _ | .gcLock .. => True

@[simp] theorem Resume.registryClaim_pc (k : Resume O) : k.pc.registryClaim = none := by
  cases k <;> rfl

@[simp] theorem Resume.segmentClaim_pc (k : Resume O) : k.pc.segmentClaim = k.claim := by
  cases k <;> rfl

theorem Resume.sound_pc {k : Resume O} (h : k.Sound) : k.pc.Sound := by
  cases k with
  | gcHolding => exact h
  | application | list | gc => exact trivial

variable [DecidableEq T] {threads : T → LockPc O} {t : T} {pc : LockPc O}

theorem lockClaims_update (pc : LockPc O) :
    lockClaims (Function.update threads t pc) =
      Function.update (Function.update (lockClaims threads) (t, true) pc.registryClaim) (t, false)
        pc.segmentClaim := by
  funext ⟨u, b⟩
  by_cases hu : u = t
  · subst hu
    cases b <;> simp [lockClaims]
  · cases b <;> simp [lockClaims, hu]

/-- The thread goes on with the claims it had. -/
theorem lockClaims_same (hr : pc.registryClaim = (threads t).registryClaim)
    (hs : pc.segmentClaim = (threads t).segmentClaim) :
    lockClaims (Function.update threads t pc) = lockClaims threads := by
  have htrue : pc.registryClaim = lockClaims threads (t, true) := hr
  have hfalse : pc.segmentClaim = lockClaims threads (t, false) := hs
  rw [lockClaims_update, htrue, Function.update_eq_self, hfalse, Function.update_eq_self]

theorem lockClaims_registry (hs : pc.segmentClaim = (threads t).segmentClaim) :
    lockClaims (Function.update threads t pc) =
      Function.update (lockClaims threads) (t, true) pc.registryClaim := by
  have hfalse : pc.segmentClaim =
      Function.update (lockClaims threads) (t, true) pc.registryClaim (t, false) := by
    rw [Function.update_of_ne (by simp)]
    exact hs
  rw [lockClaims_update, hfalse, Function.update_eq_self]

theorem lockClaims_segment (hr : pc.registryClaim = (threads t).registryClaim) :
    lockClaims (Function.update threads t pc) =
      Function.update (lockClaims threads) (t, false) pc.segmentClaim := by
  have htrue : pc.registryClaim = lockClaims threads (t, true) := hr
  rw [lockClaims_update, htrue, Function.update_eq_self]

end Claims

section Invariant

omit [DecidableEq T] [DecidableEq O]

variable {c : LockConfig T O} {t : T} {s : MutexName O → State T} {pc : LockPc O}
  {m : MutexName O} {g : ShmMutexGuard (MutexName O)}

structure LockInv (c : LockConfig T O) : Prop where
  accounted : Accounted Prod.fst (lockClaims c.threads) c.mutexes
  sound : ∀ t, (c.threads t).Sound
  recoverable : ∀ m, c.mutexes m ≠ .notRecoverable

theorem lockInv_initial : LockInv (.initial : LockConfig T O) where
  accounted := by
    have hnone : lockClaims (fun _ : T => (.idle : LockPc O)) = fun _ => none := by
      funext ⟨t, b⟩
      cases b <;> rfl
    rw [LockConfig.initial, hnone]
    exact .initial
  sound _ := trivial
  recoverable m := by simp [LockConfig.initial]

/-- A mutex that can be locked at all is locked. -/
theorem LockInv.constructed [DecidableEq O] (h : LockInv c)
    (hc : ShmMutexGuard.construct t m c.mutexes = some (g, s)) :
    g.claim = some (m, g.priorOwnerDead) ∧ (c.mutexes m).owner = none ∧
      s = Function.update c.mutexes m (taken t g.priorOwnerDead) := by
  rcases ShmMutexGuard.construct_cases hc with ⟨b, hclaim, hm, -, hs⟩ | ⟨-, hlost, -⟩
  · obtain rfl := (ShmMutexGuard.claim_eq_some_iff.mp hclaim).2.2
    exact ⟨hclaim, hm, hs⟩
  · exact absurd hlost (h.recoverable m)

theorem LockInv.recoverable_update [DecidableEq O] {x : State T} (h : LockInv c)
    (hx : x ≠ .notRecoverable) (m' : MutexName O) :
    Function.update c.mutexes m x m' ≠ .notRecoverable := by
  rw [Function.update_apply]
  split_ifs
  · exact hx
  · exact h.recoverable m'

variable [DecidableEq T]

/-- One thread has moved. -/
theorem LockInv.moved (h : LockInv c)
    (hacc : Accounted Prod.fst (lockClaims (Function.update c.threads t pc)) s) (hpc : pc.Sound)
    (hrec : ∀ m, s m ≠ .notRecoverable) : LockInv ⟨s, Function.update c.threads t pc⟩ where
  accounted := hacc
  sound := by
    intro u
    dsimp only
    rw [Function.update_apply]
    split_ifs
    · exact hpc
    · exact h.sound u
  recoverable := hrec

theorem LockInv.quiet (h : LockInv c) (hr : pc.registryClaim = (c.threads t).registryClaim)
    (hs : pc.segmentClaim = (c.threads t).segmentClaim) (hpc : pc.Sound) :
    LockInv ⟨c.mutexes, Function.update c.threads t pc⟩ := by
  refine h.moved ?_ hpc h.recoverable
  rw [lockClaims_same hr hs]
  exact h.accounted

end Invariant

section Safety

variable {c c' : LockConfig T O} {e : LockEvent T} {t : T} {s : MutexName O → State T}
  {pc : LockPc O} {m : MutexName O} {g : ShmMutexGuard (MutexName O)}

/-- A guard lets go of a mutex it has not taken over, or has marked. -/
theorem LockInv.unlocked (h : LockInv c) {v : T × Bool}
    (hv : lockClaims c.threads v = some (m, false)) (hg : g.claim = some (m, false)) :
    Accounted Prod.fst (Function.update (lockClaims c.threads) v none) (g.reset v.1 c.mutexes) ∧
      ∀ m', g.reset v.1 c.mutexes m' ≠ .notRecoverable := by
  rw [ShmMutexGuard.reset_of_claim hg]
  refine ⟨h.accounted.release hv, h.recoverable_update ?_⟩
  rw [Ne, unlock_eq_notRecoverable (h.accounted.owner hv), h.accounted.state hv]
  simp [taken]

theorem LockInv.marked (h : LockInv c) {v : T × Bool}
    (hv : lockClaims c.threads v = some (m, true)) (hg : g.claim = some (m, true)) :
    g.markConsistent v.1 c.mutexes =
        (none, ⟨some m, true, false, none⟩, Function.update c.mutexes m (.held v.1)) ∧
      Accounted Prod.fst (Function.update (lockClaims c.threads) v (some (m, false)))
        (Function.update c.mutexes m (.held v.1)) ∧
      ∀ m', Function.update c.mutexes m (.held v.1) m' ≠ .notRecoverable := by
  have hm := h.accounted.state hv
  refine ⟨ShmMutexGuard.markConsistent_of_unmarked hg hm, h.accounted.mark hv, ?_⟩
  exact h.recoverable_update (by simp)

theorem lockInv_lockStep (h : LockInv c) (hs : LockStep t c.mutexes (c.threads t) s pc) :
    LockInv ⟨s, Function.update c.threads t pc⟩ := by
  have hsound := h.sound t
  generalize hpc : c.threads t = pc₀ at hs hsound
  have hseg : lockClaims c.threads (t, false) = pc₀.segmentClaim := by rw [lockClaims, hpc]
  have hreg : lockClaims c.threads (t, true) = pc₀.registryClaim := by rw [lockClaims, hpc]
  cases hs with
  | slotRead | slotBusy | listed | sweep | swept | entryKept | entryUpdated | entryDead =>
    exact h.quiet (by rw [hpc]; rfl) (by rw [hpc]; rfl) trivial
  | gcSpared | gcUnlinked => exact h.quiet (by rw [hpc]; rfl) (by rw [hpc]; rfl) hsound
  | gcRefused hc hl | refused hc hl =>
    have hclaim := (h.constructed hc).1
    rw [(ShmMutexGuard.claim_eq_some_iff.mp hclaim).1] at hl
    cases hl
  | @gcLocked o left g s hc hl =>
    obtain ⟨hclaim, hm, rfl⟩ := h.constructed hc
    have hacc := h.accounted.acquire hm hseg g.priorOwnerDead
    rw [← hclaim] at hacc
    have hrec := h.recoverable_update (m := .segment o) (taken_ne_notRecoverable t g.priorOwnerDead)
    refine h.moved ?_ ?_ hrec
    · rw [lockClaims_segment (by rw [hpc]; split_ifs <;> rfl)]
      split_ifs <;> exact hacc
    · split_ifs with hd
      · exact ⟨o, hd ▸ hclaim⟩
      · rw [Bool.not_eq_true] at hd
        exact ⟨o, hd ▸ hclaim⟩
  | @gcMarked g left =>
    obtain ⟨o, hclaim⟩ := hsound
    obtain ⟨hmark, hacc, hrec⟩ := h.marked (v := (t, false)) (hseg.trans hclaim) hclaim
    rw [hmark]
    refine h.moved ?_ ⟨o, rfl⟩ hrec
    rw [lockClaims_segment (by rw [hpc]; rfl)]
    exact hacc
  | @gcLeft g left =>
    obtain ⟨o, hclaim⟩ := hsound
    obtain ⟨hacc, hrec⟩ := h.unlocked (v := (t, false)) (hseg.trans hclaim) hclaim
    refine h.moved ?_ trivial hrec
    rw [lockClaims_segment (by rw [hpc]; rfl)]
    exact hacc
  | @locked k g s hc hl =>
    obtain ⟨hclaim, hm, rfl⟩ := h.constructed hc
    have hacc := h.accounted.acquire hm hreg g.priorOwnerDead
    rw [← hclaim] at hacc
    have hrec := h.recoverable_update (m := .registry) (taken_ne_notRecoverable t g.priorOwnerDead)
    refine h.moved ?_ ?_ hrec
    · rw [lockClaims_registry (by rw [hpc]; split_ifs <;> rfl)]
      split_ifs <;> exact hacc
    · split_ifs with hd
      · exact ⟨hd ▸ hclaim, hsound⟩
      · rw [Bool.not_eq_true] at hd
        exact ⟨hd ▸ hclaim, hsound⟩
  | @recovered k g hok =>
    obtain ⟨hclaim, hk⟩ := hsound
    obtain ⟨hmark, hacc, hrec⟩ := h.marked (v := (t, true)) (hreg.trans hclaim) hclaim
    rw [hmark]
    refine h.moved ?_ ⟨rfl, hk⟩ hrec
    rw [lockClaims_registry (by rw [hpc]; rfl)]
    exact hacc
  | @unrecovered k g herr =>
    obtain ⟨hclaim, -⟩ := hsound
    rw [(h.marked (v := (t, true)) (hreg.trans hclaim) hclaim).1] at herr
    exact absurd rfl herr
  | @released k g =>
    obtain ⟨hclaim, hk⟩ := hsound
    obtain ⟨hacc, hrec⟩ := h.unlocked (v := (t, true)) (hreg.trans hclaim) hclaim
    refine h.moved ?_ (Resume.sound_pc hk) hrec
    rw [lockClaims_registry (by rw [hpc, Resume.segmentClaim_pc]; rfl), Resume.registryClaim_pc]
    exact hacc

theorem lockInv_step (h : LockInv c) (hs : LockingStep c e c') : LockInv c' := by
  cases hs with
  | call ht hpc =>
    cases hpc with
    | update | list | gc => exact h.quiet (by rw [ht]; rfl) (by rw [ht]; rfl) trivial
  | step hs => exact lockInv_lockStep h hs
  | @die t ht =>
    refine h.moved ?_ trivial fun m => ?_
    · have hdead : lockClaims (Function.update c.threads t .gone) =
          fun v => if v.1 = t then none else lockClaims c.threads v := by
        funext ⟨u, b⟩
        by_cases hu : u = t
        · subst hu
          cases b <;> simp [lockClaims, LockPc.registryClaim, LockPc.segmentClaim]
        · cases b <;> simp [lockClaims, hu]
      rw [hdead]
      exact h.accounted.die t
    · rw [Ne, die_eq_notRecoverable]
      exact h.recoverable m

theorem lockInv_run {log : List (LockEvent T)}
    (h : Run LockingStep (.initial : LockConfig T O) log c) : LockInv c :=
  h.invariant (I := fun _ => LockInv) lockInv_initial fun _ _ _ _ _ => lockInv_step

omit [DecidableEq T] [DecidableEq O] in
theorem LockPc.Sound.segmentClaim_ne {b : Bool} (h : pc.Sound) :
    pc.segmentClaim ≠ some (.registry, b) := by
  have hresume {k : Resume O} (hk : k.Sound) : k.claim ≠ some (.registry, b) := by
    intro hclaim
    cases k with
    | gcHolding g left =>
      obtain ⟨o, ho⟩ := hk
      cases ho.symm.trans hclaim
    | application | list | gc => cases hclaim
  intro hclaim
  cases pc with
  | gcMark | gcRecheck | gcLeave =>
    obtain ⟨o, ho⟩ := h
    cases ho.symm.trans hclaim
  | lockControl k => exact hresume h hclaim
  | recover g k | critical g k => exact hresume h.2 hclaim
  | idle | gone | list | gc | gcLock => cases hclaim

omit [DecidableEq T] [DecidableEq O] in
theorem LockPc.Sound.registryClaim_iff {b : Bool} (h : pc.Sound) :
    pc.registryClaim = some (.registry, b) ↔
      ∃ g k, pc = if b then .recover g k else .critical g k := by
  constructor
  · intro hclaim
    cases pc with
    | recover g k =>
      cases h.1.symm.trans hclaim
      exact ⟨g, k, rfl⟩
    | critical g k =>
      cases h.1.symm.trans hclaim
      exact ⟨g, k, rfl⟩
    | _ => cases hclaim
  · rintro ⟨g, k, rfl⟩
    cases b <;> exact h.1

omit [DecidableEq T] [DecidableEq O] in
/-- The registry mutex belongs to a thread that recovers the registry, or else updates it. -/
theorem LockInv.registry_iff {b : Bool} (h : LockInv c) (t : T) :
    c.mutexes .registry = taken t b ↔
      ∃ g k, c.threads t = if b then .recover g k else .critical g k := by
  rw [← (h.sound t).registryClaim_iff]
  constructor
  · intro htaken
    have howner : (c.mutexes .registry).owner = some t := by rw [htaken, owner_taken]
    obtain ⟨⟨u, place⟩, b', hclaim⟩ := h.accounted.claimed howner
    obtain ⟨rfl, rfl⟩ := taken_inj.mp (htaken.symm.trans (h.accounted.state hclaim))
    cases place with
    | false => exact absurd hclaim (h.sound _).segmentClaim_ne
    | true => exact hclaim
  · intro hclaim
    exact h.accounted.state (v := (t, true)) hclaim

/-- However the calls are interleaved and wherever threads die in them. -/
theorem registry_locks_sound {log : List (LockEvent T)}
    (h : Run LockingStep (.initial : LockConfig T O) log c) : LocksSound c := by
  have hinv := lockInv_run h
  have hheld (t : T) : (∃ g k, c.threads t = .critical g k) ↔ c.mutexes .registry = .held t :=
    (hinv.registry_iff (b := false) t).symm
  have hinconsistent (t : T) :
      (∃ g k, c.threads t = .recover g k) ↔ c.mutexes .registry = .inconsistent t :=
    (hinv.registry_iff (b := true) t).symm
  refine ⟨?_, hheld, hinconsistent, hinv.recoverable⟩
  have howner {t : T} {g : ShmMutexGuard (MutexName O)} {k : Resume O}
      (ht : c.threads t = .critical g k ∨ c.threads t = .recover g k) :
      (c.mutexes .registry).owner = some t := by
    rcases ht with ht | ht
    · rw [(hheld t).mp ⟨g, k, ht⟩]
      rfl
    · rw [(hinconsistent t).mp ⟨g, k, ht⟩]
      rfl
  intro t t' g g' k k' ht ht'
  exact Option.some.inj ((howner ht).symm.trans (howner ht'))

/-- A thread dies while it updates the registry, and another one is about to recover it. -/
theorem takeover_run : ∃ (c : LockConfig Bool Unit) (g : ShmMutexGuard (MutexName Unit)),
    Run LockingStep .initial
      [.called false, .stepped false, .died false, .called true, .stepped true] c ∧
      c.threads true = .recover g .application := by
  have hcalled : Run LockingStep (.initial : LockConfig Bool Unit) [.called false] _ :=
    .single (.call rfl .update)
  have hlocked := hcalled.snoc (.step (t := false) (.locked rfl rfl))
  have hdead := hlocked.snoc (.die (t := false) (by simp))
  have hagain := hdead.snoc (.call (t := true) rfl .update)
  have hrecover := hagain.snoc (.step (t := true) (.locked rfl rfl))
  exact ⟨_, _, hrecover, rfl⟩

theorem registry_locks_sound_takeover : ∃ c : LockConfig Bool Unit,
    LocksSound c ∧ c.mutexes .registry = .inconsistent true := by
  obtain ⟨c, g, hrun, hpc⟩ := takeover_run
  have hsound := registry_locks_sound hrun
  exact ⟨c, hsound, (hsound.recovering true).mp ⟨g, .application, hpc⟩⟩

end Safety

/-- The steps a sweep of `left` entries may still take. -/
def sweepWork (left : Nat) : Nat := 1 + 8 * left

/-- The same of a `list`, with the sweep that may follow. -/
def listWork (left found : Nat) : Nat := 2 + 4 * left + 8 * (left + found)

def Resume.work : Resume O → Nat
  | .application => 0
  | .list left _ found => listWork left found
  | .gc left => sweepWork left
  | .gcHolding _ left => 1 + sweepWork left

/-- The steps a thread may still take in its call, when it waits for no mutex. -/
def LockPc.work : LockPc O → Nat
  | .idle | .gone => 0
  | .list left _ found => listWork left found
  | .gc left => sweepWork left
  | .gcLock _ left => 7 + sweepWork left
  | .gcMark _ left => 6 + sweepWork left
  | .gcRecheck _ left => 5 + sweepWork left
  | .gcLeave _ left => 1 + sweepWork left
  | .lockControl k => 3 + k.work
  | .recover _ k => 2 + k.work
  | .critical _ k => 1 + k.work

/-- The mutex a thread is about to lock. -/
def LockPc.awaits : LockPc O → Option (MutexName O)
  | .gcLock o _ => some (.segment o)
  | .lockControl _ => some .registry
  | _ => none

def LockEvent.isStep : LockEvent T → Bool
  | .stepped _ => true
  | .called _ | .died _ => false

/-- Once no new call is made, only so many steps are left, and they end with every call over. -/
structure CallsReturn [Fintype T] (c : LockConfig T O) : Prop where
  bounded : ∀ log c', Run LockingStep c log c' → (∀ t, .called t ∉ log) →
    log.countP LockEvent.isStep ≤ ∑ t, (c.threads t).work
  unstuck : ∀ log c', Run LockingStep c log c' → (∀ t c'', ¬ LockingStep c' (.stepped t) c'') →
    ∀ t, (c'.threads t).Quiet

section Liveness

variable {c c' : LockConfig T O} {e : LockEvent T} {t u : T} {s s' : MutexName O → State T}
  {pc pc' : LockPc O} {m : MutexName O}

omit [DecidableEq T] [DecidableEq O] in
@[simp] theorem Resume.work_pc (k : Resume O) : k.pc.work = k.work := by
  cases k <;> rfl

/-- Every step of a thread uses up some of its work. -/
theorem work_lockStep (h : LockStep t s pc s' pc') : pc'.work < pc.work := by
  cases h with
  | slotRead hf | slotBusy hf => simp only [LockPc.work, Resume.work, listWork]; omega
  | listed | sweep => simp only [LockPc.work, listWork, sweepWork]; omega
  | swept | entryKept => simp only [LockPc.work, sweepWork]; omega
  | entryUpdated => simp only [LockPc.work, Resume.work, sweepWork]; omega
  | entryDead => simp only [LockPc.work, sweepWork]; omega
  | gcRefused => simp only [LockPc.work]; omega
  | gcLocked => split_ifs <;> simp only [LockPc.work] <;> omega
  | gcMarked | gcSpared => simp only [LockPc.work]; omega
  | gcUnlinked => simp only [LockPc.work, Resume.work]; omega
  | gcLeft => simp only [LockPc.work]; omega
  | refused => rw [Resume.work_pc, LockPc.work]; omega
  | locked => split_ifs <;> simp only [LockPc.work] <;> omega
  | recovered => simp only [LockPc.work]; omega
  | unrecovered | released => rw [Resume.work_pc, LockPc.work]; omega

omit [DecidableEq O] in
theorem work_update_le [Fintype T] {threads : T → LockPc O} (h : pc.work ≤ (threads t).work) :
    ∑ u, (Function.update threads t pc u).work ≤ ∑ u, (threads u).work := by
  refine Finset.sum_le_sum fun u _ => ?_
  rw [Function.update_apply]
  split_ifs with hu
  · exact hu ▸ h
  · exact le_rfl

omit [DecidableEq O] in
theorem work_update_lt [Fintype T] {threads : T → LockPc O} (h : pc.work < (threads t).work) :
    ∑ u, (Function.update threads t pc u).work < ∑ u, (threads u).work := by
  refine Finset.sum_lt_sum (fun u _ => ?_) ⟨t, Finset.mem_univ t, ?_⟩
  · rw [Function.update_apply]
    split_ifs with hu
    · exact hu ▸ h.le
    · exact le_rfl
  · rw [Function.update_self]
    exact h

/-- A thread in a call goes on unless it waits for a mutex that somebody holds. -/
theorem lockStep_enabled (hq : ¬ pc.Quiet)
    (hw : ∀ m, pc.awaits = some m → (s m).owner = none) : ∃ s' pc', LockStep t s pc s' pc' := by
  have hconstruct {m : MutexName O} (hm : pc.awaits = some m) :
      ∃ g s', ShmMutexGuard.construct t m s = some (g, s') := by
    cases hc : ShmMutexGuard.construct t m s with
    | none =>
      obtain ⟨u, hu⟩ := ShmMutexGuard.construct_eq_none_iff.mp hc
      cases (hw m hm).symm.trans hu
    | some x => exact ⟨x.1, x.2, rfl⟩
  cases pc with
  | idle => exact absurd (.inl rfl) hq
  | gone => exact absurd (.inr rfl) hq
  | list left sweep found =>
    cases left with
    | zero => cases sweep with
      | false => exact ⟨_, _, .listed⟩
      | true => exact ⟨_, _, .sweep⟩
    | succ left => exact ⟨_, _, .slotRead (.inl rfl)⟩
  | gc left =>
    cases left with
    | zero => exact ⟨_, _, .swept⟩
    | succ left => exact ⟨_, _, .entryKept⟩
  | gcLock o left =>
    obtain ⟨g, s', hc⟩ := hconstruct rfl
    cases hl : g.locked with
    | false => exact ⟨_, _, .gcRefused hc hl⟩
    | true => exact ⟨_, _, .gcLocked hc hl⟩
  | gcMark g left => exact ⟨_, _, .gcMarked⟩
  | gcRecheck g left => exact ⟨_, _, .gcSpared⟩
  | gcLeave g left => exact ⟨_, _, .gcLeft⟩
  | lockControl k =>
    obtain ⟨g, s', hc⟩ := hconstruct rfl
    cases hl : g.locked with
    | false => exact ⟨_, _, .refused hc hl⟩
    | true => exact ⟨_, _, .locked hc hl⟩
  | recover g k =>
    by_cases hok : (g.markConsistent t s).1 = none
    · exact ⟨_, _, .recovered hok⟩
    · exact ⟨_, _, .unrecovered hok⟩
  | critical g k => exact ⟨_, _, .released⟩

omit [DecidableEq T] [DecidableEq O] in
/-- The holder of the registry's mutex waits for nothing. -/
theorem LockInv.registry_holder (h : LockInv c) (ho : (c.mutexes .registry).owner = some u) :
    ¬ (c.threads u).Quiet ∧ (c.threads u).awaits = none := by
  obtain ⟨⟨v, b⟩, d, hv, hclaim⟩ := h.accounted.owner_iff.mp ho
  obtain rfl : v = u := hv
  have hsound := h.sound v
  cases b with
  | true =>
    rw [lockClaims] at hclaim
    generalize c.threads v = pc at hclaim hsound
    cases pc <;> simp_all [LockPc.registryClaim, LockPc.Quiet, LockPc.awaits]
  | false =>
    rw [lockClaims] at hclaim
    generalize c.threads v = pc at hclaim hsound
    have hother {g : ShmMutexGuard (MutexName O)} {o : O} {b : Bool}
        (hg : g.claim = some (.segment o, b)) : g.claim ≠ some (.registry, d) := by
      rw [hg]
      simp
    have hresume {k : Resume O} (hk : k.Sound) : k.claim ≠ some (.registry, d) := by
      cases k with
      | gcHolding g left =>
        obtain ⟨o, hg⟩ := hk
        exact hother hg
      | application | list | gc => simp [Resume.claim]
    cases pc with
    | gcMark | gcRecheck | gcLeave =>
      obtain ⟨o, hg⟩ := hsound
      exact absurd hclaim (hother hg)
    | lockControl => exact absurd hclaim (hresume hsound)
    | recover | critical => exact absurd hclaim (hresume hsound.2)
    | idle | gone | list | gc | gcLock => cases hclaim

omit [DecidableEq T] [DecidableEq O] in
/-- The holder of another control mutex waits for the registry's at most. -/
theorem LockInv.segment_holder {o : O} (h : LockInv c)
    (ho : (c.mutexes (.segment o)).owner = some u) :
    ¬ (c.threads u).Quiet ∧ ∀ m, (c.threads u).awaits = some m → m = .registry := by
  obtain ⟨⟨v, b⟩, d, hv, hclaim⟩ := h.accounted.owner_iff.mp ho
  obtain rfl : v = u := hv
  have hsound := h.sound v
  cases b with
  | true =>
    rw [lockClaims] at hclaim
    generalize c.threads v = pc at hclaim hsound
    cases pc <;> simp_all [LockPc.registryClaim, LockPc.Sound]
  | false =>
    rw [lockClaims] at hclaim
    generalize c.threads v = pc at hclaim
    cases pc <;> simp_all [LockPc.segmentClaim, LockPc.Quiet, LockPc.awaits]

/-- While some call is under way, some thread can go on with its own. -/
theorem LockInv.enabled (h : LockInv c) (ht : ¬ (c.threads t).Quiet) :
    ∃ u c', LockingStep c (.stepped u) c' := by
  have hgo {u : T} (hu : ¬ (c.threads u).Quiet)
      (hw : ∀ m, (c.threads u).awaits = some m → (c.mutexes m).owner = none) :
      ∃ u c', LockingStep c (.stepped u) c' := by
    obtain ⟨s', pc', hs⟩ := lockStep_enabled (t := u) hu hw
    exact ⟨u, _, .step hs⟩
  -- the mutexes are ranked: whoever waits for the registry's waits for a thread that does not wait
  have hregistry {u : T} (hu : ¬ (c.threads u).Quiet)
      (hw : ∀ m, (c.threads u).awaits = some m → m = .registry) :
      ∃ u c', LockingStep c (.stepped u) c' := by
    cases ho : (c.mutexes .registry).owner with
    | none =>
      refine hgo hu fun m hm => ?_
      rw [hw m hm]
      exact ho
    | some w =>
      obtain ⟨hquiet, hnone⟩ := h.registry_holder ho
      refine hgo hquiet fun m hm => ?_
      cases hnone.symm.trans hm
  by_cases hw : ∀ m, (c.threads t).awaits = some m → m = .registry
  · exact hregistry ht hw
  · push Not at hw
    obtain ⟨m, hm, hne⟩ := hw
    cases m with
    | registry => exact absurd rfl hne
    | segment o =>
      cases ho : (c.mutexes (.segment o)).owner with
      | none =>
        refine hgo ht fun m' hm' => ?_
        cases hm.symm.trans hm'
        exact ho
      | some u =>
        obtain ⟨hquiet, hw⟩ := h.segment_holder ho
        exact hregistry hquiet hw

/-- No interleaving of the calls, with deaths at any time, makes them wait for each other for
ever. -/
theorem registry_calls_return [Fintype T] {log : List (LockEvent T)}
    (h : Run LockingStep (.initial : LockConfig T O) log c) : CallsReturn c := by
  constructor
  · intro log' c' h' hno
    have hcount := Run.count_le (μ := fun c => ∑ t, (c.threads t).work) (p := LockEvent.isStep)
      (q := fun e => ∀ t, e ≠ .called t) (B := fun _ => True) ?_ trivial h' ?_
    · omega
    · intro c e c' _ hq hs
      refine ⟨trivial, ?_⟩
      cases hs with
      | @call t => exact absurd rfl (hq t)
      | step hs => exact work_update_lt (work_lockStep hs)
      | die => exact work_update_le (Nat.zero_le _)
    · rintro e he t rfl
      exact hno t he
  · intro log' c' h' hstuck t
    by_contra ht
    obtain ⟨u, c'', hs⟩ := (lockInv_run (h.append h')).enabled ht
    exact hstuck u c'' hs

theorem registry_calls_return_takeover : ∃ c : LockConfig Bool Unit,
    CallsReturn c ∧ ¬ (c.threads true).Quiet := by
  obtain ⟨c, g, hrun, hpc⟩ := takeover_run
  refine ⟨c, registry_calls_return hrun, ?_⟩
  simp [hpc, LockPc.Quiet]

end Liveness

end Shmfx
