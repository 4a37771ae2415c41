import Mathlib.Logic.Function.Basic
import Mathlib.Tactic.Common

/-! Robust mutexes of threads that may die holding them, as POSIX has them. -/
namespace RobustMutex

universe u

/-- Who has the mutex, and whether what it protects is known to be whole. -/
inductive State (T : Type u)
  | free
  | held (t : T)
  /-- Taken over from a dead owner and not marked consistent yet. -/
  | inconsistent (t : T)
  /-- The owner died; the next thread to lock it is told. -/
  | abandoned
  | notRecoverable
  deriving DecidableEq

/-- What a call of `lock` that returns reports. -/
inductive LockResult
  | ok
  | ownerDead
  | notRecoverable
  deriving DecidableEq

variable {T : Type u} {s s' : State T} {t u : T} {r : LockResult}

def State.owner : State T → Option T
  | .held t | .inconsistent t => some t
  | .free | .abandoned | .notRecoverable => none

/-- A mutex that has an owner makes every caller wait, its owner too. -/
def lock (t : T) : State T → Option (LockResult × State T)
  | .free => some (.ok, .held t)
  | .abandoned => some (.ownerDead, .inconsistent t)
  | .notRecoverable => some (.notRecoverable, .notRecoverable)
  | .held _ | .inconsistent _ => none

/-- Only the owner unlocks; when it has not marked a mutex it took over, nobody can lock it any
more. -/
def unlock [DecidableEq T] (t : T) : State T → State T
  | .held u => if u = t then .free else .held u
  | .inconsistent u => if u = t then .notRecoverable else .inconsistent u
  | s => s

/-- Whether the call succeeds, and the state it leaves. -/
def consistent [DecidableEq T] (t : T) : State T → Bool × State T
  | .inconsistent u => if u = t then (true, .held u) else (false, .inconsistent u)
  | s => (false, s)

/-- The death of a thread. -/
def die [DecidableEq T] (t : T) : State T → State T
  | .held u => if u = t then .abandoned else .held u
  | .inconsistent u => if u = t then .abandoned else .inconsistent u
  | s => s

theorem lock_eq_none_iff : lock t s = none ↔ ∃ u, s.owner = some u := by
  cases s <;> simp [lock, State.owner]

/-- A call of `lock` that returns has found the mutex without an owner. -/
theorem lock_cases (h : lock t s = some (r, s')) :
    s = .free ∧ r = .ok ∧ s' = .held t ∨
      s = .abandoned ∧ r = .ownerDead ∧ s' = .inconsistent t ∨
      s = .notRecoverable ∧ r = .notRecoverable ∧ s' = .notRecoverable := by
  cases s with
  | free =>
    cases h
    exact .inl ⟨rfl, rfl, rfl⟩
  | abandoned =>
    cases h
    exact .inr (.inl ⟨rfl, rfl, rfl⟩)
  | notRecoverable =>
    cases h
    exact .inr (.inr ⟨rfl, rfl, rfl⟩)
  | held | inconsistent => cases h

section Deaths

variable [DecidableEq T]

theorem owner_unlock (h : s.owner = some t) : (unlock t s).owner = none := by
  cases s <;> simp_all [unlock, State.owner]

theorem unlock_eq_notRecoverable (h : s.owner = some t) :
    unlock t s = .notRecoverable ↔ s = .inconsistent t := by
  cases s <;> simp_all [unlock, State.owner]

theorem owner_die : (die t s).owner = some u ↔ s.owner = some u ∧ u ≠ t := by
  cases s with
  | held v | inconsistent v =>
    by_cases hv : v = t
    · simp only [die, hv, if_true, State.owner]
      grind
    · simp only [die, hv, if_false, State.owner]
      grind
  | free | abandoned | notRecoverable => simp [die, State.owner]

/-- A death changes only what the thread held. -/
theorem die_of_owner_ne (h : s.owner ≠ some t) : die t s = s := by
  cases s with
  | held v | inconsistent v =>
    rw [die, if_neg]
    rintro rfl
    exact h rfl
  | free | abandoned | notRecoverable => rfl

theorem die_eq_notRecoverable : die t s = .notRecoverable ↔ s = .notRecoverable := by
  cases s with
  | held v | inconsistent v => simp only [die]; split_ifs <;> simp
  | free | abandoned | notRecoverable => simp [die]

end Deaths

section Claims

universe v w

variable {V : Type v} {M : Type w} {home : V → T} {claim : V → Option (M × Bool)}
  {mutexes : M → State T} {v : V} {m : M} {b : Bool}

/-- The state of a mutex that `t` has locked; `b` when it was taken over and not marked. -/
def taken (t : T) : Bool → State T
  | true => .inconsistent t
  | false => .held t

@[simp] theorem owner_taken (t : T) (b : Bool) : (taken t b).owner = some t := by
  cases b <;> rfl

theorem taken_ne_notRecoverable (t : T) (b : Bool) : taken t b ≠ .notRecoverable := by
  cases b <;> simp [taken]

theorem taken_inj {t u : T} {b b' : Bool} : taken t b = taken u b' ↔ t = u ∧ b = b' := by
  cases b <;> cases b' <;> simp [taken]

/-- The places of a program that claim a mutex, each at home with a thread, are accounted for by
the mutexes: a claimed one is held by the thread the claim is at home with, by no other claim,
and a mutex that is held is claimed. -/
structure Accounted (home : V → T) (claim : V → Option (M × Bool)) (mutexes : M → State T) :
    Prop where
  state : ∀ {v m b}, claim v = some (m, b) → mutexes m = taken (home v) b
  alone : ∀ {v w m b b'}, claim v = some (m, b) → claim w = some (m, b') → v = w
  claimed : ∀ {m t}, (mutexes m).owner = some t → ∃ v b, claim v = some (m, b)

namespace Accounted

theorem initial : Accounted home (fun _ => none) fun _ : M => (.free : State T) where
  state := by
    intro _ _ _ h
    cases h
  alone := by
    intro _ _ _ _ _ h
    cases h
  claimed := by
    intro _ _ h
    cases h

theorem owner (h : Accounted home claim mutexes) (hv : claim v = some (m, b)) :
    (mutexes m).owner = some (home v) := by
  rw [h.state hv, owner_taken]

/-- A mutex is held by the thread that some claim on it is at home with. -/
theorem owner_iff (h : Accounted home claim mutexes) :
    (mutexes m).owner = some t ↔ ∃ v b, home v = t ∧ claim v = some (m, b) := by
  constructor
  · intro ho
    obtain ⟨v, b, hv⟩ := h.claimed ho
    exact ⟨v, b, Option.some.inj ((h.owner hv).symm.trans ho), hv⟩
  · rintro ⟨v, b, rfl, hv⟩
    exact h.owner hv

/-- A thread dies, and its places with it. -/
theorem die [DecidableEq T] (h : Accounted home claim mutexes) (t : T) :
    Accounted home (fun v => if home v = t then none else claim v)
      fun m => RobustMutex.die t (mutexes m) := by
  constructor
  · intro v m b hv
    split_ifs at hv with hhome
    rw [die_of_owner_ne, h.state hv]
    rw [h.owner hv]
    intro ho
    exact hhome (Option.some.inj ho)
  · intro v w m b b' hv hw
    split_ifs at hv hw
    exact h.alone hv hw
  · intro m u ho
    obtain ⟨ho, hne⟩ := owner_die.mp ho
    obtain ⟨v, b, hv⟩ := h.claimed ho
    refine ⟨v, b, ?_⟩
    rw [if_neg, hv]
    rw [Option.some.inj ((h.owner hv).symm.trans ho)]
    exact hne

variable [DecidableEq V]

/-- A claim moves to another place of the same thread. -/
theorem transfer {w : V} (h : Accounted home claim mutexes) (hv : claim v = none)
    (hhome : home v = home w) :
    Accounted home (Function.update (Function.update claim w none) v (claim w)) mutexes := by
  -- every claim stands where it stood, but for the one of `w`, now at `v`
  have hfrom {x : V} {m : M} {b : Bool}
      (hx : Function.update (Function.update claim w none) v (claim w) x = some (m, b)) :
      x = v ∧ claim w = some (m, b) ∨ x ≠ v ∧ x ≠ w ∧ claim x = some (m, b) := by
    rw [Function.update_apply] at hx
    split_ifs at hx with hxv
    · exact .inl ⟨hxv, hx⟩
    · rw [Function.update_apply] at hx
      split_ifs at hx with hxw
      exact .inr ⟨hxv, hxw, hx⟩
  constructor
  · intro x m b hx
    rcases hfrom hx with ⟨rfl, hw⟩ | ⟨-, -, hx⟩
    · rw [hhome, h.state hw]
    · exact h.state hx
  · intro x y m b b' hx hy
    rcases hfrom hx with ⟨rfl, hwx⟩ | ⟨-, hxw, hx'⟩ <;>
      rcases hfrom hy with ⟨rfl, hwy⟩ | ⟨-, hyw, hy'⟩
    · rfl
    · exact absurd (h.alone hy' hwx) hyw
    · exact absurd (h.alone hx' hwy) hxw
    · exact h.alone hx' hy'
  · intro m t ho
    obtain ⟨x, b, hx⟩ := h.claimed ho
    by_cases hxw : x = w
    · exact ⟨v, b, by rw [Function.update_self, ← hxw, hx]⟩
    · refine ⟨x, b, ?_⟩
      rw [Function.update_of_ne, Function.update_of_ne hxw, hx]
      rintro rfl
      cases hv.symm.trans hx

variable [DecidableEq M]

theorem acquire (h : Accounted home claim mutexes) (hm : (mutexes m).owner = none)
    (hv : claim v = none) (b : Bool) :
    Accounted home (Function.update claim v (some (m, b)))
      (Function.update mutexes m (taken (home v) b)) := by
  have hfree {w : V} {b' : Bool} : claim w ≠ some (m, b') := by
    intro hw
    cases hm.symm.trans (h.owner hw)
  constructor
  · intro w m' b' hw
    rw [Function.update_apply] at hw
    split_ifs at hw with hwv
    · cases hw
      rw [Function.update_self, hwv]
    · rw [Function.update_of_ne (by rintro rfl; exact hfree hw), h.state hw]
  · intro w w' m' b' b'' hw hw'
    rw [Function.update_apply] at hw hw'
    split_ifs at hw hw' with hwv hwv' hwv'
    · exact hwv.trans hwv'.symm
    · cases hw
      exact absurd hw' hfree
    · cases hw'
      exact absurd hw hfree
    · exact h.alone hw hw'
  · intro m' t ho
    by_cases hm' : m' = m
    · exact ⟨v, b, by rw [Function.update_self, hm']⟩
    · rw [Function.update_of_ne hm'] at ho
      obtain ⟨w, b', hw⟩ := h.claimed ho
      refine ⟨w, b', ?_⟩
      rw [Function.update_of_ne, hw]
      rintro rfl
      cases hv.symm.trans hw

/-- What was taken over is marked consistent. -/
theorem mark (h : Accounted home claim mutexes) (hv : claim v = some (m, true)) :
    Accounted home (Function.update claim v (some (m, false)))
      (Function.update mutexes m (.held (home v))) := by
  constructor
  · intro w m' b' hw
    rw [Function.update_apply] at hw
    split_ifs at hw with hwv
    · cases hw
      rw [Function.update_self, hwv]
      rfl
    · rw [Function.update_of_ne, h.state hw]
      rintro rfl
      exact hwv (h.alone hw hv)
  · intro w w' m' b' b'' hw hw'
    rw [Function.update_apply] at hw hw'
    split_ifs at hw hw' with hwv hwv' hwv'
    · exact hwv.trans hwv'.symm
    · cases hw
      exact hwv.trans (h.alone hv hw')
    · cases hw'
      exact (h.alone hw hv).trans hwv'.symm
    · exact h.alone hw hw'
  · intro m' t ho
    by_cases hm' : m' = m
    · exact ⟨v, false, by rw [Function.update_self, hm']⟩
    · rw [Function.update_of_ne hm'] at ho
      obtain ⟨w, b', hw⟩ := h.claimed ho
      refine ⟨w, b', ?_⟩
      rw [Function.update_of_ne, hw]
      rintro rfl
      cases hv.symm.trans hw
      exact hm' rfl

/-- A claim is given up together with the mutex. -/
theorem release [DecidableEq T] (h : Accounted home claim mutexes) (hv : claim v = some (m, b)) :
    Accounted home (Function.update claim v none)
      (Function.update mutexes m (unlock (home v) (mutexes m))) := by
  have hother {w : V} {m' : M} {b' : Bool} (hw : claim w = some (m', b')) (hwv : w ≠ v) :
      m' ≠ m := by
    rintro rfl
    exact hwv (h.alone hw hv)
  constructor
  · intro w m' b' hw
    rw [Function.update_apply] at hw
    split_ifs at hw with hwv
    rw [Function.update_of_ne (hother hw hwv), h.state hw]
  · intro w w' m' b' b'' hw hw'
    rw [Function.update_apply] at hw hw'
    split_ifs at hw hw'
    exact h.alone hw hw'
  · intro m' t ho
    by_cases hm' : m' = m
    · rw [hm', Function.update_self, owner_unlock (h.owner hv)] at ho
      cases ho
    · rw [Function.update_of_ne hm'] at ho
      obtain ⟨w, b', hw⟩ := h.claimed ho
      refine ⟨w, b', ?_⟩
      rw [Function.update_of_ne, hw]
      rintro rfl
      cases hv.symm.trans hw
      exact hm' rfl

end Accounted

end Claims

end RobustMutex
