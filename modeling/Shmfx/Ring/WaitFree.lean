import Mathlib.Data.Finset.Card
import Shmfx.Lib.Progress
import Shmfx.Ring.Atomic

/-! `try_push` and `try_pop` are wait-free: whatever the ring holds and whatever the others do, a
call is over after so many of its own accesses. -/
namespace Shmfx

open Lts

universe u

/-- The turns of the retry loop that are left. -/
def turnsLeft (retry : Nat) : Nat := max (mpscCasRetryBudget - retry) 1

/-- The accesses a `try_push` may still make, on records of at most `limit` payload bytes. -/
def PushPc.work (limit : Nat) : PushPc → Nat
  | .idle => 0
  | .enter a => 2 * mpscCasRetryBudget + a.written limit + 8
  | .loadTail a => 2 * mpscCasRetryBudget + a.written limit + 7
  | .loadSeq a _ retry => 2 * turnsLeft retry + a.written limit + 6
  | .compareExchange a _ retry | .reloadTail a retry => 2 * turnsLeft retry + a.written limit + 5
  | .addLost _ => 1
  | .storeLen a _ => a.written limit + 6
  | .storeType a _ => a.written limit + 5
  | .storeFlags a _ => a.written limit + 4
  | .storeUser a _ => a.written limit + 3
  | .copy _ _ todo => todo.card + 2
  | .publish .. => 1

/-- The accesses a `try_pop` may still make. -/
def PopPc.work (limit : Nat) : PopPc → Nat
  | .idle => 0
  | .enter out => min out.length limit + 10
  | .loadHead out => min out.length limit + 9
  | .loadSeq out _ => min out.length limit + 8
  | .loadLen out _ => min out.length limit + 7
  | .copy _ _ _ todo => todo.card + 6
  | .loadType .. => 5
  | .loadFlags .. => 4
  | .loadUser .. => 3
  | .releaseSlot .. => 2
  | .releaseHead .. => 1

variable {P : Type u}

namespace RingEvent

def isPop : RingEvent P → Bool
  | .pop _ => true
  | .push .. => false

def isPushOf [DecidableEq P] (p : P) : RingEvent P → Bool
  | .push q _ => q = p
  | .pop _ => false

end RingEvent

section Accesses

variable {r r' : Ring} {pc pc' : PushPc} {k k' : PopPc} {limit : Nat}

theorem work_loopHead (limit : Nat) (a : Push) (pos retry : Nat) :
    (loopHead a pos retry).work limit ≤
      2 * (mpscCasRetryBudget - retry) + a.written limit + 6 := by
  unfold loopHead
  split_ifs with h
  · rw [PushPc.work, turnsLeft, max_eq_left (by omega)]
  · rw [PushPc.work]
    omega

/-- Another turn is one of those that were left. -/
theorem work_loopHead_succ (limit : Nat) (a : Push) (pos retry : Nat) :
    (loopHead a pos (retry + 1)).work limit < 2 * turnsLeft retry + a.written limit + 5 := by
  have hle := work_loopHead limit a pos (retry + 1)
  rw [turnsLeft]
  omega

/-- Every access of a `try_push` uses up some of its work. -/
theorem work_pushStep {e : PushEvent} (h : PushStep r pc e r' pc') (hpc : pc ≠ .idle)
    (hlimit : r.ringMeta.maxPayload = limit) : pc'.work limit < pc.work limit := by
  cases h with
  | call => exact absurd rfl hpc
  | enter | reject => simp only [PushPc.work]; omega
  | @loadTail a =>
    have hle := work_loopHead limit a r.tail 0
    rw [PushPc.work]
    omega
  | seqFree | seqAhead => simp only [PushPc.work]; omega
  | seqFull | addLost => simp only [PushPc.work]; omega
  | claim =>
    simp only [PushPc.work, turnsLeft]
    omega
  | @casFail a pos retry => exact work_loopHead_succ limit a r.tail retry
  | @reloadTail a retry => exact work_loopHead_succ limit a r.tail retry
  | storeLen | storeType | storeFlags => simp only [PushPc.work]; omega
  | storeUser =>
    rw [hlimit, PushPc.work, PushPc.work, Finset.card_range]
    omega
  | copyByte hj =>
    have hlt := Finset.card_erase_lt_of_mem hj
    simp only [PushPc.work]
    omega
  | copyDone | publish => simp only [PushPc.work]; omega

/-- The same of a `try_pop`. -/
theorem work_popStep {e : PopEvent} (h : PopStep r k e r' k') (hk : k ≠ .idle)
    (hlimit : r.ringMeta.maxPayload = limit) : k'.work limit < k.work limit := by
  cases h with
  | call => exact absurd rfl hk
  | enter | reject | loadHead | seqReady | seqOther => simp only [PopPc.work]; omega
  | @loadLen out pos payloadSize hsize =>
    rw [PopPc.work, PopPc.work, Finset.card_range]
    omega
  | copyByte hj =>
    have hlt := Finset.card_erase_lt_of_mem hj
    simp only [PopPc.work]
    omega
  | copyDone => simp only [PopPc.work]; omega
  | loadType | loadFlags | loadUser | releaseSlot | releaseHead => simp only [PopPc.work]; omega

theorem maxPayload_pushStep {e : PushEvent} (h : PushStep r pc e r' pc') :
    r'.ringMeta.maxPayload = r.ringMeta.maxPayload := by
  cases h <;> rfl

theorem maxPayload_popStep {e : PopEvent} (h : PopStep r k e r' k') :
    r'.ringMeta.maxPayload = r.ringMeta.maxPayload := by
  cases h <;> rfl

/-- A call is over when it returns. -/
theorem returned_of_pushStep {e : PushEvent} (h : PushStep r pc e r' .idle) :
    e.returned ≠ none := by
  generalize hpc : PushPc.idle = pc' at h
  cases h with
  | reject | addLost | publish => simp [PushEvent.returned]
  | loadTail | casFail | reloadTail =>
    unfold loopHead at hpc
    split_ifs at hpc
  | _ => cases hpc

theorem returned_of_popStep {e : PopEvent} (h : PopStep r k e r' .idle) : e.returned ≠ none := by
  generalize hk : PopPc.idle = k' at h
  cases h with
  | reject | seqOther | releaseHead => simp [PopEvent.returned]
  | _ => cases hk

/-- A producer in a call is never kept waiting. -/
theorem pushStep_enabled (r : Ring) (h : pc ≠ .idle) : ∃ e r' pc', PushStep r pc e r' pc' := by
  cases pc with
  | idle => exact absurd rfl h
  | enter a =>
    cases hm : validMeta r.ringMeta with
    | true => exact ⟨_, _, _, .enter hm⟩
    | false => exact ⟨_, _, _, .reject hm⟩
  | loadTail a => exact ⟨_, _, _, .loadTail⟩
  | loadSeq a pos retry =>
    rcases lt_trichotomy (Word.diff64 (r.seq (r.slot pos)) pos) 0 with hd | hd | hd
    · exact ⟨_, _, _, .seqFull hd⟩
    · exact ⟨_, _, _, .seqFree hd⟩
    · exact ⟨_, _, _, .seqAhead hd⟩
  | compareExchange a pos retry => exact ⟨_, _, _, .casFail⟩
  | reloadTail a retry => exact ⟨_, _, _, .reloadTail⟩
  | addLost a => exact ⟨_, _, _, .addLost⟩
  | storeLen a pos => exact ⟨_, _, _, .storeLen⟩
  | storeType a pos => exact ⟨_, _, _, .storeType⟩
  | storeFlags a pos => exact ⟨_, _, _, .storeFlags⟩
  | storeUser a pos => exact ⟨_, _, _, .storeUser⟩
  | copy a pos todo =>
    rcases todo.eq_empty_or_nonempty with rfl | ⟨j, hj⟩
    · exact ⟨_, _, _, .copyDone⟩
    · exact ⟨_, _, _, .copyByte hj⟩
  | publish a pos => exact ⟨_, _, _, .publish⟩

theorem popStep_enabled (r : Ring) (h : k ≠ .idle) : ∃ e r' k', PopStep r k e r' k' := by
  cases k with
  | idle => exact absurd rfl h
  | enter out =>
    cases hm : validMeta r.ringMeta with
    | true => exact ⟨_, _, _, .enter hm⟩
    | false => exact ⟨_, _, _, .reject hm⟩
  | loadHead out => exact ⟨_, _, _, .loadHead⟩
  | loadSeq out pos =>
    by_cases hs : r.seq (r.slot pos) = Word.u64 (pos + 1)
    · exact ⟨_, _, _, .seqReady hs⟩
    · exact ⟨_, _, _, .seqOther hs⟩
  | loadLen out pos => exact ⟨_, _, _, .loadLen rfl⟩
  | copy out pos payloadSize todo =>
    rcases todo.eq_empty_or_nonempty with rfl | ⟨j, hj⟩
    · exact ⟨_, _, _, .copyDone⟩
    · exact ⟨_, _, _, .copyByte hj⟩
  | loadType out pos payloadSize => exact ⟨_, _, _, .loadType⟩
  | loadFlags out pos payloadSize type => exact ⟨_, _, _, .loadFlags⟩
  | loadUser out pos payloadSize type flags => exact ⟨_, _, _, .loadUser⟩
  | releaseSlot out pos popped => exact ⟨_, _, _, .releaseSlot⟩
  | releaseHead out pos popped => exact ⟨_, _, _, .releaseHead⟩

end Accesses

section Runs

variable [DecidableEq P] {c c' : RingConfig P} {log : List (RingEvent P)}

/-- Of a call of `try_push` that has not returned: few accesses so far, and one that can be made. -/
structure PushUnderWay (p : P) (a : Push) (limit : Nat) (own : List (RingEvent P))
    (c : RingConfig P) : Prop where
  bounded : own.countP (RingEvent.isPushOf p) ≤ 136 + min a.payload.length limit
  enabled : ∃ e c', RingStep c (.push p e) c'

structure PopUnderWay (out : List UInt8) (limit : Nat) (own : List (RingEvent P))
    (c : RingConfig P) : Prop where
  bounded : own.countP RingEvent.isPop ≤ 10 + min out.length limit
  enabled : ∃ e c', RingStep c (.pop e) c'

theorem maxPayload_ringStep {e : RingEvent P} (h : RingStep c e c') :
    c'.ring.ringMeta.maxPayload = c.ring.ringMeta.maxPayload := by
  cases h with
  | push h => exact maxPayload_pushStep h
  | pop h => exact maxPayload_popStep h

theorem maxPayload_run (h : Run RingStep c log c') :
    c'.ring.ringMeta.maxPayload = c.ring.ringMeta.maxPayload := by
  induction h with
  | nil => rfl
  | snoc _ hs ih => exact (maxPayload_ringStep hs).trans ih

theorem pushUnderWay {p : P} {a : Push} (h : Run RingStep c log c') (hp : c.producers p = .enter a)
    (hret : ∀ e, .push p e ∈ log → e.returned = none) :
    PushUnderWay p a c.ring.ringMeta.maxPayload log c' := by
  have hcount := Run.count_le
    (μ := fun c' => (c'.producers p).work c.ring.ringMeta.maxPayload) (p := RingEvent.isPushOf p)
    (q := fun e' => ∀ e, e' = .push p e → e.returned = none)
    (B := fun c' => c'.producers p ≠ .idle ∧
      c'.ring.ringMeta.maxPayload = c.ring.ringMeta.maxPayload)
    ?_ ⟨by simp [hp], rfl⟩ h ?_
  · obtain ⟨⟨hidle, -⟩, hle⟩ := hcount
    obtain ⟨e, r, pc, hs⟩ := pushStep_enabled c'.ring hidle
    refine ⟨?_, e, _, .push hs⟩
    rw [hp, PushPc.work, Push.written, mpscCasRetryBudget] at hle
    omega
  · rintro s e' t ⟨hidle, hlimit⟩ hq hs
    have hlimit' := (maxPayload_ringStep hs).trans hlimit
    cases hs with
    | @push p' e r pc hs =>
      by_cases hp' : p' = p
      · subst hp'
        have hwork := work_pushStep hs hidle hlimit
        refine ⟨⟨?_, hlimit'⟩, ?_⟩
        · dsimp only
          rw [Function.update_self]
          rintro rfl
          exact returned_of_pushStep hs (hq e rfl)
        · simp only [Function.update_self, RingEvent.isPushOf, decide_true, if_true]
          exact hwork
      · refine ⟨⟨?_, hlimit'⟩, ?_⟩
        · dsimp only
          rwa [Function.update_of_ne (Ne.symm hp')]
        · simp [Function.update_of_ne (Ne.symm hp'), RingEvent.isPushOf, hp']
    | pop => exact ⟨⟨hidle, hlimit'⟩, by simp [RingEvent.isPushOf]⟩
  · rintro _ he e rfl
    exact hret e he

theorem popUnderWay {out : List UInt8} (h : Run RingStep c log c') (hc : c.consumer = .enter out)
    (hret : ∀ e, .pop e ∈ log → e.returned = none) :
    PopUnderWay out c.ring.ringMeta.maxPayload log c' := by
  have hcount := Run.count_le
    (μ := fun c' => c'.consumer.work c.ring.ringMeta.maxPayload) (p := RingEvent.isPop)
    (q := fun e' => ∀ e, e' = .pop e → e.returned = none)
    (B := fun c' => c'.consumer ≠ .idle ∧
      c'.ring.ringMeta.maxPayload = c.ring.ringMeta.maxPayload)
    ?_ ⟨by simp [hc], rfl⟩ h ?_
  · obtain ⟨⟨hidle, -⟩, hle⟩ := hcount
    obtain ⟨e, r, k, hs⟩ := popStep_enabled c'.ring hidle
    refine ⟨?_, e, _, .pop hs⟩
    rw [hc, PopPc.work] at hle
    omega
  · rintro s e' t ⟨hidle, hlimit⟩ hq hs
    have hlimit' := (maxPayload_ringStep hs).trans hlimit
    cases hs with
    | push => exact ⟨⟨hidle, hlimit'⟩, by simp [RingEvent.isPop]⟩
    | @pop e r k hs =>
      refine ⟨⟨?_, hlimit'⟩, work_popStep hs hidle hlimit⟩
      rintro rfl
      exact returned_of_popStep hs (hq e rfl)
  · rintro _ he e rfl
    exact hret e he

/-- Whatever the ring held and wherever the others stood, a call that has not returned has made few
accesses since, and can make its next one. -/
theorem ring_wait_free (h : Run RingStep c log c') :
    (∀ p a before since, log = before ++ .push p (.call a) :: since →
        (∀ e, .push p e ∈ since → e.returned = none) →
        PushUnderWay p a c.ring.ringMeta.maxPayload since c') ∧
      ∀ out before since, log = before ++ .pop (.call out) :: since →
        (∀ e, .pop e ∈ since → e.returned = none) →
        PopUnderWay out c.ring.ringMeta.maxPayload since c' := by
  constructor
  · rintro p a before since rfl hret
    obtain ⟨s, hbefore, hrest⟩ := h.split
    obtain ⟨t, hcall, hsince⟩ := hrest.uncons
    have hp : t.producers p = .enter a := by
      cases hcall with
      | push hs =>
        generalize s.producers p = pc at hs
        cases hs
        exact Function.update_self ..
    rw [← maxPayload_run hbefore, ← maxPayload_ringStep hcall]
    exact pushUnderWay hsince hp hret
  · rintro out before since rfl hret
    obtain ⟨s, hbefore, hrest⟩ := h.split
    obtain ⟨t, hcall, hsince⟩ := hrest.uncons
    have hc : t.consumer = .enter out := by
      cases hcall with
      | pop hs =>
        generalize s.consumer = k at hs
        cases hs
        rfl
    rw [← maxPayload_run hbefore, ← maxPayload_ringStep hcall]
    exact popUnderWay hsince hc hret

theorem ring_wait_free_fresh : ∃ c : RingConfig Unit,
    PushUnderWay () ⟨0, 0, 0, [7]⟩ 48 [.push () .tau, .push () .tau] c := by
  have hcall : Run RingStep (.initial (freshRing 2 64) : RingConfig Unit)
      [.push () (.call ⟨0, 0, 0, [7]⟩)] _ := .single (.push (.call _))
  have henter := hcall.snoc (.push (p := ()) (.enter rfl))
  have hload := henter.snoc (.push (p := ()) .loadTail)
  refine ⟨_, (ring_wait_free hload).1 () ⟨0, 0, 0, [7]⟩ [] _ rfl ?_⟩
  simp [PushEvent.returned]

end Runs

end Shmfx
