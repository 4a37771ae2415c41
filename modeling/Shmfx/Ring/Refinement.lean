import Shmfx.Ring.Fifo

/-! Which geometries make the sequential ring a bounded FIFO, over call sequences of any length. -/
namespace Shmfx

open Word Window Mealy

variable {r : Ring} {n m : Nat} {payload : Span} {recordMax maxPayload : UInt32}

/-- Every sequence of whole calls is answered as by the queue of the ring's own capacity. -/
def RefinesFifo (r : Ring) : Prop :=
  ∀ calls, replies ringCall r calls =
    replies (fifoCall r.ringMeta.recordMax r.ringMeta.maxPayload) ⟨[], 0⟩ calls

/-- The simulation: positions stay selectable for as many pushes as are still to come. -/
def RingSim (n m : Nat) (calls : List RingCall) (r : Ring) (q : Fifo) : Prop :=
  ∃ h t, Represents r n m h t q ∧ (t + pushes calls < 2 ^ 64 ∨ n ∣ 2 ^ 64)

theorem ringSim_simulates (hn : 2 ≤ n) (hn' : n < 2 ^ 32) :
    Simulates ringCall (fifoCall n m) (RingSim n m) := by
  rintro (a | out) cs r q ⟨h, t, hr, hb⟩
  · have hf : Fits n t := hb.imp_left (Nat.lt_of_le_of_lt (Nat.le_add_right _ _))
    have hlen := hr.length
    by_cases hfull : q.queue.length = n
    · simp only [ringCall, hr.push_full hf hn hn' (by omega), fifoCall, hfull, if_true]
      refine ⟨by simp [errorOf, hr.addLost.lost], h, t, hr.addLost, ?_⟩
      exact hb.imp_left (by simp only [pushes]; omega)
    · have hb' := hr.bound
      obtain ⟨hok, hr'⟩ := hr.push (a := a) hf (by omega)
      simp only [ringCall, fifoCall, hfull, if_false]
      refine ⟨by simp [hok, errorOf, hr'.lost], h, t + 1, hr', ?_⟩
      exact hb.imp_left (by simp only [pushes]; omega)
  · have hlen := hr.length
    have hf : Fits n h := hb.imp_left (by omega)
    cases hx : q.queue with
    | nil =>
      simp only [ringCall, hr.pop_empty hf hx out, fifoCall, hx, true_and]
      exact ⟨h, t, hr, hb⟩
    | cons x xs =>
      obtain ⟨hp, hr'⟩ := hr.pop hf hx out
      simp only [ringCall, fifoCall, hx, hp, true_and]
      exact ⟨h + 1, t, hr', hb⟩

theorem fifo_pushPops (hn : 0 < n) (a : Push) (k : Nat) :
    final (fifoCall n m) ⟨[], 0⟩ (pushPops a k) = ⟨[], 0⟩ := by
  induction k with
  | zero => rfl
  | succ k ih =>
    have hne : (0 : Nat) ≠ n := by omega
    simp [pushPops_succ, final_append, ih, final, fifoCall, hne]

/-- Once the tail cursor wraps, a capacity that does not divide 2^64 selects a slot some lap
ahead, and the push is refused on an empty ring. -/
theorem Represents.push_wrapped {a : Push} {t : Nat} (hr : Represents r n m t t ⟨[], 0⟩)
    (ht : t = 2 ^ 64) (hn' : n < 2 ^ 32) (hdvd : ¬ n ∣ 2 ^ 64) :
    (tryPush r a).1 = .error .ringFull := by
  obtain ⟨p, ⟨hlo, hhi⟩, hp⟩ := exists_mod_eq hr.pos t 0 hr.pos
  have htail : r.tail = 0 := by rw [hr.tail, ht]; rfl
  have hne : p ≠ t := by
    rintro rfl
    exact hdvd (ht ▸ Nat.dvd_of_mod_eq_zero hp)
  have hseq : r.seq (r.slot r.tail) = u64 p := by
    rw [Ring.slot, htail, Nat.zero_mod, ← hp]
    exact hr.free p hlo hhi
  have hd : 0 < diff64 (r.seq (r.slot r.tail)) r.tail := by
    rw [hseq, hr.tail]
    exact diff64_u64_pos (by omega) (by omega)
  have hclaim := claimLoop_ahead rfl hd mpscCasRetryBudget
  simp [tryPush, hr.valid, hclaim]

theorem replies_last_eq {calls : List RingCall} {c : RingCall} {q : Fifo}
    (h : replies ringCall r (calls ++ [c]) = replies (fifoCall n m) q (calls ++ [c])) :
    (ringCall (final ringCall r calls) c).1 =
      (fifoCall n m (final (fifoCall n m) q calls) c).1 := by
  rw [replies_append, replies_append] at h
  obtain ⟨-, he⟩ := List.append_inj' h rfl
  simpa [replies] using he

/-- A refining ring has at least two slots: the second of two pushes tells one slot apart. -/
theorem two_le_of_refines (hr : Represents r n m 0 0 ⟨[], 0⟩)
    (h : ∀ calls, replies ringCall r calls = replies (fifoCall n m) ⟨[], 0⟩ calls) : 2 ≤ n := by
  by_contra hlt
  have hn := hr.pos
  obtain rfl : n = 1 := by omega
  let a : Push := ⟨0, 0, 0, []⟩
  have hf : Fits 1 0 := .inl (by decide)
  obtain ⟨-, hr'⟩ := hr.push (a := a) hf (by omega)
  have hok := hr'.push_full_one (a := a) rfl
  have hlast := replies_last_eq (h ([.push a] ++ [.push a]))
  simp [final, ringCall, fifoCall, hok, errorOf] at hlast

/-- A refining ring's capacity divides 2^64: the push after 2^64 others tells it apart. -/
theorem dvd_of_refines (hr : Represents r n m 0 0 ⟨[], 0⟩) (hn' : n < 2 ^ 32)
    (h : ∀ calls, replies ringCall r calls = replies (fifoCall n m) ⟨[], 0⟩ calls) :
    n ∣ 2 ^ 64 := by
  by_contra hdvd
  let a : Push := ⟨0, 0, 0, []⟩
  -- The count stays a variable so that no tactic tries to build the call list.
  obtain ⟨k, hk⟩ : ∃ k : Nat, k = 2 ^ 64 := ⟨_, rfl⟩
  have hfull := (represents_pushPops hr a hk.le).push_wrapped (a := a) hk hn' hdvd
  have hlast := replies_last_eq (h (pushPops a k ++ [.push a]))
  have hne : (0 : Nat) ≠ n := by have := hr.pos; omega
  rw [fifo_pushPops hr.pos] at hlast
  simp [ringCall, fifoCall, hfull, errorOf, hne] at hlast

/-- The ring is a bounded FIFO over all call sequences exactly for two or more slots whose number
divides 2^64; any other capacity of two or more is one until 2^64 pushes have been attempted. -/
theorem ring_refines_fifo_iff (h : initializeRing payload recordMax maxPayload = .ok r) :
    (RefinesFifo r ↔ 2 ≤ recordMax.toNat ∧ recordMax.toNat ∣ 2 ^ 64) ∧
    (2 ≤ recordMax.toNat → ∀ calls, pushes calls < 2 ^ 64 →
      replies ringCall r calls =
        replies (fifoCall r.ringMeta.recordMax r.ringMeta.maxPayload) ⟨[], 0⟩ calls) := by
  obtain ⟨rfl, hm, hs⟩ := initializeRing_ok h
  have hm' : recordMax.toNat < 2 ^ 32 := recordMax.toNat_lt
  have hr := represents_freshRing hm hm' hs
  have hsim := fun calls (h2 : 2 ≤ recordMax.toNat)
      (hb : pushes calls < 2 ^ 64 ∨ recordMax.toNat ∣ 2 ^ 64) =>
    ((ringSim_simulates h2 hm').replies_eq
      (show RingSim _ _ calls _ _ from ⟨0, 0, hr, by simpa using hb⟩)).1
  refine ⟨⟨fun href => ⟨two_le_of_refines hr href, dvd_of_refines hr hm' href⟩, ?_⟩, ?_⟩
  · rintro ⟨h2, hdvd⟩ calls
    exact hsim calls h2 (.inr hdvd)
  · intro h2 calls hb
    exact hsim calls h2 (.inl hb)

theorem ring_refines_fifo_iff_two_slots :
    initializeRing ⟨0, 272⟩ 2 0 = .ok (freshRing 2 64) ∧
      (RefinesFifo (freshRing 2 64) ↔ 2 ≤ (2 : UInt32).toNat ∧ (2 : UInt32).toNat ∣ 2 ^ 64) :=
  have hinit : initializeRing ⟨0, 272⟩ 2 0 = .ok (freshRing 2 64) := rfl
  ⟨hinit, (ring_refines_fifo_iff hinit).1⟩

/-- One slot: the second push overwrites the first record, and no pop ever succeeds again. -/
theorem one_slot_ring_not_fifo :
    initializeRing ⟨0, 200⟩ 1 0 = .ok (freshRing 1 64) ∧
      replies ringCall (freshRing 1 64)
          [.push ⟨7, 0, 1, [65]⟩, .push ⟨8, 0, 2, [66]⟩, .pop [0]] =
        [.pushed none 0, .pushed none 0, .popped none] ∧
      replies (fifoCall 1 48) ⟨[], 0⟩ [.push ⟨7, 0, 1, [65]⟩, .push ⟨8, 0, 2, [66]⟩, .pop [0]] =
        [.pushed none 0, .pushed (some .ringFull) 1,
          .popped (some (⟨7, 0, 1, 1, 1⟩, [65]))] ∧
      ¬ RefinesFifo (freshRing 1 64) := by
  refine ⟨rfl, by decide +kernel, by decide +kernel, ?_⟩
  intro h
  exact absurd (h [.push ⟨7, 0, 1, [65]⟩, .push ⟨8, 0, 2, [66]⟩]) (by decide +kernel)

end Shmfx
