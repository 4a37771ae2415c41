import Mathlib.Data.List.Perm.Basic
import Mathlib.Data.List.Count
import Shmfx.Ring.Delivery

/-! Occupancy and drop accounting of the concurrent ring. -/
namespace Shmfx

open Word Window Lts Mealy

universe u

variable {P : Type u} [DecidableEq P] {n m : Nat} {log : List (RingEvent P)} {c c' : RingConfig P}
  {e : RingEvent P} {r : Ring} {payload : Span} {recordMax maxPayload : UInt32} {pos : Nat}

omit [DecidableEq P] in
/-- A sequence that reads as behind a tail snapshot, however old, shows a full ring: the slot's
position in the window lies a whole lap before the snapshot. -/
theorem RingInv.full_of_behind (h : RingInv n m log c) (hpos : pos ≤ c.ring.tail)
    (hd : diff64 (c.ring.seq (pos % n)) pos < 0) (hlt : c.ring.tail + n ≤ 2 ^ 63) :
    c.ring.tail = c.released + n ∧ pos = c.ring.tail := by
  have hn := h.capacity_pos
  obtain ⟨q, hq, hmod⟩ := exists_mod_eq hn c.released (pos % n) (Nat.mod_lt _ hn)
  have hrel := h.released_le
  have htail := h.tail_le
  have hseq : c.ring.seq (pos % n) = q ∨ c.ring.seq (pos % n) = q + 1 ∧ q < c.ring.tail := by
    rw [← hmod]
    exact (h.slots q hq).imp_right fun hs => ⟨hs.2.1, hs.1⟩
  have hbehind : q < pos := by
    have hhi := hq.2
    have := (diff64_neg (by omega) (by omega)).mp hd
    omega
  have hlap := hq.lap_of_lt hbehind hmod.symm
  omega

/-- Records of one producer, out of a list of records tagged with their producers. -/
def ofProducer (p : P) (l : List (P × Push)) : List Push :=
  l.filterMap fun x => if x.1 = p then some x.2 else none

theorem count_eq_ofProducer (p : P) (a : Push) (l : List (P × Push)) :
    l.count (p, a) = (ofProducer p l).count a := by
  induction l with
  | nil => rfl
  | cons x l ih =>
    obtain ⟨q, b⟩ := x
    by_cases hq : q = p
    · subst hq
      simp [ofProducer, List.count_cons] at ih ⊢
      exact ih
    · simp [ofProducer, hq] at ih ⊢
      exact ih

/-- Tagged lists with the same records for every producer are permutations of each other. -/
theorem perm_of_ofProducer {l l' : List (P × Push)}
    (h : ∀ p, ofProducer p l = ofProducer p l') : l.Perm l' := by
  apply List.perm_iff_count.mpr
  rintro ⟨p, a⟩
  rw [count_eq_ofProducer, count_eq_ofProducer, h p]

theorem claimsBy_eq_ofProducer (p : P) (log : List (RingEvent P)) :
    claimsBy p log = ofProducer p ((claims log).map fun x => (x.producer, x.push)) := by
  simp [claimsBy, ofProducer, List.filterMap_map]

theorem successesBy_eq_ofProducer (p : P) (log : List (RingEvent P)) :
    successesBy p log = ofProducer p (pushedCalls log) := by
  simp only [successesBy, returnsBy, eventsOf, ofProducer, pushedCalls, List.filter_filterMap,
    List.map_filterMap, List.filterMap_filterMap]
  apply List.filterMap_congr
  rintro (⟨q, e⟩ | e) -
  · cases e <;> by_cases hq : q = p <;>
      simp [RingEvent.pushed, RingEvent.of, PushEvent.returned, hq]
  · rfl

/-- With every producer between calls, the successful calls are the claims in another order. -/
theorem pushed_perm_claims (hrun : Run RingStep (.initial r) log c)
    (hidle : ∀ p, c.producers p = .idle) :
    (pushedCalls log).Perm ((claims log).map fun x => (x.producer, x.push)) := by
  apply perm_of_ofProducer
  intro p
  have horder := (programOrder_run hrun p).2
  rw [hidle p] at horder
  rw [← successesBy_eq_ofProducer, ← claimsBy_eq_ofProducer, horder]
  simp [PushPc.writing]

/-- Only the two losing exits of the claim loop touch the drop counter. -/
theorem RingStep.lostCount_eq (h : RingStep c e c') (hlt : c.ring.ringMeta.lostCount < 2 ^ 64) :
    c'.ring.ringMeta.lostCount =
      u64 (c.ring.ringMeta.lostCount + (droppedCalls [e]).length) := by
  have hsame := (u64_of_lt hlt).symm
  cases h with
  | push hs =>
    generalize c.producers _ = pc at hs
    cases hs with
    | addLost => rfl
    | _ => exact hsame
  | pop hs =>
    generalize c.consumer = pc at hs
    cases hs <;> exact hsame

theorem lostCount_run (hrun : Run RingStep (.initial r) log c) (h₀ : r.ringMeta.lostCount = 0) :
    c.ring.ringMeta.lostCount = u64 (droppedCalls log).length := by
  induction hrun with
  | nil => exact h₀
  | snoc _ hs ih =>
    rw [hs.lostCount_eq (by rw [ih]; exact u64_lt _), ih, droppedCalls, droppedCalls, droppedCalls,
      List.filterMap_append, List.length_append]
    simp only [u64]
    omega

/-- Occupancy at every point of a run, counters between calls, and what a full test has seen. -/
structure RingAccounting (n : Nat) (log : List (RingEvent P)) (c : RingConfig P) : Prop where
  head_le_tail : c.ring.head ≤ c.ring.tail
  released_le_tail : c.released ≤ c.ring.tail
  occupancy : c.ring.tail - c.released ≤ n
  tail_eq : (∀ p, c.producers p = .idle) → c.ring.tail = (pushedCalls log).length
  head_eq : c.consumer = .idle → c.ring.head = (poppedCalls log).length
  lost_eq : c.ring.ringMeta.lostCount = u64 (droppedCalls log).length
  full : (claims log).length + n ≤ 2 ^ 63 → ∀ p a pos c',
    RingStep c (.push p (.full a pos)) c' → c.ring.tail - c.released = n ∧ pos = c.ring.tail

/-- Occupancy and accounting hold for fewer than 2^63 claims; the full test is exact as long as
the positions of the next lap stay below 2^63 too. -/
theorem ring_accounting (hinit : initializeRing payload recordMax maxPayload = .ok r)
    (hn : 2 ≤ recordMax.toNat) (hrun : Run RingStep (.initial r) log c)
    (hclaims : (claims log).length < 2 ^ 63) : RingAccounting recordMax.toNat log c := by
  obtain ⟨rfl, hm, hs⟩ := initializeRing_ok hinit
  have hmax := recordMax.toNat_lt
  have hinv := ringInv_run hn (ringInv_initial hm hs) hrun (by omega)
  have hrel := hinv.released_le
  have htail := hinv.tail_le
  refine ⟨?_, hrel, by omega, ?_, fun _ => hinv.head, lostCount_run hrun rfl, ?_⟩
  · refine le_trans ?_ hrel
    unfold RingConfig.released
    split <;> omega
  · intro hidle
    rw [hinv.tail, (pushed_perm_claims hrun hidle).length_eq, List.length_map]
  · intro hlap p a pos c' hstep
    rw [← hinv.tail] at hlap
    cases hstep with
    | push hs =>
      have hfacts := hinv.producers p
      generalize c.producers p = pc at hs hfacts
      cases hs with
      | seqFull hd =>
        rw [Ring.slot, hinv.recordMax] at hd
        obtain ⟨hfull, hpos⟩ := hinv.full_of_behind (hfacts.snapshot pos rfl) hd hlap
        exact ⟨by omega, hpos⟩

/-- Two slots and three pushes: the third finds the ring full and is counted. -/
theorem ring_accounting_third_push : ∃ log c, Run RingStep (.initial (freshRing 2 64)) log c ∧
    c.ring.ringMeta.lostCount = 1 ∧ RingAccounting (P := Unit) 2 log c := by
  let a : Push := ⟨7, 0, 9, [1, 2, 3]⟩
  obtain ⟨log, hrun, hclaims, -⟩ := calls_run (c := .initial (freshRing 2 64)) (p := ()) rfl rfl
    [.push a, .push a, .push a]
  have hinit : initializeRing ⟨0, 272⟩ 2 0 = .ok (freshRing 2 64) := rfl
  have hfew : (claims log).length < 2 ^ 63 := lt_of_le_of_lt hclaims (by decide)
  exact ⟨log, _, hrun, by decide +kernel, ring_accounting hinit (by decide) hrun hfew⟩

/-- A producer that loads tail 0 and then sleeps through 2^63 - 1 rounds on a ring of two slots
finds the sequence half the range ahead of it, reads that as behind, and drops its record on an
empty ring. -/
theorem full_on_empty_ring : ∃ log c c' a,
    initializeRing ⟨0, 272⟩ 2 0 = .ok (freshRing 2 64) ∧
      Run RingStep (.initial (freshRing 2 64) : RingConfig Bool) log c ∧
      (claims log).length < 2 ^ 63 ∧ RingStep c (.push false (.full a 0)) c' ∧
      c.ring.tail - c.released = 0 := by
  let a : Push := ⟨0, 0, 0, []⟩
  let r := freshRing 2 64
  let f : Bool → PushPc := Function.update (fun _ => .idle) false (.loadSeq a 0 0)
  have hstale : Run PushThread (r, .idle) [.call a, .tau, .tau] (r, .loadSeq a 0 0) := by
    have h₁ : PushThread (r, .idle) (.call a) (r, .enter a) := PushStep.call a
    have h₂ : PushThread (r, .enter a) .tau (r, .loadTail a) := PushStep.enter rfl
    have h₃ : PushThread (r, .loadTail a) .tau (r, .loadSeq a 0 0) := PushStep.loadTail
    exact Run.cons h₁ (Run.cons h₂ (Run.single h₃))
  have hfirst := lift_pushThread (fun _ => PushPc.idle) .idle false hstale
  rw [Function.update_eq_self] at hfirst
  -- The number of rounds stays a variable so that nothing evaluates them.
  obtain ⟨k, hk⟩ : ∃ k : Nat, k = 2 ^ 63 - 1 := ⟨_, rfl⟩
  have hr : Represents r 2 48 0 0 ⟨[], 0⟩ :=
    represents_freshRing (by decide) (by decide) (by decide)
  obtain ⟨log, hrun, hlen, -⟩ := calls_run (c := ⟨r, f, .idle⟩) (p := true) rfl rfl (pushPops a k)
  have hr' := represents_pushPops hr a (show k ≤ 2 ^ 64 by omega)
  rw [pushes_pushPops] at hlen
  generalize final ringCall r (pushPops a k) = r' at hrun hr'
  have hseq : r'.seq (r'.slot 0) = u64 (2 ^ 63) := by
    rw [Ring.slot, hr'.recordMax]
    exact hr'.free (2 ^ 63) (by omega) (by omega)
  have hd : diff64 (r'.seq (r'.slot 0)) 0 < 0 := by
    rw [hseq]
    decide
  have hfull : RingStep ⟨r', f, .idle⟩ (.push false (.full a 0))
      ⟨r', Function.update f false (.addLost a), .idle⟩ := .push (PushStep.seqFull hd)
  refine ⟨_, _, _, a, rfl, hfirst.append hrun, ?_, hfull, ?_⟩
  · have hnone : claims ([.call a, .tau, .tau].map (RingEvent.push false)) = [] := rfl
    rw [claims_append, hnone, List.nil_append]
    omega
  · simp [RingConfig.released, hr'.head, hr'.tail]

end Shmfx
