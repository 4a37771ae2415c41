import Shmfx.Ring.Preservation
import Shmfx.Ring.Solo

/-! Delivery on a concurrent ring: the k-th pop returns the record of the k-th claim. -/
namespace Shmfx

open Word Window Lts

universe u

variable {P : Type u} [DecidableEq P] {n m : Nat} {log : List (RingEvent P)} {c c' : RingConfig P}
  {e : RingEvent P} {p : P} {r : Ring} {payload : Span} {recordMax maxPayload : UInt32}

omit [DecidableEq P] in
theorem ringInv_initial {recordMax recordStride : Nat} (hm : 0 < recordMax)
    (hs : recordHeaderBytes ≤ recordStride) :
    RingInv recordMax (recordStride - recordHeaderBytes) []
      (RingConfig.initial (P := P) (freshRing recordMax recordStride)) where
  valid := validMeta_freshRing hm hs
  recordMax := rfl
  maxPayload := rfl
  tail := rfl
  head := rfl
  position k x h := by simp [claims] at h
  released_le := le_rfl
  tail_le := Nat.zero_le _
  slots pos hin := by
    obtain ⟨-, hlt⟩ : 0 ≤ pos ∧ pos < 0 + recordMax := hin
    rw [Nat.zero_add] at hlt
    exact .inl (by simp [RingConfig.initial, freshRing, Nat.mod_eq_of_lt hlt, hlt])
  producers p := .of_not_writing rfl (by simp [RingConfig.initial, PushPc.snapshot])
    (by simp [RingConfig.initial])
  consumer := ⟨by simp [RingConfig.initial], by simp [RingConfig.initial, PopPc.reading],
    by simp [RingConfig.initial]⟩
  delivered k popped out h := by simp [poppedCalls] at h

theorem ringInv_step (hn : 2 ≤ n) (h : RingInv n m log c) (hs : RingStep c e c')
    (hlt : (claims log).length + n ≤ 2 ^ 64) : RingInv n m (log ++ [e]) c' := by
  rw [← h.tail] at hlt
  cases hs with
  | push hs => exact ringInv_pushStep hn h hs hlt
  | pop hs => exact ringInv_popStep hn h hs hlt

theorem ringInv_run (hn : 2 ≤ n) {c₀ : RingConfig P} (h₀ : RingInv n m [] c₀)
    (hrun : Run RingStep c₀ log c) (hlt : (claims log).length + n ≤ 2 ^ 64) :
    RingInv n m log c := by
  induction hrun with
  | nil => exact h₀
  | snoc _ hs ih =>
    rw [claims_append, List.length_append] at hlt
    exact ringInv_step hn (ih (by omega)) hs (by omega)

/-- The push a producer's current call is carrying. -/
def PushPc.current : PushPc → Option Push
  | .idle => none
  | .enter a | .loadTail a | .loadSeq a _ _ | .compareExchange a _ _ | .reloadTail a _
  | .addLost a | .storeLen a _ | .storeType a _ | .storeFlags a _ | .storeUser a _
  | .copy a _ _ | .publish a _ => some a

def RingEvent.of (p : P) : RingEvent P → Option PushEvent
  | .push q e => if q = p then some e else none
  | .pop _ => none

/-- The events of one producer, in its program order. -/
def eventsOf (p : P) (log : List (RingEvent P)) : List PushEvent := log.filterMap (RingEvent.of p)

def callsBy (p : P) (log : List (RingEvent P)) : List Push :=
  (eventsOf p log).filterMap PushEvent.called

def returnsBy (p : P) (log : List (RingEvent P)) : List (Push × Bool) :=
  (eventsOf p log).filterMap PushEvent.returned

/-- The successful pushes of one producer in program order. -/
def successesBy (p : P) (log : List (RingEvent P)) : List Push :=
  ((returnsBy p log).filter (·.2)).map (·.1)

/-- The pushes of one producer among all claims, in claim order. -/
def claimsBy (p : P) (log : List (RingEvent P)) : List Push :=
  (claims log).filterMap fun x => if x.producer = p then some x.push else none

/-- A producer's calls return in program order, and its claims are its successful calls in that
order followed by the one it is writing, if any. -/
def ProgramOrder (p : P) (log : List (RingEvent P)) (pc : PushPc) : Prop :=
  callsBy p log = (returnsBy p log).map (·.1) ++ pc.current.toList ∧
    claimsBy p log = successesBy p log ++ (pc.writing.map (·.1)).toList

@[simp] theorem loopHead_current (a : Push) (pos retry : Nat) :
    (loopHead a pos retry).current = some a := by
  unfold loopHead; split <;> rfl

@[simp] theorem loopHead_writing (a : Push) (pos retry : Nat) :
    (loopHead a pos retry).writing = none := by
  unfold loopHead; split <;> rfl

/-- Calls open and close one at a time. -/
theorem PushStep.current_eq {pc pc' : PushPc} {e : PushEvent} {r r' : Ring}
    (h : PushStep r pc e r' pc') :
    pc.current.toList ++ e.called.toList =
      (e.returned.map (·.1)).toList ++ pc'.current.toList := by
  cases h <;> (try simp only [loopHead_current]) <;> rfl

/-- A claim is written until its call returns success. -/
theorem PushStep.writing_eq {pc pc' : PushPc} {e : PushEvent} {r r' : Ring}
    (h : PushStep r pc e r' pc') :
    (pc.writing.map (·.1)).toList ++ e.claimed.toList =
      ((e.returned.toList.filter (·.2)).map (·.1)) ++ (pc'.writing.map (·.1)).toList := by
  cases h <;> (try simp only [loopHead_writing]) <;> rfl

theorem eventsOf_append (p : P) (l l' : List (RingEvent P)) :
    eventsOf p (l ++ l') = eventsOf p l ++ eventsOf p l' := List.filterMap_append ..

@[simp] theorem eventsOf_self (p : P) (e : PushEvent) : eventsOf p [.push p e] = [e] := by
  simp [eventsOf, RingEvent.of]

@[simp] theorem eventsOf_other {p q : P} (h : q ≠ p) (e : PushEvent) :
    eventsOf p [.push q e] = [] := by
  simp [eventsOf, RingEvent.of, h]

@[simp] theorem eventsOf_pop (p : P) (e : PopEvent) : eventsOf p [.pop e] = [] := rfl

theorem claimsBy_eq (p : P) (log : List (RingEvent P)) :
    claimsBy p log = (eventsOf p log).filterMap PushEvent.claimed := by
  simp only [claimsBy, claims, eventsOf, List.filterMap_filterMap]
  apply List.filterMap_congr
  rintro (⟨q, e⟩ | e) -
  · cases e <;> by_cases hq : q = p <;>
      simp [RingEvent.claimed, RingEvent.of, PushEvent.claimed, hq]
  · rfl

/-- A step adds this producer's own event, if it is its step, to its program order. -/
theorem ProgramOrder.snoc {pc pc' : PushPc} {e : PushEvent} {r r' : Ring}
    (h : ProgramOrder p log pc) (hs : PushStep r pc e r' pc') :
    ProgramOrder p (log ++ [.push p e]) pc' := by
  obtain ⟨hcalls, hclaims⟩ := h
  rw [claimsBy_eq] at hclaims
  simp only [ProgramOrder, claimsBy_eq, callsBy, returnsBy, successesBy, eventsOf_append,
    eventsOf_self, List.filterMap_append, List.map_append, List.filter_append] at hcalls hclaims ⊢
  rw [hcalls, hclaims]
  constructor
  · have := hs.current_eq
    cases hc : e.called <;> cases hr : e.returned <;>
      simp_all
  · have := hs.writing_eq
    cases hc : e.claimed <;> cases hr : e.returned <;>
      simp_all

theorem ProgramOrder.other {e : RingEvent P} {pc : PushPc} (h : ProgramOrder p log pc)
    (he : eventsOf p [e] = []) : ProgramOrder p (log ++ [e]) pc := by
  simpa only [ProgramOrder, claimsBy_eq, callsBy, returnsBy, successesBy, eventsOf_append, he,
    List.append_nil] using h

theorem programOrder_step (h : ∀ p, ProgramOrder p log (c.producers p)) (hs : RingStep c e c') :
    ∀ p, ProgramOrder p (log ++ [e]) (c'.producers p) := by
  intro p
  cases hs with
  | pop hs => exact (h p).other rfl
  | @push q e r pc hs =>
    by_cases hq : p = q
    · subst hq
      simpa using (h p).snoc hs
    · simpa [Function.update_of_ne hq] using (h p).other (eventsOf_other (Ne.symm hq) e)

theorem programOrder_run (hrun : Run RingStep (.initial r) log c) (p : P) :
    ProgramOrder p log (c.producers p) := by
  have hall : ∀ p, ProgramOrder p log (c.producers p) := by
    induction hrun with
    | nil => intro p; exact ⟨rfl, rfl⟩
    | snoc _ hs ih => exact programOrder_step ih hs
  exact hall p

/-- A claimed position that is neither handed back nor published is in its claimer's hands. -/
def Kept (n : Nat) (log : List (RingEvent P)) (c : RingConfig P) : Prop :=
  ∀ (k : Nat) x, (claims log)[k]? = some x → c.released ≤ k → c.ring.seq (k % n) = k →
    (c.producers x.producer).writing = some (x.push, k)

theorem PushStep.head_eq {pc pc' : PushPc} {e : PushEvent} {r r' : Ring}
    (h : PushStep r pc e r' pc') : r'.head = r.head := by
  cases h <;> rfl

/-- Between its claim and its publication a producer only fills its slot. -/
theorem PushStep.quiet {pc pc' : PushPc} {e : PushEvent} {r r' : Ring} (h : PushStep r pc e r' pc')
    (hc : ∀ a pos, e ≠ .claim a pos) (hp : ∀ a, e ≠ .pushed a) :
    r'.seq = r.seq ∧ pc'.writing = pc.writing := by
  cases h with
  | claim => exact absurd rfl (hc _ _)
  | publish => exact absurd rfl (hp _)
  | loadTail | casFail | reloadTail => exact ⟨rfl, loopHead_writing ..⟩
  | _ => exact ⟨rfl, rfl⟩

theorem kept_pushStep {e : PushEvent} {pc : PushPc} (h : RingInv n m log c)
    (hk : Kept n log c) (hs : PushStep c.ring (c.producers p) e r pc)
    (hlt : c.ring.tail < 2 ^ 64) :
    Kept n (log ++ [.push p e]) ⟨r, Function.update c.producers p pc, c.consumer⟩ := by
  intro k x hx hrel hseq
  have hrel' : c.released ≤ k := by
    simpa only [RingConfig.released, hs.head_eq] using hrel
  by_cases hc : ∃ a pos, e = .claim a pos
  · obtain ⟨a, pos, rfl⟩ := hc
    generalize hpc : c.producers p = pc₀ at hs
    cases hs with
    | claim ht =>
      rw [show claims (log ++ [RingEvent.push p (.claim a pos)]) =
        claims log ++ [⟨p, a, pos⟩] by simp [claims, RingEvent.claimed]] at hx
      rcases getElem?_snoc hx with hx | ⟨rfl, rfl⟩
      · have hw := hk k x hx hrel' hseq
        have hne : x.producer ≠ p := by
          rintro rfl
          simp [hpc, PushPc.writing] at hw
        simpa [Function.update_of_ne hne] using hw
      · simp [PushPc.writing, ← ht, h.tail]
  · have hclaims : claims (log ++ [RingEvent.push p e]) = claims log := by
      cases e <;> simp_all [claims, RingEvent.claimed]
    rw [hclaims] at hx
    by_cases hp : ∃ a, e = .pushed a
    · obtain ⟨a, rfl⟩ := hp
      have hfacts := h.producers p
      generalize hpc : c.producers p = pc₀ at hs hfacts
      cases hs with
      | @publish _ pos =>
        obtain ⟨ho, -⟩ := hfacts.writing a pos rfl
        have hpos := ho.claimed
        have hin : In n c.released k := by
          have := (List.getElem?_eq_some_iff.mp hx).1
          have := h.tail_le
          have := h.tail
          exact ⟨hrel', by omega⟩
        simp only [Ring.slot, h.recordMax, Ring.setSeq_seq, ho.inWindow.update_mod _ _ hin] at hseq
        by_cases hkp : k = pos
        · rw [if_pos hkp, u64_of_lt (by omega)] at hseq
          omega
        · rw [if_neg hkp] at hseq
          have hw := hk k x hx hrel' hseq
          have hne : x.producer ≠ p := by
            rintro rfl
            simp only [hpc, PushPc.writing, Option.some.injEq, Prod.mk.injEq] at hw
            exact hkp hw.2.symm
          simpa [Function.update_of_ne hne] using hw
    · push Not at hc hp
      obtain ⟨hsame, hwriting⟩ := hs.quiet hc hp
      simp only [hsame] at hseq
      have hw := hk k x hx hrel' hseq
      by_cases hxp : x.producer = p
      · rw [hxp] at hw ⊢
        simpa [hwriting] using hw
      · simpa [Function.update_of_ne hxp] using hw

omit [DecidableEq P] in
theorem kept_popStep {e : PopEvent} {pc : PopPc} (h : RingInv n m log c) (hk : Kept n log c)
    (hs : PopStep c.ring c.consumer e r pc) (hlt : c.ring.tail < 2 ^ 64) :
    Kept n (log ++ [.pop e]) ⟨r, c.producers, pc⟩ := by
  intro k x hx hrel hseq
  rw [claims_append, claims_pop, List.append_nil] at hx
  have hkt : k < c.ring.tail := by
    rw [h.tail]
    exact (List.getElem?_eq_some_iff.mp hx).1
  have htail := h.tail_le
  have hcons := h.consumer
  generalize hpc : c.consumer = pc₀ at hs hcons
  cases hs with
  | @releaseSlot out pos popped =>
    obtain ⟨hp, -⟩ := hcons.reading pos rfl
    have hold : c.released = c.ring.head := by simp [RingConfig.released, hpc]
    have hnew : c.ring.head + 1 ≤ k := hrel
    have hin : In n c.released k := ⟨by omega, by omega⟩
    have hpin : In n c.released pos := ⟨by omega, by have := h.capacity_pos; omega⟩
    have hne : k ≠ pos := by omega
    simp only [Ring.slot, h.recordMax, Ring.setSeq_seq, hpin.update_mod _ _ hin, if_neg hne] at hseq
    exact hk k x hx hin.1 hseq
  | @releaseHead out pos popped =>
    obtain ⟨hp, hlt', -⟩ := hcons.releasing out pos popped rfl
    have hnew : u64 (pos + 1) ≤ k := hrel
    rw [u64_of_lt (by omega)] at hnew
    exact hk k x hx (by simp only [RingConfig.released, hpc]; omega) hseq
  | _ => exact hk k x hx (by simpa [RingConfig.released, hpc] using hrel) hseq

theorem kept_step (h : RingInv n m log c) (hk : Kept n log c) (hs : RingStep c e c')
    (hlt : (claims log).length < 2 ^ 64) : Kept n (log ++ [e]) c' := by
  rw [← h.tail] at hlt
  cases hs with
  | push hs => exact kept_pushStep h hk hs hlt
  | pop hs => exact kept_popStep h hk hs hlt

theorem kept_run (hn : 2 ≤ n) {c₀ : RingConfig P} (h₀ : RingInv n m [] c₀)
    (hrun : Run RingStep c₀ log c) (hlt : (claims log).length + n ≤ 2 ^ 64) : Kept n log c := by
  induction hrun with
  | nil =>
    intro k x hx
    simp [claims] at hx
  | snoc hr hs ih =>
    rw [claims_append, List.length_append] at hlt
    have hinv := ringInv_run hn h₀ hr (by omega)
    exact kept_step hinv (ih (by omega)) hs (by omega)

/-- What holds of the history and the state at every point of a run. -/
structure RingDelivery (maxPayload : Nat) (log : List (RingEvent P)) (c : RingConfig P) :
    Prop where
  position : ∀ (k : Nat) x, (claims log)[k]? = some x → x.pos = k
  delivered : ∀ (k : Nat) popped out, (poppedCalls log)[k]? = some (popped, out) →
    ∃ x, (claims log)[k]? = some x ∧ Shows (x.push.stored maxPayload) popped out
  kept : ∀ (k : Nat) x, (claims log)[k]? = some x → c.released ≤ k →
    (c.producers x.producer).writing = some (x.push, k) ∨
      c.ring.seq (c.ring.slot k) = k + 1 ∧
        Carries maxPayload (c.ring.record (c.ring.slot k)) (x.push.stored maxPayload)
  programOrder : ∀ p, ProgramOrder p log (c.producers p)
  oneWriter : ∀ p q a b i j, p ≠ q → (c.producers p).writing = some (a, i) →
    (c.producers q).writing = some (b, j) → c.ring.slot i ≠ c.ring.slot j
  noReadWhileWritten : ∀ p a i j, (c.producers p).writing = some (a, i) →
    c.consumer.reading = some j → c.ring.slot i ≠ c.ring.slot j

/-- On a ring of two or more slots, for any producers and any interleaving, pops return exactly the
claimed records in claim order, and no slot is written twice at once or read while written. -/
theorem ring_delivery (hinit : initializeRing payload recordMax maxPayload = .ok r)
    (hn : 2 ≤ recordMax.toNat) (hrun : Run RingStep (.initial r) log c)
    (hclaims : (claims log).length < 2 ^ 63) : RingDelivery r.ringMeta.maxPayload log c := by
  obtain ⟨rfl, hm, hs⟩ := initializeRing_ok hinit
  have hmax := recordMax.toNat_lt
  have hinv := ringInv_run hn (ringInv_initial hm hs) hrun (by omega)
  have hslot : ∀ i, c.ring.slot i = i % recordMax.toNat := fun i => by
    rw [Ring.slot, hinv.recordMax]
  refine ⟨hinv.position, hinv.delivered, ?_, programOrder_run hrun, ?_, ?_⟩
  · intro k x hx hrel
    rw [hslot]
    have hkept := kept_run hn (ringInv_initial hm hs) hrun (by omega) k x hx hrel
    have hlt := (List.getElem?_eq_some_iff.mp hx).1
    have htail := hinv.tail_le
    have hcount := hinv.tail
    rcases hinv.slots k ⟨hrel, by omega⟩ with hfree | ⟨-, hseq, y, hy, hcarries⟩
    · exact .inl (hkept hfree)
    · obtain rfl : x = y := by simpa [hx] using hy
      exact .inr ⟨hseq, hcarries⟩
  · intro p q a b i j hpq hi hj
    rw [hslot, hslot]
    exact ((hinv.producers p).writing a i hi).1.slot_ne ((hinv.producers q).writing b j hj).1 hpq
  · intro p a i j hi hj
    rw [hslot, hslot]
    exact ((hinv.producers p).writing a i hi).1.slot_ne_head (hinv.reading_inWindow hj)
      (hinv.consumer.reading j hj).2.2.1

/-- Two slots of 48 payload bytes, one producer: a record pushed and popped. -/
theorem ring_delivery_push_pop : ∃ log c, Run RingStep (.initial (freshRing 2 64)) log c ∧
    (poppedCalls log).length = 1 ∧ RingDelivery (P := Unit) 48 log c := by
  obtain ⟨log, hrun, hclaims, hpop⟩ := calls_run (c := .initial (freshRing 2 64)) (p := ()) rfl rfl
    [.push ⟨7, 0, 9, [1, 2, 3]⟩, .pop [0, 0]]
  have hinit : initializeRing ⟨0, 320⟩ 2 48 = .ok (freshRing 2 64) := rfl
  have hfew : (claims log).length < 2 ^ 63 := lt_of_le_of_lt hclaims (by decide)
  refine ⟨log, _, hrun, ?_, ring_delivery hinit (by decide) hrun hfew⟩
  rw [hpop]
  decide +kernel

end Shmfx
