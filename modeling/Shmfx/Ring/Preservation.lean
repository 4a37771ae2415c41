import Shmfx.Ring.Invariant

/-! Every atomic access of a producer or of the consumer preserves the slot invariant. -/
namespace Shmfx

open Word Window Lts

universe u

variable {P : Type u} {n m : Nat} {log : List (RingEvent P)} {c : RingConfig P} {p : P} {a : Push}
  {pos : Nat}

/-- Restarting a claim list at a longer history keeps every entry. -/
theorem getElem?_append_some {l l' : List (Claimed P)} (k : Nat) (x : Claimed P)
    (h : l[k]? = some x) : (l ++ l')[k]? = some x := by
  obtain ⟨hk, -⟩ := List.getElem?_eq_some_iff.mp h
  rw [List.getElem?_append_left hk, h]

theorem RingInv.capacity_pos (h : RingInv n m log c) : 0 < n := by
  have hv := h.valid
  rw [← h.recordMax]
  simp only [validMeta, Bool.and_eq_true, bne_iff_ne] at hv
  exact Nat.pos_of_ne_zero hv.1.1.1

theorem released_of_reading (h : c.consumer.reading = some pos) : c.released = c.ring.head := by
  unfold RingConfig.released
  split
  · rename_i hc
    simp [hc, PopPc.reading] at h
  · rfl

/-- The position being read opens the window. -/
theorem RingInv.reading_inWindow (h : RingInv n m log c) (hr : c.consumer.reading = some pos) :
    In n c.released pos := by
  obtain ⟨hp, -⟩ := h.consumer.reading pos hr
  have hn := h.capacity_pos
  rw [released_of_reading hr, hp]
  exact ⟨le_rfl, by omega⟩

section Producer

variable [DecidableEq P] {e : PushEvent} {r : Ring} {pc : PushPc}

/-- A producer's access that touches no slot but its own preserves the invariant, given its own
new facts. -/
theorem RingInv.producer (h : RingInv n m log c)
    (hvalid : validMeta r.ringMeta = true) (hmax : r.ringMeta.recordMax = n)
    (hpay : r.ringMeta.maxPayload = m) (hhead : r.head = c.ring.head)
    (htail : r.tail = (claims (log ++ [.push p e])).length)
    (hpos : ∀ (k : Nat) x, (claims (log ++ [.push p e]))[k]? = some x → x.pos = k)
    (hbound : r.tail ≤ c.released + n)
    (hkeep : ∀ pos, In n c.released pos → (∀ a, ¬ Owns n (claims log) c.released c.ring p a pos) →
      r.seq (pos % n) = c.ring.seq (pos % n) ∧ r.record (pos % n) = c.ring.record (pos % n))
    (hslots : ∀ a pos, Owns n (claims log) c.released c.ring p a pos →
      SlotFacts n m (claims (log ++ [.push p e])) r pos)
    (hown : ProducerFacts n m (claims (log ++ [.push p e])) c.released r p pc) :
    RingInv n m (log ++ [.push p e]) ⟨r, Function.update c.producers p pc, c.consumer⟩ := by
  have hcl : ∀ (k : Nat) x, (claims log)[k]? = some x →
      (claims (log ++ [RingEvent.push p e]))[k]? = some x := by
    intro k x hx
    rw [claims_append]
    exact getElem?_append_some k x hx
  have hle : c.ring.tail ≤ r.tail := by
    rw [htail, h.tail, claims_append, List.length_append]
    omega
  have hrel : RingConfig.released ⟨r, Function.update c.producers p pc, c.consumer⟩ =
      c.released := by
    simp only [RingConfig.released, hhead]
  refine ⟨hvalid, hmax, hpay, htail, ?_, hpos, ?_, ?_, ?_, ?_, ?_, ?_⟩
  · simpa [hhead] using h.head
  · rw [hrel]; exact h.released_le.trans hle
  · rw [hrel]; exact hbound
  · intro pos hin
    rw [hrel] at hin
    by_cases ho : ∃ a, Owns n (claims log) c.released c.ring p a pos
    · obtain ⟨a, ho⟩ := ho
      exact hslots a pos ho
    · push Not at ho
      obtain ⟨hseq, hrec⟩ := hkeep pos hin ho
      exact (h.slots pos hin).mono hle hseq hrec hcl
  · intro q
    rw [hrel]
    by_cases hq : q = p
    · subst hq
      simpa using hown
    · simp only [Function.update_of_ne hq]
      refine (h.producers q).frame hle le_rfl hcl ?_
      intro a pos ho
      refine ⟨ho.inWindow.1, hkeep pos ho.inWindow ?_⟩
      intro a' ho'
      exact ho.pos_ne ho' hq rfl
  · refine h.consumer.frame hle hhead hcl ?_
    intro pos hr
    obtain ⟨-, -, hs, -⟩ := h.consumer.reading pos hr
    have hin := h.reading_inWindow hr
    apply hkeep pos hin
    intro a ho
    exact ho.slot_ne_head hin hs rfl
  · intro k popped out hk
    rw [poppedCalls_append, poppedCalls_push, List.append_nil] at hk
    obtain ⟨x, hx, hsh⟩ := h.delivered k popped out hk
    exact ⟨x, hcl k x hx, hsh⟩

/-- Accesses that leave cursors, sequences and records as they were. -/
theorem RingInv.producer_read (h : RingInv n m log c)
    (hvalid : validMeta r.ringMeta = true) (hmax : r.ringMeta.recordMax = n)
    (hpay : r.ringMeta.maxPayload = m) (hhead : r.head = c.ring.head)
    (htail : r.tail = c.ring.tail) (hseq : r.seq = c.ring.seq)
    (hrec : r.record = c.ring.record) (he : claims [RingEvent.push p e] = [])
    (hown : ProducerFacts n m (claims log) c.released r p pc) :
    RingInv n m (log ++ [.push p e]) ⟨r, Function.update c.producers p pc, c.consumer⟩ := by
  have hcl : claims (log ++ [RingEvent.push p e]) = claims log := by rw [claims_append, he]; simp
  refine h.producer hvalid hmax hpay hhead (by rw [hcl, htail, h.tail])
    (by rw [hcl]; exact h.position) (by rw [htail]; exact h.tail_le)
    (fun _ _ _ => ⟨by rw [hseq], by rw [hrec]⟩) ?_ (by rw [hcl]; exact hown)
  intro a pos ho
  rw [hcl]
  exact .inl (by rw [hseq]; exact ho.seq)

/-- A store into the claimed slot's record. -/
theorem RingInv.producer_store {cell : RingRecord} (h : RingInv n m log c)
    (ho : Owns n (claims log) c.released c.ring p a pos)
    (he : claims [RingEvent.push p e] = []) (hw : pc.writing = some (a, pos))
    (hs : pc.snapshot = none) (hc : pc.content m cell) :
    RingInv n m (log ++ [.push p e])
      ⟨c.ring.setRecord (pos % n) cell, Function.update c.producers p pc, c.consumer⟩ := by
  have hcl : claims (log ++ [RingEvent.push p e]) = claims log := by rw [claims_append, he]; simp
  refine h.producer h.valid h.recordMax h.maxPayload rfl (by rw [hcl]; exact h.tail)
    (by rw [hcl]; exact h.position) h.tail_le ?_ ?_ ?_
  · intro k hk hno
    simp [ho.inWindow.update_mod _ _ hk, ho.ne_of_not hno]
  · intro a' k ho'
    exact .inl ho'.seq
  · rw [hcl]
    refine ⟨by simp [hs], ?_, ?_⟩
    · intro a' pos' retry hpc
      simp [hpc, PushPc.writing] at hw
    · intro a' pos' hw'
      obtain ⟨rfl, rfl⟩ : a = a' ∧ pos = pos' := by simpa [hw] using hw'
      exact ⟨⟨ho.inWindow, ho.claimed, ho.seq, ho.claim⟩, by simpa using hc⟩

/-- The CAS on `tail` hands the next position, whose slot is free, to this producer. -/
theorem RingInv.producer_claim (h : RingInv n m log c) (hroom : c.ring.tail < c.released + n)
    (hlt : c.ring.tail + 1 < 2 ^ 64) :
    RingInv n m (log ++ [.push p (.claim a c.ring.tail)])
      ⟨c.ring.setTail (u64 (c.ring.tail + 1)),
        Function.update c.producers p (.storeLen a c.ring.tail), c.consumer⟩ := by
  have hcl : claims (log ++ [RingEvent.push p (.claim a c.ring.tail)]) =
      claims log ++ [⟨p, a, c.ring.tail⟩] := by simp [claims, RingEvent.claimed]
  have hin : In n c.released c.ring.tail := ⟨h.released_le, hroom⟩
  have hseq : c.ring.seq (c.ring.tail % n) = c.ring.tail := by
    rcases h.slots _ hin with hs | ⟨hs, -⟩
    · exact hs
    · exact absurd hs (lt_irrefl _)
  have htail : (c.ring.setTail (u64 (c.ring.tail + 1))).tail = c.ring.tail + 1 := by
    simp [u64_of_lt hlt]
  refine h.producer h.valid h.recordMax h.maxPayload rfl ?_ ?_ (by rw [htail]; omega)
    (fun _ _ _ => ⟨rfl, rfl⟩) ?_ ?_
  · rw [htail, hcl, h.tail]
    simp
  · intro k x hx
    rw [hcl] at hx
    rcases getElem?_snoc hx with hx | ⟨rfl, rfl⟩
    · exact h.position k x hx
    · exact h.tail
  · intro a' k ho
    exact .inl ho.seq
  · refine ⟨by simp [PushPc.snapshot], by simp, ?_⟩
    intro a' pos' hw
    simp only [PushPc.writing, Option.some.injEq, Prod.mk.injEq] at hw
    obtain ⟨rfl, rfl⟩ := hw
    refine ⟨⟨hin, by rw [htail]; omega, hseq, ?_⟩, trivial⟩
    rw [hcl, h.tail]
    simp

/-- Publishing makes the filled slot readable at its position. -/
theorem RingInv.producer_publish (h : RingInv n m log c)
    (ho : Owns n (claims log) c.released c.ring p a pos)
    (hc : Carries m (c.ring.record (pos % n)) (a.stored m)) (hlt : pos + 1 < 2 ^ 64) :
    RingInv n m (log ++ [.push p (.pushed a)])
      ⟨c.ring.setSeq (pos % n) (u64 (pos + 1)), Function.update c.producers p .idle,
        c.consumer⟩ := by
  have hcl : claims (log ++ [RingEvent.push p (.pushed a)]) = claims log := by
    simp [claims, RingEvent.claimed]
  refine h.producer h.valid h.recordMax h.maxPayload rfl (by rw [hcl]; exact h.tail)
    (by rw [hcl]; exact h.position) h.tail_le ?_ ?_ ?_
  · intro k hk hno
    simp [ho.inWindow.update_mod _ _ hk, ho.ne_of_not hno]
  · intro a' k ho'
    rw [hcl]
    by_cases hk : k = pos
    · subst hk
      exact .inr ⟨ho.claimed, by simp [u64_of_lt hlt], _, ho.claim, hc⟩
    · refine .inl ?_
      simp only [Ring.setSeq_seq, ho.inWindow.update_mod _ _ ho'.inWindow, hk, if_false]
      exact ho'.seq
  · exact .of_not_writing rfl (by simp [PushPc.snapshot]) (by simp)

end Producer

section Consumer

variable {e : PopEvent} {pc : PopPc}

/-- Loads of the consumer that neither finish a call with a record nor release its slot. -/
theorem RingInv.consumer_read (h : RingInv n m log c)
    (he : poppedCalls [(RingEvent.pop e : RingEvent P)] = [])
    (hrel : c.released = c.ring.head) (hpc : ∀ out pos popped, pc ≠ .releaseHead out pos popped)
    (hown : ConsumerFacts n m (claims log) c.ring pc) :
    RingInv n m (log ++ [.pop e]) ⟨c.ring, c.producers, pc⟩ := by
  have hcl : claims (log ++ [RingEvent.pop e]) = claims log := by simp
  have hpop : poppedCalls (log ++ [RingEvent.pop e]) = poppedCalls log := by simp [he]
  have hrel' : RingConfig.released ⟨c.ring, c.producers, pc⟩ = c.released := by
    rw [hrel]
    unfold RingConfig.released
    split
    · rename_i hc
      exact absurd hc (hpc _ _ _)
    · rfl
  refine ⟨h.valid, h.recordMax, h.maxPayload, ?_, ?_, ?_, ?_, ?_, ?_, ?_, ?_, ?_⟩
  · rw [hcl]; exact h.tail
  · rw [hpop]; exact h.head
  · rw [hcl]; exact h.position
  · rw [hrel']; exact h.released_le
  · rw [hrel']; exact h.tail_le
  · rw [hrel', hcl]; exact h.slots
  · rw [hrel', hcl]; exact h.producers
  · rw [hcl]; exact hown
  · rw [hpop, hcl]; exact h.delivered

/-- Releasing the slot read moves the window one position on. -/
theorem RingInv.consumer_releaseSlot {out : List UInt8} {popped : PoppedRecord}
    (h : RingInv n m log c) (hpc : c.consumer = .releaseSlot out pos popped)
    (hlt : pos + n < 2 ^ 64) :
    RingInv n m (log ++ [.pop .tau])
      ⟨c.ring.setSeq (pos % n) (u64 (pos + n)), c.producers, .releaseHead out pos popped⟩ := by
  have hreading : c.consumer.reading = some pos := by rw [hpc]; rfl
  have hrel := released_of_reading hreading
  have hin := h.reading_inWindow hreading
  obtain ⟨hp, hlt', hs, x, hx, hcar, hseen⟩ := h.consumer.reading pos hreading
  rw [hpc] at hseen
  have hcl : claims (log ++ [RingEvent.pop .tau]) = claims log := by simp
  have hpop : poppedCalls (log ++ [(RingEvent.pop .tau : RingEvent P)]) = poppedCalls log := by
    simp [poppedCalls, RingEvent.popped]
  have hrel' : RingConfig.released ⟨c.ring.setSeq (pos % n) (u64 (pos + n)), c.producers,
      .releaseHead out pos popped⟩ = c.released + 1 := by
    rw [hrel]; rfl
  refine ⟨h.valid, h.recordMax, h.maxPayload, ?_, ?_, ?_, ?_, ?_, ?_, ?_, ?_, ?_⟩
  · rw [hcl]; exact h.tail
  · rw [hpop]; exact h.head
  · rw [hcl]; exact h.position
  · rw [hrel', hrel, ← hp]; exact hlt'
  · rw [hrel']
    have := h.tail_le
    simp only [Ring.setSeq_tail]
    omega
  · rw [hrel', hcl]
    rintro k ⟨hk1, hk2⟩
    by_cases hlast : k = pos + n
    · subst hlast
      exact .inl (by simp [u64_of_lt hlt])
    · have hk : In n c.released k := ⟨by omega, by omega⟩
      have hne : k ≠ pos := by omega
      exact (h.slots k hk).mono le_rfl (by simp [hin.update_mod _ _ hk, hne]) rfl
        (fun _ _ hx => hx)
  · intro q
    rw [hrel', hcl]
    refine (h.producers q).frame le_rfl (Nat.le_succ _) (fun _ _ hx => hx) ?_
    intro a k ho
    have hslot := ho.slot_ne_head hin hs
    have hne : k ≠ pos := fun he => hslot (by rw [he])
    refine ⟨?_, ?_, rfl⟩
    · have := ho.inWindow.1
      omega
    · simp [Function.update_of_ne hslot]
  · rw [hcl]
    refine ⟨by simp, by simp [PopPc.reading], ?_⟩
    intro out' pos' popped' heq
    obtain ⟨rfl, rfl, rfl⟩ : out = out' ∧ pos = pos' ∧ popped = popped' := by simpa using heq
    exact ⟨hp, hlt', x, hx, hseen⟩
  · rw [hpop, hcl]; exact h.delivered

/-- Storing `head` ends the call: the record just returned is that of the claim at its index. -/
theorem RingInv.consumer_releaseHead {out : List UInt8} {popped : PoppedRecord}
    (h : RingInv n m log c) (hpc : c.consumer = .releaseHead out pos popped)
    (hlt : pos + 1 < 2 ^ 64) :
    RingInv n m (log ++ [.pop (.popped popped out)])
      ⟨c.ring.setHead (u64 (pos + 1)), c.producers, .idle⟩ := by
  obtain ⟨hp, hlt', x, hx, hshow⟩ := h.consumer.releasing out pos popped hpc
  have hcl : claims (log ++ [RingEvent.pop (.popped popped out)]) = claims log := by simp
  have hpop : poppedCalls (log ++ [(RingEvent.pop (.popped popped out) : RingEvent P)]) =
      poppedCalls log ++ [(popped, out)] := by simp [poppedCalls, RingEvent.popped]
  have hhead : (c.ring.setHead (u64 (pos + 1))).head = pos + 1 := by simp [u64_of_lt hlt]
  have hrel : RingConfig.released ⟨c.ring.setHead (u64 (pos + 1)), c.producers, .idle⟩ =
      c.released := by
    simp only [RingConfig.released, hpc]
    rw [hhead, hp]
  refine ⟨h.valid, h.recordMax, h.maxPayload, ?_, ?_, ?_, ?_, ?_, ?_, ?_, ?_, ?_⟩
  · rw [hcl]; exact h.tail
  · rw [hpop, hhead, hp, h.head]
    simp
  · rw [hcl]; exact h.position
  · rw [hrel]; exact h.released_le
  · rw [hrel]; exact h.tail_le
  · rw [hrel, hcl]
    intro k hk
    exact (h.slots k hk).mono le_rfl rfl rfl (fun _ _ hx => hx)
  · intro q
    rw [hrel, hcl]
    exact (h.producers q).frame le_rfl le_rfl (fun _ _ hx => hx)
      (fun _ _ ho => ⟨ho.inWindow.1, rfl, rfl⟩)
  · rw [hcl]
    exact ⟨by simp, by simp [PopPc.reading], by simp⟩
  · intro k popped' out' hk
    rw [hcl]
    rw [hpop] at hk
    rcases getElem?_snoc hk with hk | ⟨rfl, heq⟩
    · exact h.delivered k popped' out' hk
    · obtain ⟨rfl, rfl⟩ := Prod.mk.inj heq
      exact ⟨x, by rw [← h.head, ← hp]; exact hx, hshow⟩

end Consumer

/-- The slot one lap behind the tail, seen from the window's first position. -/
theorem RingInv.seq_tail_of_full (h : RingInv n m log c) (hfull : c.ring.tail = c.released + n) :
    c.ring.seq (c.ring.tail % n) = c.released ∨ c.ring.seq (c.ring.tail % n) = c.released + 1 := by
  have hn := h.capacity_pos
  rw [hfull, Nat.add_mod_right]
  rcases h.slots c.released ⟨le_rfl, by omega⟩ with hs | ⟨-, hs, -⟩
  · exact .inl hs
  · exact .inr hs

/-- A sequence equal to the tail means room, as long as one lap is longer than one position. -/
theorem RingInv.room_of_diff_eq_zero (hn : 2 ≤ n) (h : RingInv n m log c)
    (hd : diff64 (c.ring.seq (c.ring.tail % n)) c.ring.tail = 0) (hlt : c.ring.tail < 2 ^ 64) :
    c.ring.tail < c.released + n := by
  by_contra hge
  have hfull : c.ring.tail = c.released + n := le_antisymm h.tail_le (Nat.not_lt.mp hge)
  rcases h.seq_tail_of_full hfull with hs | hs <;> rw [hs] at hd <;>
    have := (diff64_eq_zero (by omega) (by omega)).mp hd <;> omega

/-- One access of `try_push`, by the program point it is made from. -/
theorem ringInv_pushStep [DecidableEq P] {e : PushEvent} {r : Ring} {pc : PushPc}
    (hn : 2 ≤ n) (h : RingInv n m log c) (hs : PushStep c.ring (c.producers p) e r pc)
    (hlt : c.ring.tail + n ≤ 2 ^ 64) :
    RingInv n m (log ++ [.push p e]) ⟨r, Function.update c.producers p pc, c.consumer⟩ := by
  have hfacts := h.producers p
  have hslot : ∀ pos, c.ring.slot pos = pos % n := fun pos => by rw [Ring.slot, h.recordMax]
  have hread : ∀ {e : PushEvent} {pc : PushPc}, claims [RingEvent.push p e] = [] →
      ProducerFacts n m (claims log) c.released c.ring p pc → RingInv n m (log ++ [.push p e])
        ⟨c.ring, Function.update c.producers p pc, c.consumer⟩ :=
    h.producer_read h.valid h.recordMax h.maxPayload rfl rfl rfl rfl
  generalize hpc : c.producers p = pc₀ at hs hfacts
  cases hs with
  | call a => exact hread rfl (.of_not_writing rfl (by simp [PushPc.snapshot]) (by simp))
  | enter _ => exact hread rfl (.of_not_writing rfl (by simp [PushPc.snapshot]) (by simp))
  | reject _ => exact hread rfl (.of_not_writing rfl (by simp [PushPc.snapshot]) (by simp))
  | loadTail => exact hread rfl (producerFacts_loopHead _ _)
  | @seqFree a pos retry hd =>
    have hpos := hfacts.snapshot pos rfl
    refine hread rfl (.of_not_writing rfl (by simpa [PushPc.snapshot] using hpos) ?_)
    rintro _ _ _ ⟨rfl, rfl, rfl⟩ rfl
    rw [hslot] at hd
    exact h.room_of_diff_eq_zero hn hd (by omega)
  | seqFull _ => exact hread rfl (.of_not_writing rfl (by simp [PushPc.snapshot]) (by simp))
  | seqAhead _ => exact hread rfl (.of_not_writing rfl (by simp [PushPc.snapshot]) (by simp))
  | @claim a pos retry ht =>
    subst ht
    exact h.producer_claim (hfacts.room _ _ _ rfl rfl) (by omega)
  | casFail => exact hread rfl (producerFacts_loopHead _ _)
  | reloadTail => exact hread rfl (producerFacts_loopHead _ _)
  | addLost =>
    exact h.producer_read h.valid h.recordMax h.maxPayload rfl rfl rfl rfl rfl
      (.of_not_writing rfl (by simp [PushPc.snapshot]) (by simp))
  | @storeLen a pos =>
    obtain ⟨ho, -⟩ := hfacts.writing a pos rfl
    rw [hslot, h.maxPayload]
    exact h.producer_store ho rfl rfl rfl rfl
  | @storeType a pos =>
    obtain ⟨ho, hc⟩ := hfacts.writing a pos rfl
    rw [hslot]
    exact h.producer_store ho rfl rfl rfl ⟨hc, rfl⟩
  | @storeFlags a pos =>
    obtain ⟨ho, hl, ht⟩ := hfacts.writing a pos rfl
    rw [hslot, h.maxPayload]
    exact h.producer_store ho rfl rfl rfl ⟨hl, ht, rfl⟩
  | @storeUser a pos =>
    obtain ⟨ho, hl, ht, hf⟩ := hfacts.writing a pos rfl
    rw [hslot, h.maxPayload]
    refine h.producer_store ho rfl rfl rfl ⟨hl, ht, hf, rfl, ?_⟩
    intro j hj hnot
    exact absurd (Finset.mem_range.mpr hj) hnot
  | @copyByte a pos j todo hj =>
    obtain ⟨ho, hl, ht, hf, hu, hb⟩ := hfacts.writing a pos rfl
    rw [hslot]
    refine h.producer_store ho rfl rfl rfl ⟨hl, ht, hf, hu, ?_⟩
    intro i hi hnot
    by_cases hij : i = j
    · subst hij
      simp
    · simp only [Function.update_of_ne hij]
      exact hb i hi (fun hmem => hnot (Finset.mem_erase.mpr ⟨hij, hmem⟩))
  | @copyDone a pos =>
    obtain ⟨ho, hl, ht, hf, hu, hb⟩ := hfacts.writing a pos rfl
    refine hread rfl ⟨by simp [PushPc.snapshot], by simp, ?_⟩
    rintro _ _ ⟨rfl, rfl⟩
    exact ⟨ho, carries_stored hl ht hf hu (fun i hi => hb i hi (Finset.notMem_empty i))⟩
  | @publish a pos =>
    obtain ⟨ho, hc⟩ := hfacts.writing a pos rfl
    have := ho.claimed
    rw [hslot]
    exact h.producer_publish ho hc (by omega)

/-- One access of `try_pop`, by the program point it is made from. -/
theorem ringInv_popStep {e : PopEvent} {r : Ring} {pc : PopPc}
    (hn : 2 ≤ n) (h : RingInv n m log c) (hs : PopStep c.ring c.consumer e r pc)
    (hlt : c.ring.tail + n ≤ 2 ^ 64) :
    RingInv n m (log ++ [.pop e]) ⟨r, c.producers, pc⟩ := by
  have hfacts := h.consumer
  have hslot : ∀ pos, c.ring.slot pos = pos % n := fun pos => by rw [Ring.slot, h.recordMax]
  have hrel : (∀ out pos popped, c.consumer ≠ .releaseHead out pos popped) →
      c.released = c.ring.head := by
    intro hne
    unfold RingConfig.released
    split
    · rename_i hc
      exact absurd hc (hne _ _ _)
    · rfl
  generalize hpc : c.consumer = pc₀ at hs hfacts hrel
  have hread : (∀ out pos popped, pc₀ ≠ .releaseHead out pos popped) →
      ∀ {e : PopEvent} {pc : PopPc}, poppedCalls [(RingEvent.pop e : RingEvent P)] = [] →
      (∀ out pos popped, pc ≠ .releaseHead out pos popped) →
      ConsumerFacts n m (claims log) c.ring pc →
      RingInv n m (log ++ [.pop e]) ⟨c.ring, c.producers, pc⟩ :=
    fun hne _ _ he => h.consumer_read he (hrel hne)
  cases hs with
  | call out => exact hread (by simp) rfl (by simp) ⟨by simp, by simp [PopPc.reading], by simp⟩
  | enter _ => exact hread (by simp) rfl (by simp) ⟨by simp, by simp [PopPc.reading], by simp⟩
  | reject _ => exact hread (by simp) rfl (by simp) ⟨by simp, by simp [PopPc.reading], by simp⟩
  | loadHead =>
    refine hread (by simp) rfl (by simp) ⟨?_, by simp [PopPc.reading], by simp⟩
    rintro _ _ ⟨rfl, rfl⟩
    rfl
  | @seqReady out pos hseq =>
    have hp := hfacts.snapshot out pos rfl
    have hrel' := hrel (by simp)
    have hle := h.released_le
    have hin : In n c.released pos := ⟨by omega, by have := h.capacity_pos; omega⟩
    rw [hslot, u64_of_lt (by omega)] at hseq
    refine hread (by simp) rfl (by simp) ⟨by simp, ?_, by simp⟩
    rintro _ ⟨rfl⟩
    rcases h.slots pos hin with hs | ⟨hlt', -, x, hx, hcar⟩
    · omega
    · exact ⟨hp, hlt', hseq, x, hx, hcar, trivial⟩
  | seqOther _ => exact hread (by simp) rfl (by simp) ⟨by simp, by simp [PopPc.reading], by simp⟩
  | @loadLen out pos size hsize =>
    refine hread (by simp) rfl (by simp) (hfacts.advance rfl rfl ?_)
    intro x hcar _
    rw [hslot, h.maxPayload] at hsize
    exact copied_range (by rw [hsize, hcar.len, Nat.min_eq_left hcar.fits])
  | @copyByte out pos size j todo hj =>
    refine hread (by simp) rfl (by simp) (hfacts.advance rfl rfl ?_)
    intro x hcar hseen
    rw [hslot]
    exact hseen.set hcar.bytes j
  | @copyDone out pos size =>
    exact hread (by simp) rfl (by simp) (hfacts.advance rfl rfl fun _ _ hseen => hseen)
  | @loadType out pos size =>
    refine hread (by simp) rfl (by simp) (hfacts.advance rfl rfl ?_)
    intro x hcar hseen
    exact ⟨hseen, by rw [hslot, hcar.type]⟩
  | @loadFlags out pos size type =>
    refine hread (by simp) rfl (by simp) (hfacts.advance rfl rfl ?_)
    intro x hcar hseen
    exact ⟨hseen.1, hseen.2, by rw [hslot, hcar.flags]⟩
  | @loadUser out pos size type flags =>
    refine hread (by simp) rfl (by simp) (hfacts.advance rfl rfl ?_)
    intro x hcar hseen
    obtain ⟨hcop, ht, hf⟩ := hseen
    rw [hslot]
    exact ⟨ht, hf, hcar.user, hcop.1, by rw [hcop.1], hcop.take_eq⟩
  | @releaseSlot out pos popped =>
    have hp := (hfacts.reading pos rfl).2.1
    rw [hslot, h.recordMax]
    exact h.consumer_releaseSlot hpc (by omega)
  | @releaseHead out pos popped =>
    have hp := (hfacts.releasing out pos popped rfl).2.1
    exact h.consumer_releaseHead hpc (by omega)

end Shmfx
