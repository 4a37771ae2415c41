import Shmfx.Lib.Mealy
import Shmfx.Lib.Window
import Shmfx.Ring.Sequential

/-! Whole calls on the ring against a bounded FIFO queue of stored records. -/
namespace Shmfx

open Word Window Mealy

/-- What the queue keeps of a push: the record as a consumer may read it back. -/
structure Stored where
  type : UInt16
  flags : UInt16
  user : UInt64
  payload : List UInt8
  deriving DecidableEq, Repr

def Push.stored (a : Push) (maxPayload : Nat) : Stored :=
  ⟨a.type, a.storedFlags maxPayload, a.user, a.payload.take maxPayload⟩

/-- The abstract ring: the queued records, oldest first, and the drops modulo 2^64. -/
structure Fifo where
  queue : List Stored
  lost : Nat
  deriving DecidableEq, Repr

inductive RingCall
  | push (a : Push)
  | pop (out : List UInt8)
  deriving DecidableEq, Repr

/-- What a caller observes: the result of a push with the drop counter after it, or of a pop. -/
inductive RingReply
  | pushed (error : Option ErrorCode) (lost : Nat)
  | popped (result : Option (PoppedRecord × List UInt8))
  deriving DecidableEq, Repr

/-- The metadata and the caller's buffer after popping a stored record. -/
def Stored.view (x : Stored) (out : List UInt8) : PoppedRecord × List UInt8 :=
  let copied := min out.length x.payload.length
  (⟨x.type, x.flags, x.user, x.payload.length, copied⟩, x.payload.take copied ++ out.drop copied)

def fifoCall (capacity maxPayload : Nat) (q : Fifo) : RingCall → RingReply × Fifo
  | .push a =>
    if q.queue.length = capacity then
      (.pushed (some .ringFull) (u64 (q.lost + 1)), ⟨q.queue, u64 (q.lost + 1)⟩)
    else (.pushed none q.lost, ⟨q.queue ++ [a.stored maxPayload], q.lost⟩)
  | .pop out =>
    match q.queue with
    | [] => (.popped none, q)
    | x :: xs => (.popped (some (x.view out)), ⟨xs, q.lost⟩)

def ringCall (r : Ring) : RingCall → RingReply × Ring
  | .push a =>
    (.pushed (errorOf (tryPush r a).1) (tryPush r a).2.ringMeta.lostCount, (tryPush r a).2)
  | .pop out => (.popped (tryPop r out).1, (tryPop r out).2)

/-- A slot record carries a stored record. -/
structure Carries (maxPayload : Nat) (cell : RingRecord) (x : Stored) : Prop where
  len : cell.len = x.payload.length
  fits : x.payload.length ≤ maxPayload
  type : cell.type = x.type
  flags : cell.flags = x.flags
  user : cell.user = x.user
  bytes : ∀ i, i < x.payload.length → cell.bytes i = x.payload.getD i 0

/-- The five stored fields make a slot carry the record of a push. -/
theorem carries_stored {cell : RingRecord} {a : Push} {maxPayload : Nat}
    (hl : cell.len = a.written maxPayload) (ht : cell.type = a.type)
    (hf : cell.flags = a.storedFlags maxPayload) (hu : cell.user = a.user)
    (hb : ∀ i, i < a.written maxPayload → cell.bytes i = a.payload.getD i 0) :
    Carries maxPayload cell (a.stored maxPayload) where
  len := by simp [hl, Push.stored, Push.written, Nat.min_comm]
  fits := by simp [Push.stored]
  type := ht
  flags := hf
  user := hu
  bytes := by
    intro i hi
    simp only [Push.stored, List.length_take] at hi
    rw [hb i (by simp only [Push.written]; omega)]
    simp only [Push.stored, List.getD_eq_getElem?_getD]
    rw [List.getElem?_take_of_lt (by omega)]

theorem carries_fill (cell : RingRecord) (a : Push) (maxPayload : Nat) :
    Carries maxPayload (cell.fill a maxPayload) (a.stored maxPayload) :=
  carries_stored rfl rfl rfl rfl (fun i hi => by simp [RingRecord.fill, hi])

theorem Carries.map_bytes {maxPayload : Nat} {cell : RingRecord} {x : Stored}
    (h : Carries maxPayload cell x) {k : Nat} (hk : k ≤ x.payload.length) :
    (List.range k).map cell.bytes = x.payload.take k := by
  apply List.ext_getElem
  · simp [hk]
  · intro i hi _
    have hlt : i < x.payload.length := by
      simp only [List.length_map, List.length_range] at hi
      omega
    simp [h.bytes i hlt, hlt]

/-- Popping a slot that carries a record shows exactly that record. -/
theorem Carries.view {maxPayload : Nat} {cell : RingRecord} {x : Stored}
    (h : Carries maxPayload cell x) (out : List UInt8) :
    (cell.popped maxPayload out.length,
      copyOut out cell.bytes (cell.popped maxPayload out.length).copiedSize) = x.view out := by
  have hmin : min cell.len maxPayload = x.payload.length := by
    rw [h.len]; exact Nat.min_eq_left h.fits
  simp only [RingRecord.popped, Stored.view, copyOut, hmin, h.type, h.flags, h.user]
  rw [h.map_bytes (Nat.min_le_right _ _)]

/-- The ring holds the queue at positions `h` to `t` of an unbounded count that its 64-bit
cursors follow modulo 2^64. -/
structure Represents (r : Ring) (n m h t : Nat) (q : Fifo) : Prop where
  valid : validMeta r.ringMeta = true
  recordMax : r.ringMeta.recordMax = n
  maxPayload : r.ringMeta.maxPayload = m
  head : r.head = u64 h
  tail : r.tail = u64 t
  lost : r.ringMeta.lostCount = q.lost
  length : t = h + q.queue.length
  bound : t ≤ h + n
  queued : ∀ k (hk : k < q.queue.length), r.seq ((h + k) % n) = u64 (h + k + 1) ∧
    Carries m (r.record ((h + k) % n)) q.queue[k]
  free : ∀ p, t ≤ p → p < h + n → r.seq (p % n) = u64 p

/-- The wrapped cursor still selects the slot of the unbounded position. -/
def Fits (n p : Nat) : Prop := p < 2 ^ 64 ∨ n ∣ 2 ^ 64

theorem Fits.mod {n p : Nat} (h : Fits n p) : u64 p % n = p % n := by
  rcases h with h | h
  · rw [u64_of_lt h]
  · exact Nat.mod_mod_of_dvd p h

theorem Fits.mono {n p q : Nat} (h : Fits n q) (hpq : p ≤ q) : Fits n p :=
  h.imp_left (Nat.lt_of_le_of_lt hpq)

theorem claimLoop_free {r : Ring} {pos n : Nat} (hp : pos < 2 ^ 64) (ht : r.tail = pos)
    (hs : r.seq (r.slot pos) = pos) : claimLoop r pos (n + 1) = .claimed pos := by
  have hd := (diff64_eq_zero hp hp).mpr rfl
  simp [claimLoop, hs, hd, ht]

theorem claimLoop_full {r : Ring} {pos n : Nat}
    (hd : diff64 (r.seq (r.slot pos)) pos < 0) :
    claimLoop r pos (n + 1) = .full := by
  simp [claimLoop, hd, Int.ne_of_lt hd]

/-- A slot that stays ahead of the tail only burns the retry budget. -/
theorem claimLoop_ahead {r : Ring} {pos : Nat} (ht : r.tail = pos)
    (hd : 0 < diff64 (r.seq (r.slot pos)) pos) (n : Nat) :
    claimLoop r pos n = .exhausted := by
  induction n with
  | zero => rfl
  | succ n ih =>
    have hne := (Int.ne_of_lt hd).symm
    have hnl := Int.not_lt.mpr (Int.le_of_lt hd)
    simp only [claimLoop, hne, hnl, if_false, ht]
    exact ih

section Calls

variable {r : Ring} {n m h t : Nat} {q : Fifo} {a : Push}

theorem Represents.pos (hr : Represents r n m h t q) : 0 < n := by
  have hv := hr.valid
  rw [← hr.recordMax]
  simp only [validMeta, Bool.and_eq_true, bne_iff_ne] at hv
  exact Nat.pos_of_ne_zero hv.1.1.1

theorem Represents.slot (hr : Represents r n m h t q) (hf : Fits n t) :
    r.slot r.tail = t % n := by
  rw [Ring.slot, hr.tail, hr.recordMax, hf.mod]

/-- With room left, a push claims the next position and enqueues its record. -/
theorem Represents.push (hr : Represents r n m h t q) (hf : Fits n t) (hroom : t < h + n) :
    (tryPush r a).1 = .ok () ∧ Represents (tryPush r a).2 n m h (t + 1)
      ⟨q.queue ++ [a.stored m], q.lost⟩ := by
  have hseq : r.seq (r.slot r.tail) = r.tail := by
    rw [hr.slot hf, hr.free t le_rfl hroom, hr.tail]
  have hclaim : claimLoop r r.tail mpscCasRetryBudget = .claimed r.tail :=
    claimLoop_free (by rw [hr.tail]; exact u64_lt t) rfl hseq
  have hnext : u64 (r.tail + 1) = u64 (t + 1) := by
    rw [hr.tail]; simp only [u64]; omega
  have ht : In n h t := ⟨by have := hr.length; omega, hroom⟩
  simp only [tryPush, hr.valid, if_true, hclaim, hr.slot hf, hnext, hr.maxPayload, true_and]
  refine ⟨hr.valid, hr.recordMax, hr.maxPayload, hr.head, rfl, hr.lost, ?_, ?_, ?_, ?_⟩
  · simp [hr.length, Nat.add_assoc]
  · omega
  · intro k hk
    simp only [List.length_append, List.length_singleton] at hk
    have hlen := hr.length
    have hin : In n h (h + k) := ⟨by omega, by omega⟩
    simp only [Ring.setSeq_seq, Ring.setSeq_record, Ring.setRecord_record, Ring.setRecord_seq,
      Ring.setTail_seq, ht.update_mod _ _ hin]
    by_cases hkt : h + k = t
    · have hk' : k = q.queue.length := by omega
      subst hk'
      simp only [hkt, if_true, List.getElem_append_right le_rfl, Nat.sub_self, true_and]
      exact carries_fill _ a _
    · have hk' : k < q.queue.length := by omega
      simp only [hkt, if_false, List.getElem_append_left hk']
      exact hr.queued k hk'
  · intro p hp hpn
    have hin : In n h p := ⟨by have := ht.1; omega, hpn⟩
    have hne : p ≠ t := by omega
    simp only [Ring.setSeq_seq, Ring.setRecord_seq, Ring.setTail_seq, ht.update_mod _ _ hin, hne,
      if_false]
    exact hr.free p (by omega) hpn

theorem Represents.addLost (hr : Represents r n m h t q) :
    Represents r.addLost n m h t ⟨q.queue, u64 (q.lost + 1)⟩ where
  valid := hr.valid
  recordMax := hr.recordMax
  maxPayload := hr.maxPayload
  head := hr.head
  tail := hr.tail
  lost := by simp [Ring.addLost, hr.lost]
  length := hr.length
  bound := hr.bound
  queued := hr.queued
  free := hr.free

/-- On a full ring of two or more slots the published value lies behind the tail. -/
theorem Represents.push_full (hr : Represents r n m h t q) (hf : Fits n t) (hn : 2 ≤ n)
    (hn' : n < 2 ^ 32) (hfull : t = h + n) :
    tryPush r a = (.error .ringFull, r.addLost) := by
  have hlen := hr.length
  have hq := (hr.queued 0 (by omega)).1
  have hslot : r.slot r.tail = h % n := by
    rw [hr.slot hf, hfull, Nat.add_mod_right]
  have hd : diff64 (r.seq (r.slot r.tail)) r.tail < 0 := by
    rw [hslot, hr.tail, hfull]
    simp only [Nat.add_zero] at hq
    rw [hq]
    exact diff64_u64_neg (by omega) (by omega)
  have hclaim : claimLoop r r.tail mpscCasRetryBudget = .full := claimLoop_full hd
  simp [tryPush, hr.valid, hclaim]

/-- With a single slot the published value of one lap is the free value of the next. -/
theorem Represents.push_full_one (hr : Represents r 1 m h t q) (hfull : t = h + 1) :
    (tryPush r a).1 = .ok () := by
  have hlen := hr.length
  have hq := (hr.queued 0 (by omega)).1
  have hf : Fits 1 t := .inr (one_dvd _)
  have hseq : r.seq (r.slot r.tail) = r.tail := by
    rw [hr.slot hf, hr.tail, hfull]
    simpa [Nat.mod_one] using hq
  have hclaim : claimLoop r r.tail mpscCasRetryBudget = .claimed r.tail :=
    claimLoop_free (by rw [hr.tail]; exact u64_lt t) rfl hseq
  simp [tryPush, hr.valid, hclaim]

theorem Represents.pop_empty (hr : Represents r n m h t q) (hf : Fits n h) (he : q.queue = [])
    (out : List UInt8) : tryPop r out = (none, r) := by
  have ht : t = h := by simpa [he] using hr.length
  subst ht
  have hseq : r.seq (r.slot r.head) = u64 t := by
    rw [Ring.slot, hr.head, hr.recordMax, hf.mod]
    exact hr.free t le_rfl (by have := hr.pos; omega)
  have hne : u64 t ≠ u64 (r.head + 1) := by
    rw [hr.head]; simp only [u64]; omega
  simp [tryPop, hseq, hne]

/-- A pop of a non-empty ring shows the oldest record and hands its slot to the next lap. -/
theorem Represents.pop {x : Stored} {xs : List Stored} (hr : Represents r n m h t q)
    (hf : Fits n h) (hx : q.queue = x :: xs) (out : List UInt8) :
    (tryPop r out).1 = some (x.view out) ∧
      Represents (tryPop r out).2 n m (h + 1) t ⟨xs, q.lost⟩ := by
  have hlen : t = h + (xs.length + 1) := by simpa [hx] using hr.length
  have hbound := hr.bound
  have hslot : r.slot r.head = h % n := by
    rw [Ring.slot, hr.head, hr.recordMax, hf.mod]
  obtain ⟨hseq, hcar⟩ := hr.queued 0 (by simp [hx])
  simp only [Nat.add_zero, hx, List.getElem_cons_zero] at hseq hcar
  have hnext : u64 (r.head + 1) = u64 (h + 1) := by
    rw [hr.head]; simp only [u64]; omega
  have hlap : u64 (r.head + r.ringMeta.recordMax) = u64 (h + n) := by
    rw [hr.head, hr.recordMax]; simp only [u64]; omega
  have hh : In n h h := ⟨le_rfl, by omega⟩
  simp only [tryPop, hr.valid, if_true, hslot, hseq, hnext, hlap, hr.maxPayload, hcar.view out,
    true_and]
  refine ⟨hr.valid, hr.recordMax, hr.maxPayload, rfl, hr.tail, hr.lost, by simp; omega, by omega,
    ?_, ?_⟩
  · intro k hk
    have hk' : k + 1 < q.queue.length := by rw [hx]; simpa using hk
    have hin : In n h (h + 1 + k) := ⟨by omega, by simp only [hx, List.length_cons] at hk'; omega⟩
    have hne : h + 1 + k ≠ h := by omega
    have hq := hr.queued (k + 1) hk'
    simp only [hx, List.getElem_cons_succ] at hq
    rw [show h + (k + 1) = h + 1 + k by omega] at hq
    simp only [Ring.setHead_seq, Ring.setHead_record, Ring.setSeq_seq, Ring.setSeq_record,
      hh.update_mod _ _ hin, hne, if_false]
    exact hq
  · intro p hp hpn
    simp only [Ring.setHead_seq, Ring.setSeq_seq]
    by_cases hlast : p = h + n
    · subst hlast
      simp
    · have hin : In n h p := ⟨by omega, by omega⟩
      have hne : p ≠ h := by omega
      simp only [hh.update_mod _ _ hin, hne, if_false]
      exact hr.free p hp (by omega)

/-- A push and a pop on an empty ring move both cursors by one. -/
theorem Represents.round (hr : Represents r n m h h ⟨[], q.lost⟩) (hh : h < 2 ^ 64) (a : Push)
    (out : List UInt8) : (tryPush r a).1 = .ok () ∧
      Represents (tryPop (tryPush r a).2 out).2 n m (h + 1) (h + 1) ⟨[], q.lost⟩ := by
  have hn := hr.pos
  obtain ⟨hok, hp⟩ := hr.push (a := a) (.inl hh) (by omega)
  exact ⟨hok, (hp.pop (.inl hh) rfl out).2⟩

end Calls

theorem represents_freshRing {recordMax recordStride : Nat} (hm : 0 < recordMax)
    (hm' : recordMax < 2 ^ 32) (hs : recordHeaderBytes ≤ recordStride) :
    Represents (freshRing recordMax recordStride) recordMax (recordStride - recordHeaderBytes)
      0 0 ⟨[], 0⟩ where
  valid := validMeta_freshRing hm hs
  recordMax := rfl
  maxPayload := rfl
  head := rfl
  tail := rfl
  lost := rfl
  length := rfl
  bound := Nat.zero_le _
  queued k hk := absurd hk (Nat.not_lt_zero k)
  free := by
    intro p _ hp
    rw [Nat.zero_add] at hp
    simp only [freshRing, Nat.mod_eq_of_lt hp, hp, if_true]
    rw [u64_of_lt (by omega)]

/-- Push attempts in a call sequence; each moves the tail by at most one. -/
def pushes : List RingCall → Nat
  | [] => 0
  | .push _ :: cs => pushes cs + 1
  | .pop _ :: cs => pushes cs

/-- `k` pushes, each popped at once. -/
def pushPops (a : Push) (k : Nat) : List RingCall :=
  (List.replicate k [.push a, .pop []]).flatten

theorem pushPops_succ (a : Push) (k : Nat) :
    pushPops a (k + 1) = pushPops a k ++ [.push a, .pop []] := by
  simp [pushPops, List.replicate_succ']

theorem pushes_append (cs ds : List RingCall) : pushes (cs ++ ds) = pushes cs + pushes ds := by
  induction cs with
  | nil => simp [pushes]
  | cons c cs ih =>
    cases c <;> simp only [List.cons_append, pushes, ih]
    omega

theorem pushes_pushPops (a : Push) (k : Nat) : pushes (pushPops a k) = k := by
  induction k with
  | zero => rfl
  | succ k ih =>
    rw [pushPops_succ, pushes_append, ih]
    rfl

theorem represents_pushPops {r : Ring} {n m k : Nat} (hr : Represents r n m 0 0 ⟨[], 0⟩)
    (a : Push) (hk : k ≤ 2 ^ 64) :
    Represents (final ringCall r (pushPops a k)) n m k k ⟨[], 0⟩ := by
  induction k with
  | zero => exact hr
  | succ k ih =>
    have hq := ((ih (by omega)).round (q := ⟨[], 0⟩) (by omega) a []).2
    simpa [pushPops_succ, final_append, final, ringCall] using hq

end Shmfx
