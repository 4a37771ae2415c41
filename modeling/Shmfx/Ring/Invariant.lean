import Shmfx.Lib.Window
import Shmfx.Ring.Atomic
import Shmfx.Ring.Fifo

/-! The slot invariant: what head, tail and every slot's sequence say at each point of a run. -/
namespace Shmfx

open Word Window Lts

universe u

variable {P : Type u} {n m rel rel' : Nat} {cl cl' : List (Claimed P)} {r r' : Ring} {p q : P}
  {a : Push} {pos : Nat}

/-- The claim a producer is carrying out, from its CAS to its publishing store. -/
def PushPc.writing : PushPc → Option (Push × Nat)
  | .storeLen a pos | .storeType a pos | .storeFlags a pos | .storeUser a pos | .copy a pos _
  | .publish a pos => some (a, pos)
  | _ => none

/-- The tail snapshot a producer is working from. -/
def PushPc.snapshot : PushPc → Option Nat
  | .loadSeq _ pos _ | .compareExchange _ pos _ => some pos
  | _ => none

/-- What the stores made so far have left in the claimed slot. -/
def PushPc.content (m : Nat) (cell : RingRecord) : PushPc → Prop
  | .storeType a _ => cell.len = a.written m
  | .storeFlags a _ => cell.len = a.written m ∧ cell.type = a.type
  | .storeUser a _ => cell.len = a.written m ∧ cell.type = a.type ∧
      cell.flags = a.storedFlags m
  | .copy a _ todo => cell.len = a.written m ∧ cell.type = a.type ∧
      cell.flags = a.storedFlags m ∧ cell.user = a.user ∧
      ∀ j, j < a.written m → j ∉ todo → cell.bytes j = a.payload.getD j 0
  | .publish a _ => Carries m cell (a.stored m)
  | _ => True

/-- A producer owns the slot of a position it has claimed and not yet published. -/
structure Owns (n : Nat) (cl : List (Claimed P)) (rel : Nat) (r : Ring) (p : P) (a : Push)
    (pos : Nat) : Prop where
  inWindow : In n rel pos
  claimed : pos < r.tail
  seq : r.seq (pos % n) = pos
  claim : cl[pos]? = some ⟨p, a, pos⟩

theorem Owns.ne_of_not {n rel pos k : Nat} {cl : List (Claimed P)} {r : Ring} {p : P} {a : Push}
    (h : Owns n cl rel r p a pos) (hk : ∀ a, ¬ Owns n cl rel r p a k) : k ≠ pos := by
  rintro rfl
  exact hk a h

structure ProducerFacts (n m : Nat) (cl : List (Claimed P)) (rel : Nat) (r : Ring) (p : P)
    (pc : PushPc) : Prop where
  snapshot : ∀ pos, pc.snapshot = some pos → pos ≤ r.tail
  room : ∀ a pos retry, pc = .compareExchange a pos retry → pos = r.tail → r.tail < rel + n
  writing : ∀ a pos, pc.writing = some (a, pos) →
    Owns n cl rel r p a pos ∧ pc.content m (r.record (pos % n))

/-- A slot of the current window is either still free for its position or published in full. -/
def SlotFacts (n m : Nat) (cl : List (Claimed P)) (r : Ring) (pos : Nat) : Prop :=
  r.seq (pos % n) = pos ∨ (pos < r.tail ∧ r.seq (pos % n) = pos + 1 ∧
    ∃ x, cl[pos]? = some x ∧ Carries m (r.record (pos % n)) (x.push.stored m))

/-- What a pop returns for a stored record: the metadata and the prefix that fits the buffer. -/
structure Shows (x : Stored) (popped : PoppedRecord) (out : List UInt8) : Prop where
  type : popped.type = x.type
  flags : popped.flags = x.flags
  user : popped.user = x.user
  payloadSize : popped.payloadSize = x.payload.length
  copiedSize : popped.copiedSize = min out.length x.payload.length
  bytes : out.take popped.copiedSize = x.payload.take popped.copiedSize

/-- The bytes of the caller's buffer below `size` outside `todo` are the record's. -/
def Copied (x : Stored) (out : List UInt8) (size : Nat) (todo : Finset Nat) : Prop :=
  size = x.payload.length ∧
    ∀ j, j < min out.length size → j ∉ todo → out[j]? = some (x.payload.getD j 0)

/-- The position being read, from the successful sequence test to the slot's release. -/
def PopPc.reading : PopPc → Option Nat
  | .loadLen _ pos | .copy _ pos _ _ | .loadType _ pos _ | .loadFlags _ pos _ _
  | .loadUser _ pos _ _ _ | .releaseSlot _ pos _ => some pos
  | _ => none

/-- What the consumer has read so far of the record at its position. -/
def PopPc.seen (x : Stored) : PopPc → Prop
  | .copy out _ size todo => Copied x out size todo
  | .loadType out _ size => Copied x out size ∅
  | .loadFlags out _ size type => Copied x out size ∅ ∧ type = x.type
  | .loadUser out _ size type flags => Copied x out size ∅ ∧ type = x.type ∧ flags = x.flags
  | .releaseSlot out _ popped | .releaseHead out _ popped => Shows x popped out
  | _ => True

structure ConsumerFacts (n m : Nat) (cl : List (Claimed P)) (r : Ring) (pc : PopPc) : Prop where
  snapshot : ∀ out pos, pc = .loadSeq out pos → pos = r.head
  reading : ∀ pos, pc.reading = some pos → pos = r.head ∧ pos < r.tail ∧
    r.seq (pos % n) = pos + 1 ∧ ∃ x, cl[pos]? = some x ∧
      Carries m (r.record (pos % n)) (x.push.stored m) ∧ pc.seen (x.push.stored m)
  releasing : ∀ out pos popped, pc = .releaseHead out pos popped → pos = r.head ∧
    pos < r.tail ∧ ∃ x, cl[pos]? = some x ∧ Shows (x.push.stored m) popped out

/-- Positions handed back to the producers: between its two release stores the consumer has
returned one slot more than `head` shows. -/
def RingConfig.released (c : RingConfig P) : Nat :=
  match c.consumer with
  | .releaseHead .. => c.ring.head + 1
  | _ => c.ring.head

structure RingInv (n m : Nat) (log : List (RingEvent P)) (c : RingConfig P) : Prop where
  valid : validMeta c.ring.ringMeta = true
  recordMax : c.ring.ringMeta.recordMax = n
  maxPayload : c.ring.ringMeta.maxPayload = m
  tail : c.ring.tail = (claims log).length
  head : c.ring.head = (poppedCalls log).length
  position : ∀ (k : Nat) x, (claims log)[k]? = some x → x.pos = k
  released_le : c.released ≤ c.ring.tail
  tail_le : c.ring.tail ≤ c.released + n
  slots : ∀ pos, In n c.released pos → SlotFacts n m (claims log) c.ring pos
  producers : ∀ p, ProducerFacts n m (claims log) c.released c.ring p (c.producers p)
  consumer : ConsumerFacts n m (claims log) c.ring c.consumer
  delivered : ∀ (k : Nat) popped out, (poppedCalls log)[k]? = some (popped, out) →
    ∃ x, (claims log)[k]? = some x ∧ Shows (x.push.stored m) popped out

/-- Facts about a producer survive any change that leaves its own slot alone. -/
theorem ProducerFacts.frame {pc : PushPc} (h : ProducerFacts n m cl rel r p pc)
    (htail : r.tail ≤ r'.tail) (hrel : rel ≤ rel')
    (hcl : ∀ (k : Nat) x, cl[k]? = some x → cl'[k]? = some x)
    (hkeep : ∀ a pos, Owns n cl rel r p a pos → rel' ≤ pos ∧
      r'.seq (pos % n) = r.seq (pos % n) ∧ r'.record (pos % n) = r.record (pos % n)) :
    ProducerFacts n m cl' rel' r' p pc where
  snapshot pos hs := (h.snapshot pos hs).trans htail
  room a pos retry hpc heq := by
    have hle := h.snapshot pos (by simp [hpc, PushPc.snapshot])
    have := h.room a pos retry hpc (by omega)
    omega
  writing a pos hw := by
    obtain ⟨ho, hc⟩ := h.writing a pos hw
    obtain ⟨hlo, hseq, hrec⟩ := hkeep a pos ho
    refine ⟨⟨⟨hlo, ?_⟩, ho.claimed.trans_le htail, by rw [hseq, ho.seq], hcl _ _ ho.claim⟩, ?_⟩
    · have := ho.inWindow.2
      omega
    · rwa [hrec]

/-- A producer outside a claim needs only a tail snapshot that is not from the future. -/
theorem ProducerFacts.of_not_writing {pc : PushPc} (hw : pc.writing = none)
    (hs : ∀ pos, pc.snapshot = some pos → pos ≤ r.tail)
    (hr : ∀ a pos retry, pc = .compareExchange a pos retry → pos = r.tail → r.tail < rel + n) :
    ProducerFacts n m cl rel r p pc where
  snapshot := hs
  room := hr
  writing a pos h := by simp [hw] at h

theorem producerFacts_loopHead (a : Push) (retry : Nat) :
    ProducerFacts n m cl rel r p (loopHead a r.tail retry) := by
  unfold loopHead
  split
  · apply ProducerFacts.of_not_writing rfl
    · intro pos hs
      simp only [PushPc.snapshot, Option.some.injEq] at hs
      omega
    · intro _ _ _ hpc
      simp at hpc
  · exact .of_not_writing rfl (by simp [PushPc.snapshot]) (by simp)

/-- Distinct producers own slots of distinct positions. -/
theorem Owns.pos_ne {a' : Push} {pos' : Nat} (h : Owns n cl rel r p a pos)
    (h' : Owns n cl rel r q a' pos') (hpq : p ≠ q) : pos ≠ pos' := by
  rintro rfl
  have he := h.claim.symm.trans h'.claim
  simp only [Option.some.injEq, Claimed.mk.injEq] at he
  exact hpq he.1

theorem Owns.slot_ne {a' : Push} {pos' : Nat} (h : Owns n cl rel r p a pos)
    (h' : Owns n cl rel r q a' pos') (hpq : p ≠ q) : pos % n ≠ pos' % n := by
  intro he
  exact h.pos_ne h' hpq (h.inWindow.eq_of_mod_eq h'.inWindow he)

/-- The slot being read is published, so no producer owns it. -/
theorem Owns.slot_ne_head {k : Nat} (h : Owns n cl rel r p a pos) (hk : In n rel k)
    (hs : r.seq (k % n) = k + 1) : pos % n ≠ k % n := by
  intro he
  have hpk := h.inWindow.eq_of_mod_eq hk he
  have := h.seq
  subst hpk
  omega

theorem SlotFacts.mono (h : SlotFacts n m cl r pos) (htail : r.tail ≤ r'.tail)
    (hseq : r'.seq (pos % n) = r.seq (pos % n))
    (hrec : r'.record (pos % n) = r.record (pos % n))
    (hcl : ∀ (k : Nat) x, cl[k]? = some x → cl'[k]? = some x) : SlotFacts n m cl' r' pos := by
  rcases h with h | ⟨hlt, hs, x, hx, hc⟩
  · exact .inl (by rw [hseq, h])
  · exact .inr ⟨hlt.trans_le htail, by rw [hseq, hs], x, hcl _ _ hx, by rwa [hrec]⟩

theorem ConsumerFacts.frame {pc : PopPc} (h : ConsumerFacts n m cl r pc)
    (htail : r.tail ≤ r'.tail) (hhead : r'.head = r.head)
    (hcl : ∀ (k : Nat) x, cl[k]? = some x → cl'[k]? = some x)
    (hkeep : ∀ pos, pc.reading = some pos → r'.seq (pos % n) = r.seq (pos % n) ∧
      r'.record (pos % n) = r.record (pos % n)) : ConsumerFacts n m cl' r' pc where
  snapshot out pos hpc := by rw [hhead]; exact h.snapshot out pos hpc
  reading pos hpc := by
    obtain ⟨hp, hlt, hs, x, hx, hc, hseen⟩ := h.reading pos hpc
    obtain ⟨hseq, hrec⟩ := hkeep pos hpc
    exact ⟨by rw [hhead, hp], hlt.trans_le htail, by rw [hseq, hs], x, hcl _ _ hx,
      by rwa [hrec], hseen⟩
  releasing out pos popped hpc := by
    obtain ⟨hp, hlt, x, hx, hs⟩ := h.releasing out pos popped hpc
    exact ⟨by rw [hhead, hp], hlt.trans_le htail, x, hcl _ _ hx, hs⟩

/-- Reading on within the same slot changes only what has been seen of it. -/
theorem ConsumerFacts.advance {pc pc' : PopPc} (h : ConsumerFacts n m cl r pc)
    (hr : pc.reading = some pos) (hr' : pc'.reading = some pos)
    (hseen : ∀ x, Carries m (r.record (pos % n)) x → pc.seen x → pc'.seen x) :
    ConsumerFacts n m cl r pc' where
  snapshot out k hpc := by simp [hpc, PopPc.reading] at hr'
  reading k hk := by
    obtain rfl : pos = k := by simpa [hr'] using hk
    obtain ⟨hp, hlt, hs, x, hx, hc, hx'⟩ := h.reading pos hr
    exact ⟨hp, hlt, hs, x, hx, hc, hseen _ hc hx'⟩
  releasing out k popped hpc := by simp [hpc, PopPc.reading] at hr'

theorem copied_range {x : Stored} {out : List UInt8} {size : Nat} (h : size = x.payload.length) :
    Copied x out size (Finset.range (min out.length size)) :=
  ⟨h, fun _ hj hnot => absurd (Finset.mem_range.mpr hj) hnot⟩

theorem Copied.set {x : Stored} {out : List UInt8} {size : Nat} {todo : Finset Nat}
    {bytes : Nat → UInt8} (h : Copied x out size todo)
    (hb : ∀ i, i < x.payload.length → bytes i = x.payload.getD i 0) (j : Nat) :
    Copied x (out.set j (bytes j)) size (todo.erase j) := by
  refine ⟨h.1, ?_⟩
  intro i hi hnot
  rw [List.length_set] at hi
  by_cases hij : i = j
  · subst hij
    have hlen : i < x.payload.length := by have := h.1; omega
    rw [List.getElem?_set_self (by omega), hb i hlen]
  · rw [List.getElem?_set_ne (Ne.symm hij)]
    exact h.2 i hi (fun hmem => hnot (Finset.mem_erase.mpr ⟨hij, hmem⟩))

theorem Copied.take_eq {x : Stored} {out : List UInt8} {size : Nat} (h : Copied x out size ∅) :
    out.take (min out.length size) = x.payload.take (min out.length size) := by
  obtain ⟨hs, hb⟩ := h
  apply List.ext_getElem?
  intro i
  by_cases hi : i < min out.length size
  · have hlen : i < x.payload.length := by omega
    rw [List.getElem?_take_of_lt hi, List.getElem?_take_of_lt hi, hb i hi (Finset.notMem_empty i)]
    simp [hlen]
  · simp [List.getElem?_take, hi]

end Shmfx
