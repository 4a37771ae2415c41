import Shmfx.Ring.Delivery

/-! A ring nobody is writing to: repeated pops return the claims that are still owed. -/
namespace Shmfx

open Word Window Lts Mealy

universe u

variable {P : Type u} {n m h t : Nat} {log : List (RingEvent P)} {c : RingConfig P} {r : Ring}
  {q : Fifo}

/-- Every participant has returned from its last call. -/
structure RingConfig.BetweenCalls (c : RingConfig P) : Prop where
  producers : ∀ p, c.producers p = .idle
  consumer : c.consumer = .idle

/-- The claimed records that no pop has returned, in claim order. -/
def backlog (m : Nat) (log : List (RingEvent P)) : List Stored :=
  ((claims log).drop (poppedCalls log).length).map (·.push.stored m)

/-- Pops in a row return the records `xs`, oldest first, and nothing after them. -/
def PopsReturn (r : Ring) (xs : List Stored) : Prop :=
  ∀ (outs : List (List UInt8)) (i : Nat),
    (replies tryPop r outs)[i]? = outs[i]?.map fun out => xs[i]?.map (·.view out)

theorem Represents.popsReturn (hr : Represents r n m h t q) (hf : Fits n t) :
    PopsReturn r q.queue := by
  intro outs
  induction outs generalizing r h q with
  | nil => simp [replies]
  | cons out outs ih =>
    have hle := hr.length
    intro i
    cases hx : q.queue with
    | nil =>
      have hpop := hr.pop_empty (hf.mono (by omega)) hx out
      have hrest := ih hr
      rw [hx] at hrest
      cases i with
      | zero => simp [replies, hpop]
      | succ i => simpa [replies, hpop] using hrest i
    | cons x xs =>
      obtain ⟨hpop, hr'⟩ := hr.pop (hf.mono (by omega)) hx out
      cases i with
      | zero => simp [replies, hpop]
      | succ i => simpa [replies] using ih hr' i

theorem length_backlog (hi : RingInv n m log c) :
    (backlog m log).length = c.ring.tail - c.ring.head := by
  simp [backlog, hi.tail, hi.head]

/-- With no claim being written and no slot between its two release stores, the ring is the queue
of its backlog. -/
theorem represents_backlog (hi : RingInv n m log c) (hk : Kept n log c)
    (hw : ∀ p, (c.producers p).writing = none) (hrel : c.released = c.ring.head)
    (hlt : (claims log).length + n ≤ 2 ^ 64) :
    Represents c.ring n m c.ring.head c.ring.tail
      ⟨backlog m log, c.ring.ringMeta.lostCount⟩ := by
  have hn := hi.capacity_pos
  have hle := hi.released_le
  have htail := hi.tail_le
  rw [← hi.tail] at hlt
  rw [hrel] at hle htail
  refine ⟨hi.valid, hi.recordMax, hi.maxPayload, (u64_of_lt (by omega)).symm,
    (u64_of_lt (by omega)).symm, rfl, ?_, htail, ?_, ?_⟩
  · rw [length_backlog hi]
    omega
  · intro k hlen
    have hk' : k < c.ring.tail - c.ring.head := by rwa [length_backlog hi] at hlen
    have hin : In n c.released (c.ring.head + k) := by
      rw [hrel]
      exact ⟨by omega, by omega⟩
    obtain ⟨x, hx⟩ : ∃ x, (claims log)[c.ring.head + k]? = some x := by
      have hlt' : c.ring.head + k < (claims log).length := by rw [← hi.tail]; omega
      exact ⟨_, List.getElem?_eq_getElem hlt'⟩
    have hget : (backlog m log)[k] = x.push.stored m := by
      obtain ⟨hlt', rfl⟩ := List.getElem?_eq_some_iff.mp hx
      simp [backlog, hi.head]
    rcases hi.slots _ hin with hfree | ⟨-, hseq, y, hy, hcar⟩
    · -- a free slot of a claimed position would be in its claimer's hands
      have := hk _ x hx (by omega) hfree
      rw [hw] at this
      cases this
    · obtain rfl : x = y := by simpa [hx] using hy
      refine ⟨by rw [hseq, u64_of_lt (by omega)], ?_⟩
      simpa only [hget] using hcar
  · intro p hp hpn
    rcases hi.slots p ⟨by omega, by omega⟩ with hfree | ⟨hlt', -⟩
    · rw [hfree, u64_of_lt (by omega)]
    · omega

/-- A claim is made only while the positions of the next lap still fit 64 bits. -/
def RoomToCount (c : RingConfig P) : RingEvent P → Prop
  | .push _ (.claim _ _) => c.ring.tail + c.ring.ringMeta.recordMax < 2 ^ 64
  | _ => True

/-- What a run keeps as long as its claims leave room to count. -/
structure RingSafe (n m : Nat) (log : List (RingEvent P)) (c : RingConfig P) : Prop where
  inv : RingInv n m log c
  kept : Kept n log c
  few : (claims log).length + n ≤ 2 ^ 64

theorem ringSafe_initial {recordMax recordStride : Nat} (hm : 0 < recordMax)
    (hm' : recordMax < 2 ^ 32) (hs : recordHeaderBytes ≤ recordStride) :
    RingSafe recordMax (recordStride - recordHeaderBytes) []
      (RingConfig.initial (P := P) (freshRing recordMax recordStride)) where
  inv := ringInv_initial hm hs
  kept k x hx := by simp [claims] at hx
  few := by simp only [claims, List.filterMap_nil, List.length_nil]; omega

theorem ringSafe_step [DecidableEq P] {e : RingEvent P} {c' : RingConfig P} (hn : 2 ≤ n)
    (h : RingSafe n m log c) (hs : RingStep c e c') (hroom : RoomToCount c e) :
    RingSafe n m (log ++ [e]) c' where
  inv := ringInv_step hn h.inv hs h.few
  kept := kept_step h.inv h.kept hs (by have := h.few; omega)
  few := by
    have hfew := h.few
    rw [claims_append, List.length_append]
    rcases e with ⟨p, e⟩ | e
    · cases e with
      | claim a pos =>
        have hroom : c.ring.tail + c.ring.ringMeta.recordMax < 2 ^ 64 := hroom
        rw [h.inv.tail, h.inv.recordMax] at hroom
        have hone : (claims [RingEvent.push p (.claim a pos)]).length = 1 := rfl
        omega
      | _ => exact hfew
    · exact hfew

/-- Few claims altogether leave room at every single one. -/
theorem run_roomToCount [DecidableEq P] {c₀ : RingConfig P} (hn : 2 ≤ n) (h₀ : RingInv n m [] c₀)
    (hrun : Run RingStep c₀ log c) (hlt : (claims log).length + n ≤ 2 ^ 64) :
    Run (Guarded RoomToCount RingStep) c₀ log c := by
  refine hrun.guard ?_
  rintro bs e cs s s' rfl hr -
  rw [claims_append, List.length_append] at hlt
  have hinv := ringInv_run hn h₀ hr (by omega)
  rcases e with ⟨p, e⟩ | e
  · cases e with
    | claim a pos =>
      have hone : 0 < (claims (RingEvent.push p (.claim a pos) :: cs)).length :=
        Nat.succ_pos _
      rw [RoomToCount, hinv.tail, hinv.recordMax]
      omega
    | _ => trivial
  · trivial

/-- Between calls, pops in a row return exactly the backlog. -/
theorem RingSafe.popsReturn (h : RingSafe n m log c) (hb : c.BetweenCalls) :
    PopsReturn c.ring (backlog m log) := by
  have hrel : c.released = c.ring.head := by simp [RingConfig.released, hb.consumer]
  have hw : ∀ p, (c.producers p).writing = none := fun p => by rw [hb.producers]; rfl
  have hn := h.inv.capacity_pos
  have hfew := h.few
  refine (represents_backlog h.inv h.kept hw hrel hfew).popsReturn (.inl ?_)
  rw [h.inv.tail]
  omega

end Shmfx
