import Shmfx.Ring.Invariant
import Shmfx.Ring.Solo

/-! The published records of a ring read off its memory, and what pops in a row take of them. -/
namespace Shmfx

open Word Window

/-- What a slot shows to the consumer. -/
def RingRecord.stored (cell : RingRecord) (maxPayload : Nat) : Stored :=
  ⟨cell.type, cell.flags, cell.user, (List.range (min cell.len maxPayload)).map cell.bytes⟩

namespace Ring

/-- The slot of the `i`-th position from the head is published. -/
def PublishedAt (r : Ring) (i : Nat) : Prop :=
  r.seq ((r.head + i) % r.ringMeta.recordMax) = u64 (r.head + i + 1)

instance (r : Ring) : DecidablePred r.PublishedAt := fun _ => inferInstanceAs (Decidable (_ = _))

def storedAt (r : Ring) (i : Nat) : Stored :=
  (r.record ((r.head + i) % r.ringMeta.recordMax)).stored r.ringMeta.maxPayload

/-- The record at the head. -/
def oldest (r : Ring) : Stored :=
  (r.record (r.slot r.head)).stored r.ringMeta.maxPayload

/-- The published records that no pop has returned, in the order of their positions. -/
def unread (r : Ring) : List Stored :=
  ((List.range r.ringMeta.recordMax).filter fun i => r.PublishedAt i).map r.storedAt

/-- No published record stands behind a slot that is claimed and not published. -/
def Unstalled (r : Ring) : Prop :=
  ∀ i j, i < j → j < r.ringMeta.recordMax → r.PublishedAt j → r.PublishedAt i

/-- Up to a lap ahead the 64-bit cursors select the slots of the unbounded positions. -/
def FitsLap (r : Ring) : Prop := Fits r.ringMeta.recordMax (r.head + r.ringMeta.recordMax)

end Ring

/-- Pops have taken the records of the first `k` positions out of `r₀`, and left `r`. -/
structure Taken (r₀ : Ring) (k : Nat) (r : Ring) : Prop where
  ringMeta : r.ringMeta = r₀.ringMeta
  record : r.record = r₀.record
  head : u64 r.head = u64 (r₀.head + k)
  slot : r.slot r.head = (r₀.head + k) % r₀.ringMeta.recordMax
  bound : k ≤ r₀.ringMeta.recordMax
  published : ∀ i < k, r₀.PublishedAt i
  released : ∀ i < k, r.seq ((r₀.head + i) % r₀.ringMeta.recordMax) =
    u64 (r₀.head + i + r₀.ringMeta.recordMax)
  kept : ∀ i, k ≤ i → i < r₀.ringMeta.recordMax →
    r.seq ((r₀.head + i) % r₀.ringMeta.recordMax) = r₀.seq ((r₀.head + i) % r₀.ringMeta.recordMax)

section Proofs

variable {r₀ r : Ring} {k b : Nat} {pc pc' : PopPc} {ring ring' : Ring} {e : PopEvent}

theorem taken_zero (r : Ring) : Taken r 0 r where
  ringMeta := rfl
  record := rfl
  head := rfl
  slot := rfl
  bound := Nat.zero_le _
  published := nofun
  released := nofun
  kept _ _ _ := rfl

theorem u64_add_congr {a c : Nat} (h : u64 a = u64 c) (d : Nat) : u64 (a + d) = u64 (c + d) := by
  simp only [u64] at h ⊢
  omega

theorem recordMax_pos {m : RecordRingMeta} (h : validMeta m = true) : 0 < m.recordMax := by
  simp only [validMeta, Bool.and_eq_true, bne_iff_ne, ne_eq] at h
  omega

theorem PushStep.validMeta {pc pc' : PushPc} {e : PushEvent} (h : PushStep ring pc e ring' pc') :
    validMeta ring'.ringMeta = validMeta ring.ringMeta := by
  cases h <;> rfl

theorem PopStep.validMeta (h : PopStep ring pc e ring' pc') :
    validMeta ring'.ringMeta = validMeta ring.ringMeta := by
  cases h <;> rfl

/-- No access changes the geometry or the modes of a ring. -/
theorem RingStep.validMeta {P : Type*} [DecidableEq P] {s t : RingConfig P} {re : RingEvent P}
    (h : RingStep s re t) : validMeta t.ring.ringMeta = validMeta s.ring.ringMeta := by
  cases h with
  | push h => exact h.validMeta
  | pop h => exact h.validMeta

/-- The next pop finds the record of the next position, if that is published. -/
theorem Taken.poppable_iff (h : Taken r₀ k r) (hv : validMeta r₀.ringMeta = true) :
    r.Poppable ↔ k < r₀.ringMeta.recordMax ∧ r₀.PublishedAt k := by
  have hvalid : validMeta r.ringMeta = true := h.ringMeta ▸ hv
  have hnext : u64 (r.head + 1) = u64 (r₀.head + k + 1) := u64_add_congr h.head 1
  rw [Ring.Poppable, h.slot, hnext]
  by_cases hk : k < r₀.ringMeta.recordMax
  · rw [h.kept k le_rfl hk]
    exact ⟨fun hp => ⟨hk, hp.2⟩, fun hp => ⟨hvalid, hp.2⟩⟩
  · -- A lap on, the next slot is the one released first.
    have hend : k = r₀.ringMeta.recordMax := by
      have := h.bound
      omega
    refine iff_of_false ?_ fun hp => hk hp.1
    rintro ⟨-, hseq⟩
    have hfirst := h.released 0 (hend ▸ recordMax_pos hv)
    rw [Nat.add_zero] at hfirst
    rw [hend, Nat.add_mod_right, hfirst] at hseq
    simp only [u64] at hseq
    omega

/-- The pop takes it. -/
theorem Taken.pop (h : Taken r₀ k r) (hf : r₀.FitsLap) (hp : r.Poppable) :
    Taken r₀ (k + 1) (tryPop r []).2 := by
  have hv : validMeta r₀.ringMeta = true := h.ringMeta ▸ hp.1
  obtain ⟨hk, hpublished⟩ := (h.poppable_iff hv).mp hp
  rw [tryPop_of_poppable hp]
  have hhead : u64 (r.head + 1) = u64 (r₀.head + (k + 1)) := u64_add_congr h.head 1
  have hother (i : Nat) (hi : i ≠ k) (hin : i < r₀.ringMeta.recordMax) :
      (r₀.head + i) % r₀.ringMeta.recordMax ≠ r.slot r.head := by
    rw [h.slot]
    intro heq
    have hcell : In r₀.ringMeta.recordMax r₀.head (r₀.head + i) := ⟨by omega, by omega⟩
    have hmine : In r₀.ringMeta.recordMax r₀.head (r₀.head + k) := ⟨by omega, by omega⟩
    have := hcell.eq_of_mod_eq hmine heq
    omega
  refine ⟨h.ringMeta, h.record, ?_, ?_, hk, ?_, ?_, ?_⟩
  · show u64 (u64 (r.head + 1)) = _
    rw [hhead]
    exact Nat.mod_mod _ _
  · show u64 (r.head + 1) % r.ringMeta.recordMax = _
    rw [hhead, h.ringMeta]
    exact (hf.mono (by omega)).mod
  · intro i hi
    rcases Nat.lt_succ_iff_lt_or_eq.mp hi with hi | rfl
    · exact h.published i hi
    · exact hpublished
  · intro i hi
    show Function.update r.seq _ _ _ = _
    rcases Nat.lt_succ_iff_lt_or_eq.mp hi with hi | rfl
    · rw [Function.update_of_ne (hother i (by omega) (by omega))]
      exact h.released i hi
    · rw [← h.slot, Function.update_self, h.ringMeta]
      exact u64_add_congr h.head _
  · intro i hi hin
    show Function.update r.seq _ _ _ = _
    rw [Function.update_of_ne (hother i (by omega) hin)]
    exact h.kept i (by omega) hin

/-- The record the next pop shows. -/
theorem Taken.oldest (h : Taken r₀ k r) : r.oldest = r₀.storedAt k := by
  rw [Ring.oldest, h.record, h.slot, h.ringMeta, Ring.storedAt]

/-- A range filtered by what holds of its first `k` numbers. -/
theorem filter_range_prefix {p : Nat → Prop} [DecidablePred p] {n : Nat} (hk : k ≤ n)
    (h : ∀ i < k, p i) : ∃ rest, (List.range n).filter (fun i => p i) = List.range k ++ rest ∧
      (rest = [] ↔ ∀ i, k ≤ i → i < n → ¬ p i) := by
  obtain ⟨d, rfl⟩ := Nat.exists_eq_add_of_le hk
  have hfirst : (List.range k).filter (fun i => p i) = List.range k := by
    refine List.filter_eq_self.mpr fun i hi => ?_
    exact decide_eq_true (h i (List.mem_range.mp hi))
  refine ⟨_, by rw [List.range_add, List.filter_append, hfirst], ?_⟩
  rw [List.filter_eq_nil_iff]
  simp only [List.mem_map, List.mem_range, decide_eq_true_eq, forall_exists_index, and_imp]
  constructor
  · intro hrest i hki hin
    exact hrest i (i - k) (by omega) (by omega)
  · rintro hrest _ j hj rfl
    exact hrest (k + j) (by omega) (by omega)

/-- Pops that end at an empty slot or after `b` of them take every published record and leave none
exactly if no slot was stalled and there were at most `b`. -/
theorem Taken.all_iff {α : Type*} (h : Taken r₀ k r) (hv : validMeta r₀.ringMeta = true)
    (hb : k ≤ b) (hend : k = b ∨ ¬ r.Poppable) (f : Stored → α) :
    ((List.range k).map (fun i => f (r₀.storedAt i)) = r₀.unread.map f ∧ ¬ r.Poppable) ↔
      r₀.Unstalled ∧ r₀.unread.length ≤ b := by
  obtain ⟨rest, hfilter, hrest⟩ := filter_range_prefix h.bound h.published
  have hlength : r₀.unread.length = k + rest.length := by
    rw [Ring.unread, List.length_map, hfilter, List.length_append, List.length_range]
  rw [h.poppable_iff hv] at hend ⊢
  constructor
  · rintro ⟨hall, -⟩
    have hsame := congrArg List.length hall
    simp only [List.length_map, List.length_range] at hsame
    have hnil : rest = [] := List.eq_nil_of_length_eq_zero (by omega)
    refine ⟨fun i j hij hj hp => ?_, by omega⟩
    by_cases hjk : j < k
    · exact h.published i (by omega)
    · exact absurd hp (hrest.mp hnil j (by omega) hj)
  · rintro ⟨hunstalled, hfits⟩
    have hstop : ¬ (k < r₀.ringMeta.recordMax ∧ r₀.PublishedAt k) := by
      rintro ⟨hk, hp⟩
      rcases hend with rfl | hend
      · have hnil : rest = [] := List.eq_nil_of_length_eq_zero (by omega)
        exact hrest.mp hnil k le_rfl hk hp
      · exact hend ⟨hk, hp⟩
    have hnil : rest = [] := by
      refine hrest.mpr fun i hki hin hp => hstop ⟨by omega, ?_⟩
      rcases Nat.eq_or_lt_of_le hki with rfl | hki
      · exact hp
      · exact hunstalled k i hki hin hp
    refine ⟨?_, hstop⟩
    rw [Ring.unread, hfilter, hnil, List.append_nil, List.map_map]
    rfl

theorem length_stored (cell : RingRecord) (m : Nat) :
    (cell.stored m).payload.length = min cell.len m := by
  simp [RingRecord.stored]

theorem bytes_stored (cell : RingRecord) (m j : Nat) (h : j < (cell.stored m).payload.length) :
    cell.bytes j = (cell.stored m).payload.getD j 0 := by
  rw [length_stored] at h
  simp [RingRecord.stored, h]

/-- An undisturbed pop reads the oldest record as it stands, and shows that. -/
theorem seen_step (h : MidPop r (ring, pc)) (hseen : pc.seen r.oldest)
    (hs : PopStep ring pc e ring' pc') :
    pc'.seen r.oldest ∧ ∀ popped out, e = .popped popped out → Shows r.oldest popped out := by
  cases hs with
  | call => exact h.elim
  | enter | reject | loadHead | seqReady | seqOther => exact ⟨trivial, nofun⟩
  | loadLen hsize =>
    obtain ⟨rfl, rfl, -⟩ := h
    exact ⟨copied_range (hsize.trans (length_stored ..).symm), nofun⟩
  | copyByte hj =>
    obtain ⟨rfl, rfl, -⟩ := h
    exact ⟨hseen.set (bytes_stored _ _) _, nofun⟩
  | copyDone => exact ⟨hseen, nofun⟩
  | loadType =>
    obtain ⟨rfl, rfl, -⟩ := h
    exact ⟨⟨hseen, rfl⟩, nofun⟩
  | loadFlags =>
    obtain ⟨rfl, rfl, -⟩ := h
    exact ⟨⟨hseen.1, hseen.2, rfl⟩, nofun⟩
  | loadUser =>
    obtain ⟨rfl, rfl, -⟩ := h
    obtain ⟨hcopied, htype, hflags⟩ := hseen
    have hsize := hcopied.1
    exact ⟨⟨htype, hflags, rfl, hsize, by rw [hsize], hcopied.take_eq⟩, nofun⟩
  | releaseSlot => exact ⟨hseen, nofun⟩
  | releaseHead =>
    refine ⟨trivial, ?_⟩
    rintro popped out ⟨⟩
    exact hseen

end Proofs

end Shmfx
