import Shmfx.Lib.Memory
import Shmfx.Ring.Sequential

/-! Where the parts of a ring lie in its payload, and what a slot has room for. -/
namespace Shmfx

open Word Memory

/-- `head_cursor`, as an offset in the payload. -/
def headCursor : Nat := 0

/-- `tail_cursor`. -/
def tailCursor : Nat := cacheLineSize

def slotHeader (index : Nat) : Nat := slotMetaOffset + slotHeaderBytes * index

def recordBytes (m : RecordRingMeta) (index : Nat) : Nat :=
  recordAreaOffset m.recordMax + u64 (index * m.recordStride)

/-- The parts of a ring's payload. -/
inductive RingPart
  | head
  | tail
  | slot (index : Nat)
  | record (index : Nat)
  deriving DecidableEq

namespace RingPart

def region (m : RecordRingMeta) : RingPart → Region
  | head => ⟨headCursor, cacheLineSize⟩
  | tail => ⟨tailCursor, cacheLineSize⟩
  | slot index => ⟨slotHeader index, slotHeaderBytes⟩
  | record index => ⟨recordBytes m index, m.recordStride⟩

/-- The addresses of a part. -/
def addresses (m : RecordRingMeta) (part : RingPart) : Set Nat := (part.region m).addresses

/-- The part belongs to a ring of `recordMax` slots. -/
def Of (m : RecordRingMeta) : RingPart → Prop
  | slot index | record index => index < m.recordMax
  | _ => True

end RingPart

/-- All parts lie in the first `limit` bytes, and no two have a byte in common. -/
structure LayoutSound (m : RecordRingMeta) (limit : Nat) : Prop where
  inside : ∀ part, RingPart.Of m part → ∀ k ∈ part.addresses m, k < limit
  disjoint : ∀ part part', RingPart.Of m part → RingPart.Of m part' → part ≠ part' →
    ∀ k ∈ part.addresses m, k ∉ part'.addresses m

/-- The 32-bit fields of the metadata. -/
structure RecordRingMeta.Words (m : RecordRingMeta) : Prop where
  recordMax : m.recordMax < 2 ^ 32
  recordStride : m.recordStride < 2 ^ 32

/-- Sizes that `payload_size_for` adds up without a wrap. -/
structure Geometry (m : RecordRingMeta) : Prop extends m.Words where
  positive : 0 < m.recordMax
  header : recordHeaderBytes ≤ m.recordStride
  unwrapped : recordAreaOffset m.recordMax + m.recordMax * m.recordStride < 2 ^ 64

/-- A record that holds the whole of what was pushed, and does not say otherwise. -/
structure RingRecord.Holds (cell : RingRecord) (a : Push) : Prop where
  len : cell.len = a.payload.length
  type : cell.type = a.type
  flags : cell.flags = a.flags
  user : cell.user = a.user
  bytes : ∀ i, i < a.payload.length → cell.bytes i = a.payload.getD i 0

/-- The slots of the ring take payloads of up to `maxPayload` bytes. -/
structure SizedFor (m : RecordRingMeta) (maxPayload : Nat) : Prop where
  aligned : cacheLineSize ∣ m.recordStride
  room : maxPayload ≤ m.recordStride - recordHeaderBytes
  whole : ∀ (r r' : Ring) (lost : Nat) (a : Push), r.ringMeta = { m with lostCount := lost } →
    a.payload.length ≤ maxPayload → tryPush r a = (.ok (), r') →
    (r'.record (r.slot r.tail)).Holds a

section Sizes

variable {m : RecordRingMeta} {n i j : Nat}

theorem recordAreaOffset_eq (h : n < 2 ^ 32) : recordAreaOffset n = 128 + 8 * n := by
  have hsum : slotMetaOffset + slotHeaderBytes * n = 128 + 8 * n := rfl
  rw [recordAreaOffset, hsum, u64_of_lt (by omega), alignUp_8, u64_of_lt (by omega)]
  omega

theorem RecordRingMeta.Words.product_lt (h : m.Words) : m.recordMax * m.recordStride < 2 ^ 64 :=
  calc m.recordMax * m.recordStride < 2 ^ 32 * 2 ^ 32 :=
        Nat.mul_lt_mul'' h.recordMax h.recordStride
    _ = 2 ^ 64 := by decide

/-- The area of record `i` ends before that of any later record, and inside the product. -/
theorem record_end_le (h : i < j) : i * n + n ≤ j * n := by
  rw [← Nat.succ_mul]
  exact Nat.mul_le_mul_right n h

theorem recordBytes_eq (h : m.Words) (hi : i < m.recordMax) :
    recordBytes m i = 128 + 8 * m.recordMax + i * m.recordStride := by
  have hproduct := h.product_lt
  have hle := Nat.mul_le_mul_right m.recordStride (Nat.le_of_lt hi)
  rw [recordBytes, recordAreaOffset_eq h.recordMax, u64_of_lt (by omega)]

theorem payloadSizeFor_eq (h : m.Words) (hpos : 0 < m.recordMax)
    (hheader : recordHeaderBytes ≤ m.recordStride) :
    payloadSizeFor m.recordMax m.recordStride =
      (recordAreaOffset m.recordMax + m.recordMax * m.recordStride) % 2 ^ 64 := by
  rw [payloadSizeFor, if_neg (by omega), u64_of_lt h.product_lt, u64]

theorem Geometry.payloadSizeFor_eq (h : Geometry m) :
    payloadSizeFor m.recordMax m.recordStride =
      128 + 8 * m.recordMax + m.recordMax * m.recordStride := by
  rw [Shmfx.payloadSizeFor_eq h.toWords h.positive h.header, Nat.mod_eq_of_lt h.unwrapped,
    recordAreaOffset_eq h.recordMax]

end Sizes

section Layout

variable {m : RecordRingMeta} {part : RingPart} {k : Nat}

/-- The part an offset belongs to. -/
def RingPart.holding (m : RecordRingMeta) (k : Nat) : RingPart :=
  if k < tailCursor then head
  else if k < slotMetaOffset then tail
  else if k < recordAreaOffset m.recordMax then slot ((k - slotMetaOffset) / slotHeaderBytes)
  else record ((k - recordAreaOffset m.recordMax) / m.recordStride)

theorem RingPart.eq_holding (hw : m.Words) (hpart : RingPart.Of m part)
    (hk : k ∈ part.addresses m) : part = holding m k := by
  have harea := recordAreaOffset_eq hw.recordMax
  have htail : tailCursor = 64 := rfl
  have hslots : slotMetaOffset = 128 := rfl
  have hbytes : slotHeaderBytes = 8 := rfl
  unfold holding
  cases part with
  | head =>
    have hlt : k < tailCursor := by
      simpa [addresses, region, headCursor, tailCursor] using hk
    rw [if_pos hlt]
  | tail =>
    have hrange : tailCursor ≤ k ∧ k < slotMetaOffset := hk
    rw [if_neg (by omega), if_pos hrange.2]
  | slot i =>
    have hi : i < m.recordMax := hpart
    have hrange : 128 + 8 * i ≤ k ∧ k < 128 + 8 * i + 8 := hk
    have hindex : (k - slotMetaOffset) / slotHeaderBytes = i := by
      rw [hslots, hbytes]
      omega
    rw [if_neg (by omega), if_neg (by omega), if_pos (by omega), hindex]
  | record i =>
    have hi : i < m.recordMax := hpart
    have hrange : recordBytes m i ≤ k ∧ k < recordBytes m i + m.recordStride := hk
    rw [recordBytes_eq hw hi] at hrange
    have hindex : (k - recordAreaOffset m.recordMax) / m.recordStride = i := by
      apply Nat.div_eq_of_lt_le
      · omega
      · rw [Nat.succ_mul]
        omega
    rw [if_neg (by omega), if_neg (by omega), if_neg (by omega), hindex]

/-- Without a wrap the parts follow one another in the payload. -/
theorem Geometry.layoutSound (h : Geometry m) :
    LayoutSound m (payloadSizeFor m.recordMax m.recordStride) := by
  refine ⟨fun part hpart k hk => ?_, fun part part' hpart hpart' hne k hk hk' => ?_⟩
  · rw [h.payloadSizeFor_eq]
    cases part with
    | record i =>
      have hend := record_end_le (n := m.recordStride) hpart
      have hrange : recordBytes m i ≤ k ∧ k < recordBytes m i + m.recordStride := hk
      rw [recordBytes_eq h.toWords hpart] at hrange
      omega
    | _ =>
      simp only [RingPart.Of, RingPart.addresses, RingPart.region, mem_addresses, headCursor,
        tailCursor, cacheLineSize, slotHeader, slotMetaOffset, slotHeaderBytes] at hpart hk
      omega
  · have hpart₁ := RingPart.eq_holding h.toWords hpart hk
    exact hne (hpart₁.trans (RingPart.eq_holding h.toWords hpart' hk').symm)

end Layout

section Stride

variable {payload : Span} {recordMax maxPayload : UInt32} {r : Ring}

/-- The rounding is done in 64 bits; what is stored are the low 32. -/
theorem recordStrideFor_eq (maxPayload : UInt32) :
    recordStrideFor maxPayload.toNat = (maxPayload.toNat + 79) / 64 * 64 % 2 ^ 32 := by
  have hlt := maxPayload.toNat_lt
  have hsum : recordHeaderBytes + maxPayload.toNat = 16 + maxPayload.toNat := rfl
  have hline : cacheLineSize = 64 := rfl
  rw [recordStrideFor, hsum, hline, u64_of_lt (by omega), alignUp_64, u64_of_lt (by omega), u32]
  congr 3
  omega

/-- A stride is a multiple of the cache line, so it stays clear of the wrap. -/
theorem initializeRing_geometry (h : initializeRing payload recordMax maxPayload = .ok r) :
    Geometry r.ringMeta := by
  obtain ⟨rfl, hpos, hheader⟩ := initializeRing_ok h
  have hmax := recordMax.toNat_lt
  have hstride := recordStrideFor_eq maxPayload
  have hle : recordStrideFor maxPayload.toNat ≤ 2 ^ 32 - 64 := by omega
  have hproduct : recordMax.toNat * recordStrideFor maxPayload.toNat ≤
      recordMax.toNat * (2 ^ 32 - 64) := Nat.mul_le_mul_left _ hle
  refine ⟨⟨hmax, ?_⟩, hpos, hheader, ?_⟩
  · show recordStrideFor maxPayload.toNat < 2 ^ 32
    omega
  · show recordAreaOffset recordMax.toNat +
      recordMax.toNat * recordStrideFor maxPayload.toNat < 2 ^ 64
    rw [recordAreaOffset_eq hmax]
    omega

/-- A push that nobody disturbs claims the position it read. -/
theorem claimLoop_claimed {pos n : Nat} (h : claimLoop r r.tail n = .claimed pos) :
    pos = r.tail := by
  induction n with
  | zero => cases h
  | succ n ih =>
    rw [claimLoop] at h
    split_ifs at h with hdiff hneg
    · exact (Claim.claimed.inj h).symm
    · exact absurd rfl ‹_›
    · exact ih h

theorem tryPush_stored {r' : Ring} {a : Push} (h : tryPush r a = (.ok (), r')) :
    r'.record (r.slot r.tail) = (r.record (r.slot r.tail)).fill a r.ringMeta.maxPayload := by
  unfold tryPush at h
  split at h
  · cases hc : claimLoop r r.tail mpscCasRetryBudget with
    | claimed pos =>
      rw [hc, claimLoop_claimed hc] at h
      cases h
      exact Function.update_self ..
    | full => rw [hc] at h; cases h
    | exhausted => rw [hc] at h; cases h
  · cases h

theorem fill_holds {cell : RingRecord} {a : Push} {n : Nat} (h : a.payload.length ≤ n) :
    (cell.fill a n).Holds a := by
  have hwritten : a.written n = a.payload.length := Nat.min_eq_left h
  refine ⟨hwritten, rfl, if_neg (Nat.not_lt.mpr h), rfl, fun i hi => ?_⟩
  exact if_pos (hwritten ▸ hi)

/-- The narrowing keeps the rounded size unless the size passes the 32 bits, and the one size it
would make empty is refused. -/
theorem initializeRing_sized (h : initializeRing payload recordMax maxPayload = .ok r) :
    SizedFor r.ringMeta maxPayload.toNat ↔ maxPayload.toNat ≤ 2 ^ 32 - 16 := by
  obtain ⟨rfl, -, hheader⟩ := initializeRing_ok h
  have hstride := recordStrideFor_eq maxPayload
  have hbytes : recordHeaderBytes = 16 := rfl
  have hlt := maxPayload.toNat_lt
  constructor
  · intro hs
    have hroom : maxPayload.toNat ≤ recordStrideFor maxPayload.toNat - recordHeaderBytes := hs.room
    omega
  · intro hle
    have hroom : maxPayload.toNat ≤ recordStrideFor maxPayload.toNat - recordHeaderBytes := by
      omega
    refine ⟨?_, hroom, fun s s' lost a hm ha hpush => ?_⟩
    · show 64 ∣ recordStrideFor maxPayload.toNat
      omega
    · rw [tryPush_stored hpush, hm]
      exact fill_holds (ha.trans hroom)

theorem initializeRing_sized_line :
    initializeRing ⟨0, 200⟩ 1 48 = .ok (freshRing 1 64) ∧ SizedFor (freshRing 1 64).ringMeta 48 :=
  have hok : initializeRing ⟨0, 200⟩ 1 48 = .ok (freshRing 1 64) := rfl
  ⟨hok, (initializeRing_sized hok).mpr (by decide)⟩

/-- The largest 32-bit payload size gives slots of one cache line, and a push of 49 bytes is
truncated. -/
theorem initializeRing_narrowed :
    initializeRing ⟨0, 200⟩ 1 (0 - 1) = .ok (freshRing 1 64) ∧
      ¬ SizedFor (freshRing 1 64).ringMeta (0 - 1 : UInt32).toNat ∧
      ((tryPush (freshRing 1 64) ⟨0, 0, 0, List.replicate 49 0⟩).2.record 0).flags =
        recordFlagTruncated := by
  refine ⟨rfl, fun hs => ?_, by decide⟩
  exact absurd hs.room (by decide)

end Stride

end Shmfx
