import Shmfx.Types

/-! Geometry, metadata and initialisation of the record ring (`shm_ring.cpp`). -/
namespace Shmfx

open Word

/-- `RING_PRODUCER_MPSC`. -/
def ringProducerMpsc : Nat := 2

/-- `RING_CONSUMER_SINGLE`. -/
def ringConsumerSingle : Nat := 1

/-- `RECORD_FLAG_TRUNCATED`. -/
def recordFlagTruncated : UInt16 := 1

/-- `sizeof(RingRecordHeader)`. -/
def recordHeaderBytes : Nat := 16

/-- `sizeof(RingSlotHeader)`. -/
def slotHeaderBytes : Nat := 8

structure RecordRingMeta where
  recordMax : Nat
  recordStride : Nat
  producerMode : Nat
  consumerMode : Nat
  lostCount : Nat
  deriving DecidableEq, Repr

/-- One record slot: the wire header followed by its payload bytes. -/
structure RingRecord where
  len : Nat
  type : UInt16
  flags : UInt16
  user : UInt64
  bytes : Nat → UInt8

/-- A bound ring: metadata, both cursors, and the slot and record arrays by slot index. -/
structure Ring where
  ringMeta : RecordRingMeta
  head : Nat
  tail : Nat
  seq : Nat → Nat
  record : Nat → RingRecord

def payloadAligned (payload : Span) : Bool := payload.data % cacheLineSize == 0

/-- Two cache-line-sized cursors precede the slot headers. -/
def slotMetaOffset : Nat := cacheLineSize * 2

def recordAreaOffset (recordMax : Nat) : Nat :=
  alignUp (u64 (slotMetaOffset + slotHeaderBytes * recordMax)) 8

def validMeta (m : RecordRingMeta) : Bool :=
  m.recordMax != 0 && decide (recordHeaderBytes ≤ m.recordStride) &&
    m.producerMode == ringProducerMpsc && m.consumerMode == ringConsumerSingle

def recordStrideFor (maxPayload : Nat) : Nat :=
  u32 (alignUp (u64 (recordHeaderBytes + maxPayload)) cacheLineSize)

def payloadSizeFor (recordMax recordStride : Nat) : Nat :=
  if recordMax = 0 ∨ recordStride < recordHeaderBytes then 0
  else u64 (recordAreaOffset recordMax + u64 (recordMax * recordStride))

/-- The stores `MpscRing::initialize` leaves behind: zeroed records and slot `i` free for position
`i`. -/
def freshRing (recordMax recordStride : Nat) : Ring where
  ringMeta := ⟨recordMax, recordStride, ringProducerMpsc, ringConsumerSingle, 0⟩
  head := 0
  tail := 0
  seq i := if i < recordMax then i else 0
  record _ := ⟨0, 0, 0, 0, fun _ => 0⟩

def initializeRing (payload : Span) (recordMax maxPayload : UInt32) : Except ErrorCode Ring :=
  let stride := recordStrideFor maxPayload.toNat
  let required := payloadSizeFor recordMax.toNat stride
  if required = 0 ∨ payload.size < required ∨ !payloadAligned payload then
    .error .corruptedHeader
  else
    .ok (freshRing recordMax.toNat stride)

/-- A successful `MpscRing::initialize` leaves a fresh ring with a usable geometry. -/
theorem initializeRing_ok {payload : Span} {recordMax maxPayload : UInt32} {r : Ring}
    (h : initializeRing payload recordMax maxPayload = .ok r) :
    r = freshRing recordMax.toNat (recordStrideFor maxPayload.toNat) ∧
      0 < recordMax.toNat ∧ recordHeaderBytes ≤ recordStrideFor maxPayload.toNat := by
  simp only [initializeRing] at h
  split at h
  · contradiction
  · rename_i hreq
    simp only [Except.ok.injEq] at h
    push Not at hreq
    have hne := hreq.1
    simp only [payloadSizeFor] at hne
    split at hne
    · exact absurd rfl hne
    · rename_i hgeo
      push Not at hgeo
      exact ⟨h.symm, Nat.pos_of_ne_zero hgeo.1, hgeo.2⟩

theorem validMeta_freshRing {recordMax recordStride : Nat} (hm : 0 < recordMax)
    (hs : recordHeaderBytes ≤ recordStride) :
    validMeta (freshRing recordMax recordStride).ringMeta = true := by
  simp [validMeta, freshRing, hs, Nat.ne_of_gt hm]

end Shmfx
