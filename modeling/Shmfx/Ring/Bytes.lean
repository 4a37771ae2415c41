import Shmfx.Ring.Bounds
import Shmfx.Ring.Initialization

/-! `MpscRing::try_push` and `try_pop` on the bytes of the payload, every access recorded. -/
namespace Shmfx

open Word Memory

/-- The stores of `MpscRing::initialize` to the payload. -/
def initializePayload (required recordMax : Nat) : Prog Unit := do
  storeBytes 0 (List.replicate required 0)
  store headCursor 8 0
  store tailCursor 8 0
  forM (List.range recordMax) fun i => store (slotHeader i) 8 i

/-- `MpscRing::initialize`, with the metadata it stores. -/
def initializeBytes (payload : Span) (recordMax maxPayload : UInt32) :
    Prog (Except ErrorCode RecordRingMeta) := do
  let stride := recordStrideFor maxPayload.toNat
  let required := payloadSizeFor recordMax.toNat stride
  if required = 0 ∨ payload.size < required ∨ !payloadAligned payload then
    return .error .corruptedHeader
  else
    initializePayload required recordMax.toNat
    return .ok ⟨recordMax.toNat, stride, ringProducerMpsc, ringConsumerSingle, 0⟩

/-- The claim loop; `spurious n` says whether the CAS with `n` iterations left fails for no
reason. -/
def claimSlot (m : RecordRingMeta) (spurious : Nat → Bool) : Nat → Nat → Prog Claim
  | 0, _ => return .exhausted
  | n + 1, pos => do
    let seq ← load (slotHeader (pos % m.recordMax)) 8
    let diff := diff64 seq pos
    if diff = 0 then
      let exchanged ← compareExchangeWeak tailCursor 8 pos (u64 (pos + 1)) (spurious n)
      if exchanged.1 then return .claimed pos
      else claimSlot m spurious n exchanged.2
    else if diff < 0 then return .full
    else
      let pos ← load tailCursor 8
      claimSlot m spurious n pos

/-- The stores to a claimed record, in the field order of `RingRecordHeader`. -/
def writeRecord (m : RecordRingMeta) (a : Push) (index : Nat) : Prog Unit := do
  let record := recordBytes m index
  store record 4 (a.written m.maxPayload)
  store (record + 4) 2 a.type.toNat
  store (record + 6) 2 (a.storedFlags m.maxPayload).toNat
  store (record + 8) 8 a.user.toNat
  storeBytes (record + recordHeaderBytes) (a.payload.take (a.written m.maxPayload))

def RecordRingMeta.addLost (m : RecordRingMeta) : RecordRingMeta :=
  { m with lostCount := u64 (m.lostCount + 1) }

/-- `try_push`, with the metadata it leaves: the lost count is not part of the payload. -/
def tryPushBytes (m : RecordRingMeta) (spurious : Nat → Bool) (a : Push) :
    Prog (Except ErrorCode Unit × RecordRingMeta) := do
  if validMeta m then
    let pos ← load tailCursor 8
    match ← claimSlot m spurious mpscCasRetryBudget pos with
    | .claimed pos =>
      let index := pos % m.recordMax
      writeRecord m a index
      store (slotHeader index) 8 (u64 (pos + 1))
      return (.ok (), m)
    | .full | .exhausted => return (.error .ringFull, m.addLost)
  else return (.error .corruptedHeader, m)

/-- What `try_pop` takes out of a record. -/
def readRecord (m : RecordRingMeta) (index : Nat) (out : List UInt8) :
    Prog (PoppedRecord × List UInt8) := do
  let record := recordBytes m index
  let len ← load record 4
  let payloadSize := min len m.maxPayload
  let copied := min out.length payloadSize
  let bytes ← loadBytes (record + recordHeaderBytes) copied
  let type ← load (record + 4) 2
  let flags ← load (record + 6) 2
  let user ← load (record + 8) 8
  return (⟨.ofNat type, .ofNat flags, .ofNat user, payloadSize, copied⟩, bytes ++ out.drop copied)

def tryPopBytes (m : RecordRingMeta) (out : List UInt8) :
    Prog (Option (PoppedRecord × List UInt8)) := do
  if validMeta m then
    let pos ← load headCursor 8
    let index := pos % m.recordMax
    let seq ← load (slotHeader index) 8
    if seq = u64 (pos + 1) then
      let popped ← readRecord m index out
      store (slotHeader index) 8 (u64 (pos + m.recordMax))
      store headCursor 8 (u64 (pos + 1))
      return some popped
    else return none
  else return none

/-- A call of `try_push` that stays in the first `limit` bytes and in one slot. -/
structure PushConfined (m : RecordRingMeta) (limit : Nat) (bytes : Bytes)
    (result : Except ErrorCode Unit) (after : Traced) : Prop where
  inside : ∀ access ∈ after.trace, ∀ k ∈ access.region.addresses, k < limit
  pushed : result = .ok () → ∃ i < m.recordMax, ∀ k, after.bytes k ≠ bytes k →
    k ∈ RingPart.tail.addresses m ∨ k ∈ (RingPart.slot i).addresses m ∨
      k ∈ (RingPart.record i).addresses m
  failed : result ≠ .ok () → after.bytes = bytes

/-- The sizes `try_pop` reports fit the slot and the buffer. -/
structure PoppedRecord.Bounded (popped : PoppedRecord) (m : RecordRingMeta) (outSize : Nat) :
    Prop where
  copied : popped.copiedSize ≤ popped.payloadSize
  stored : popped.payloadSize ≤ m.recordStride - recordHeaderBytes
  buffer : popped.copiedSize ≤ outSize

/-- A call of `try_pop` that stays in the first `limit` bytes, in one slot and in the buffer. -/
structure PopConfined (m : RecordRingMeta) (limit : Nat) (bytes : Bytes) (out : List UInt8)
    (result : Option (PoppedRecord × List UInt8)) (after : Traced) : Prop where
  inside : ∀ access ∈ after.trace, ∀ k ∈ access.region.addresses, k < limit
  changed : ∃ i < m.recordMax, ∀ k, after.bytes k ≠ bytes k →
    k ∈ RingPart.head.addresses m ∨ k ∈ (RingPart.slot i).addresses m
  reported : ∀ popped ∈ result, popped.1.Bounded m out.length

section Footprints

variable {m : RecordRingMeta} {limit index : Nat} {s : Traced} {W : Set Nat}

/-- The first `limit` bytes of the payload. -/
def firstBytes (limit : Nat) : Set Nat := {k | k < limit}

theorem subset_part {part : RingPart} {start n : Nat} (hstart : (part.region m).start ≤ start)
    (hend : start + n ≤ (part.region m).start + (part.region m).size) :
    (⟨start, n⟩ : Region).addresses ⊆ part.addresses m :=
  fun _ hk => ⟨hstart.trans hk.1, hk.2.trans_le hend⟩

theorem head_subset : (⟨headCursor, 8⟩ : Region).addresses ⊆ RingPart.head.addresses m :=
  subset_part (Nat.le_refl _) (Nat.add_le_add_left (show 8 ≤ 64 by decide) _)

theorem tail_subset : (⟨tailCursor, 8⟩ : Region).addresses ⊆ RingPart.tail.addresses m :=
  subset_part (Nat.le_refl _) (Nat.add_le_add_left (show 8 ≤ 64 by decide) _)

theorem slot_subset :
    (⟨slotHeader index, 8⟩ : Region).addresses ⊆ (RingPart.slot index).addresses m :=
  subset_part (Nat.le_refl _) (Nat.le_refl _)

/-- A stretch of a record, given by its distance from the start. -/
theorem record_subset (index : Nat) {offset n : Nat} (h : offset + n ≤ m.recordStride) :
    (⟨recordBytes m index + offset, n⟩ : Region).addresses ⊆ (RingPart.record index).addresses m :=
  subset_part (Nat.le_add_right ..) (Nat.add_assoc .. ▸ Nat.add_le_add_left h _)

theorem LayoutSound.part_subset (h : LayoutSound m limit) (part : RingPart) (hpart : part.Of m) :
    part.addresses m ⊆ firstBytes limit :=
  h.inside part hpart

theorem validMeta_sizes (h : validMeta m = true) :
    0 < m.recordMax ∧ recordHeaderBytes ≤ m.recordStride := by
  simp only [validMeta, Bool.and_eq_true, bne_iff_ne, decide_eq_true_eq] at h
  exact ⟨Nat.pos_of_ne_zero h.1.1.1, h.1.1.2⟩

/-- What a claim has written: the tail cursor if it succeeded. -/
def Claim.written (m : RecordRingMeta) : Claim → Set Nat
  | .claimed _ => RingPart.tail.addresses m
  | _ => ∅

theorem claimSlot_touches (h : LayoutSound m limit) (hpos : 0 < m.recordMax)
    (spurious : Nat → Bool) (n pos : Nat) (s : Traced) :
    Ensures (claimSlot m spurious n pos) s fun claim t =>
      Touches (firstBytes limit) (claim.written m) s t := by
  have htail := tail_subset.trans (h.part_subset .tail trivial)
  induction n generalizing pos s with
  | zero => exact .pure (.refl s)
  | succ n ih =>
    have hslot := slot_subset.trans
      (h.part_subset (.slot (pos % m.recordMax)) (Nat.mod_lt _ hpos))
    have hgo {pos : Nat} {t : Traced} (ht : Touches (firstBytes limit) ∅ s t) :
        Ensures (claimSlot m spurious n pos) t fun claim u =>
          Touches (firstBytes limit) (claim.written m) s u :=
      (ih pos t).mono fun claim u hu => ht.after_reads hu
    refine (ensures_load hslot).bind fun seq t ⟨_, _, ht⟩ => ?_
    dsimp only
    split_ifs with hdiff hneg
    · refine (ensures_compareExchangeWeak htail (tail_subset (m := m))).bind fun r u ⟨_, hu⟩ => ?_
      split_ifs at hu ⊢ with hwon
      · exact .pure (ht.after_reads hu.2.2.2)
      · exact hgo (ht.trans hu.2.2)
    · exact .pure ht
    · exact (ensures_load htail).bind fun pos u ⟨_, _, hu⟩ => hgo (ht.trans hu)

theorem writeRecord_touches (h : LayoutSound m limit) (hi : index < m.recordMax)
    (hheader : recordHeaderBytes ≤ m.recordStride) (a : Push) (s : Traced) :
    Ensures (writeRecord m a index) s fun _ t =>
      Touches (firstBytes limit) ((RingPart.record index).addresses m) s t := by
  have hinside := h.part_subset (.record index) hi
  have hbytes : recordHeaderBytes = 16 := rfl
  have hstore {t : Traced} (offset n v : Nat) (hn : offset + n ≤ recordHeaderBytes)
      (ht : Touches (firstBytes limit) ((RingPart.record index).addresses m) s t) :
      Ensures (store (recordBytes m index + offset) n v) t fun _ u =>
        Touches (firstBytes limit) ((RingPart.record index).addresses m) s u := by
    have hsub := record_subset index (hn.trans hheader)
    exact (ensures_store (hsub.trans hinside) hsub).mono fun _ u hu => ht.trans hu.2
  refine (hstore 0 4 _ (by decide) (.refl s)).bind fun _ t ht => ?_
  refine (hstore 4 2 _ (by decide) ht).bind fun _ t ht => ?_
  refine (hstore 6 2 _ (by decide) ht).bind fun _ t ht => ?_
  refine (hstore 8 8 _ (by decide) ht).bind fun _ t ht => ?_
  have hlength : recordHeaderBytes + (a.payload.take (a.written m.maxPayload)).length ≤
      m.recordStride := by
    have hmin : a.written m.maxPayload ≤ m.recordStride - recordHeaderBytes := Nat.min_le_right ..
    rw [List.length_take]
    omega
  have hsub := record_subset index hlength
  exact (ensures_storeBytes (hsub.trans hinside) hsub).mono fun _ u hu => ht.trans hu.2

/-- The bytes a push may change, by how it ends. -/
def pushChanges (m : RecordRingMeta) (index : Nat) : Except ErrorCode Unit → Set Nat
  | .ok _ => RingPart.tail.addresses m ∪ (RingPart.record index).addresses m ∪
      (RingPart.slot index).addresses m
  | .error _ => ∅

theorem tryPushBytes_touches (h : LayoutSound m limit) (hvalid : validMeta m = true)
    (spurious : Nat → Bool) (a : Push) (s : Traced) :
    Ensures (tryPushBytes m spurious a) s fun result t => ∃ index < m.recordMax,
      Touches (firstBytes limit) (pushChanges m index result.1) s t := by
  obtain ⟨hpos, hheader⟩ := validMeta_sizes hvalid
  have htail := tail_subset.trans (h.part_subset .tail trivial)
  rw [tryPushBytes, if_pos hvalid]
  refine (ensures_load htail).bind fun pos t ⟨_, _, ht⟩ => ?_
  refine (claimSlot_touches h hpos spurious _ pos t).bind fun claim u hu => ?_
  have hclaim := ht.after_reads hu
  cases claim with
  | claimed pos =>
    have hi : pos % m.recordMax < m.recordMax := Nat.mod_lt _ hpos
    have hslot := slot_subset.trans (h.part_subset (.slot (pos % m.recordMax)) hi)
    refine (writeRecord_touches h hi hheader a u).bind fun _ v hv => ?_
    refine (ensures_store hslot (slot_subset (m := m))).bind fun _ w ⟨_, hw⟩ => ?_
    exact .pure ⟨_, hi, (hclaim.trans_union hv).trans_union hw⟩
  | full => exact .pure ⟨0, hpos, hclaim⟩
  | exhausted => exact .pure ⟨0, hpos, hclaim⟩

theorem readRecord_touches (h : LayoutSound m limit) (hi : index < m.recordMax)
    (hheader : recordHeaderBytes ≤ m.recordStride) (out : List UInt8) (s : Traced) :
    Ensures (readRecord m index out) s fun popped t =>
      Touches (firstBytes limit) ∅ s t ∧ popped.1.Bounded m out.length := by
  have hinside := h.part_subset (.record index) hi
  have hload {t : Traced} (offset n : Nat) (hn : offset + n ≤ recordHeaderBytes)
      (ht : Touches (firstBytes limit) ∅ s t) :
      Ensures (load (recordBytes m index + offset) n) t fun _ u =>
        Touches (firstBytes limit) ∅ s u :=
    (ensures_load ((record_subset index (hn.trans hheader)).trans hinside)).mono
      fun _ u hu => ht.trans hu.2.2
  refine (hload 0 4 (by decide) (.refl s)).bind fun len t ht => ?_
  have hlength : recordHeaderBytes + min out.length (min len m.maxPayload) ≤ m.recordStride := by
    have hmax : m.maxPayload = m.recordStride - recordHeaderBytes := rfl
    omega
  refine (ensures_loadBytes ((record_subset index hlength).trans hinside)).bind fun bytes u hu => ?_
  refine (hload 4 2 (by decide) (ht.trans hu.2.2)).bind fun type t ht => ?_
  refine (hload 6 2 (by decide) ht).bind fun flags t ht => ?_
  refine (hload 8 8 (by decide) ht).bind fun user t ht => .pure ⟨ht, ?_⟩
  exact ⟨Nat.min_le_right .., Nat.min_le_right .., Nat.min_le_left ..⟩

theorem tryPopBytes_touches (h : LayoutSound m limit) (hvalid : validMeta m = true)
    (out : List UInt8) (s : Traced) :
    Ensures (tryPopBytes m out) s fun result t => (∃ index < m.recordMax,
      Touches (firstBytes limit)
        ((RingPart.slot index).addresses m ∪ RingPart.head.addresses m) s t) ∧
      ∀ popped ∈ result, popped.1.Bounded m out.length := by
  obtain ⟨hpos, hheader⟩ := validMeta_sizes hvalid
  have hhead := head_subset.trans (h.part_subset .head trivial)
  rw [tryPopBytes, if_pos hvalid]
  refine (ensures_load hhead).bind fun pos t ⟨_, _, ht⟩ => ?_
  have hi : pos % m.recordMax < m.recordMax := Nat.mod_lt _ hpos
  have hslot := slot_subset.trans (h.part_subset (.slot (pos % m.recordMax)) hi)
  refine (ensures_load hslot).bind fun seq u ⟨_, _, hu⟩ => ?_
  split_ifs with hseq
  · refine (readRecord_touches h hi hheader out u).bind fun popped v ⟨hv, hbounded⟩ => ?_
    refine (ensures_store hslot (slot_subset (m := m))).bind fun _ w ⟨_, hw⟩ => ?_
    refine (ensures_store hhead (head_subset (m := m))).bind fun _ x ⟨_, hx⟩ => .pure ⟨?_, ?_⟩
    · exact ⟨_, hi, ((ht.trans (hu.trans hv)).after_reads hw).trans_union hx⟩
    · intro other hother
      rw [← Option.mem_some_iff.mp hother]
      exact hbounded
  · exact .pure ⟨⟨_, hi, (ht.trans hu).after_reads (.refl u)⟩, nofun⟩

theorem tryPushBytes_confined (h : LayoutSound m limit) (hvalid : validMeta m = true)
    (spurious : Nat → Bool) (a : Push) (bytes : Bytes) :
    Ensures (tryPushBytes m spurious a) ⟨bytes, []⟩ fun result after =>
      PushConfined m limit bytes result.1 after := by
  refine (tryPushBytes_touches h hvalid spurious a _).mono ?_
  rintro ⟨result, m'⟩ after ⟨index, hindex, ht⟩
  refine ⟨ht.accesses, ?_, fun hfailed => funext fun k => ht.kept k ?_⟩
  · rintro rfl
    refine ⟨index, hindex, fun k hk => ?_⟩
    rcases ht.mem_of_changed hk with (htail | hrecord) | hslot
    · exact .inl htail
    · exact .inr (.inr hrecord)
    · exact .inr (.inl hslot)
  · cases result with
    | ok => exact absurd rfl hfailed
    | error => exact Set.notMem_empty k

theorem tryPopBytes_confined (h : LayoutSound m limit) (hvalid : validMeta m = true)
    (out : List UInt8) (bytes : Bytes) :
    Ensures (tryPopBytes m out) ⟨bytes, []⟩ fun result after =>
      PopConfined m limit bytes out result after := by
  refine (tryPopBytes_touches h hvalid out _).mono ?_
  rintro result after ⟨⟨index, hindex, ht⟩, hbounded⟩
  exact ⟨ht.accesses, ⟨index, hindex, fun k hk => (ht.mem_of_changed hk).symm⟩, hbounded⟩

end Footprints

section Results

variable {payload : Span} {recordMax maxPayload : UInt32} {r : Ring} {m : RecordRingMeta}

/-- On whatever bytes the payload holds, the calls stay inside the ring and inside one slot. -/
theorem initializeRing_confined (h : initializeRing payload recordMax maxPayload = .ok r)
    (lost : Nat) (bytes : Bytes) (hm : m = { r.ringMeta with lostCount := lost }) :
    payloadSizeFor m.recordMax m.recordStride ≤ payload.size ∧
      (∀ spurious a, Ensures (tryPushBytes m spurious a) ⟨bytes, []⟩ fun result after =>
        PushConfined m (payloadSizeFor m.recordMax m.recordStride) bytes result.1 after) ∧
      ∀ out, Ensures (tryPopBytes m out) ⟨bytes, []⟩ fun result after =>
        PopConfined m (payloadSizeFor m.recordMax m.recordStride) bytes out result after := by
  have hg : Geometry m := by
    obtain ⟨⟨hmax, hstride⟩, hpos, hheader, hsum⟩ := initializeRing_geometry h
    rw [hm]
    exact ⟨⟨hmax, hstride⟩, hpos, hheader, hsum⟩
  have hvalid : validMeta m = true := by
    rw [hm, (initializeRing_ok h).1]
    exact validMeta_freshRing (initializeRing_ok h).2.1 (initializeRing_ok h).2.2
  refine ⟨?_, fun spurious a => tryPushBytes_confined hg.layoutSound hvalid spurious a bytes,
    fun out => tryPopBytes_confined hg.layoutSound hvalid out bytes⟩
  rw [hm, (initializeRing_ok h).1]
  simp only [initializeRing] at h
  split at h
  · contradiction
  · rename_i hreq
    push Not at hreq
    exact hreq.2.1

/-- A ring of one slot with every byte of its payload set. -/
theorem initializeRing_confined_line :
    initializeRing ⟨0, 200⟩ 1 48 = .ok (freshRing 1 64) ∧
      payloadSizeFor 1 64 = 200 ∧
      Ensures (tryPopBytes (freshRing 1 64).ringMeta [0]) ⟨fun _ => 255, []⟩ fun result after =>
        PopConfined (freshRing 1 64).ringMeta 200 (fun _ => 255) [0] result after :=
  have hok : initializeRing ⟨0, 200⟩ 1 48 = .ok (freshRing 1 64) := rfl
  ⟨hok, rfl, (initializeRing_confined hok 0 (fun _ => 255) rfl).2.2 [0]⟩

/-- What a bound ring promises to those who use it. -/
structure BoundSound (m : RecordRingMeta) (size : Nat) : Prop where
  layout : LayoutSound m size
  push : ∀ bytes spurious a, Ensures (tryPushBytes m spurious a) ⟨bytes, []⟩ fun _ after =>
    ∀ access ∈ after.trace, ∀ k ∈ access.region.addresses, k < size
  pop : ∀ bytes out, Ensures (tryPopBytes m out) ⟨bytes, []⟩ fun _ after =>
    ∀ access ∈ after.trace, ∀ k ∈ access.region.addresses, k < size

theorem bindRing_ok (h : bindRing payload m = .ok ()) :
    validMeta m = true ∧ payloadSizeFor m.recordMax m.recordStride ≤ payload.size := by
  simp only [bindRing] at h
  split_ifs at h with hmeta hreq
  push Not at hmeta hreq
  exact ⟨by simpa using hmeta.1, hreq.2⟩

/-- The last record ends where the exact sum says, whatever the wrapped sum is. -/
theorem LayoutSound.exact_le {size : Nat} (h : LayoutSound m size) (hwords : m.Words)
    (hvalid : validMeta m = true) :
    recordAreaOffset m.recordMax + m.recordMax * m.recordStride ≤ size := by
  obtain ⟨hpos, hheader⟩ := validMeta_sizes hvalid
  have hbytes : recordHeaderBytes = 16 := rfl
  have hlast : m.recordMax - 1 < m.recordMax := by omega
  have hstart := recordBytes_eq hwords hlast
  have hinside := h.inside (.record (m.recordMax - 1)) hlast
    (recordBytes m (m.recordMax - 1) + m.recordStride - 1)
    ⟨by simp only [RingPart.region]; omega, by simp only [RingPart.region]; omega⟩
  have hproduct : (m.recordMax - 1) * m.recordStride + m.recordStride =
      m.recordMax * m.recordStride := by
    rw [← Nat.succ_mul, Nat.succ_eq_add_one, Nat.sub_add_cancel hpos]
  rw [recordAreaOffset_eq hwords.recordMax]
  omega

/-- `bind` compares the span with a sum that may have wrapped; its ring is sound exactly when the
sum has not. -/
theorem bindRing_sound (hwords : m.Words) (hsize : payload.size < 2 ^ 64)
    (h : bindRing payload m = .ok ()) :
    BoundSound m payload.size ↔
      recordAreaOffset m.recordMax + m.recordMax * m.recordStride < 2 ^ 64 := by
  obtain ⟨hvalid, hfits⟩ := bindRing_ok h
  obtain ⟨hpos, hheader⟩ := validMeta_sizes hvalid
  constructor
  · intro hs
    exact (hs.layout.exact_le hwords hvalid).trans_lt hsize
  · intro hsum
    have hg : Geometry m := ⟨hwords, hpos, hheader, hsum⟩
    have hlayout : LayoutSound m payload.size :=
      ⟨fun part hpart k hk => (hg.layoutSound.inside part hpart k hk).trans_le hfits,
        hg.layoutSound.disjoint⟩
    refine ⟨hlayout, fun bytes spurious a => ?_, fun bytes out => ?_⟩
    · exact (tryPushBytes_confined hlayout hvalid spurious a bytes).mono fun _ _ hp => hp.inside
    · exact (tryPopBytes_confined hlayout hvalid out bytes).mono fun _ _ hp => hp.inside

theorem bindRing_sound_line :
    bindRing ⟨0, 200⟩ (freshRing 1 64).ringMeta = .ok () ∧
      BoundSound (freshRing 1 64).ringMeta 200 :=
  have hok : bindRing ⟨0, 200⟩ (freshRing 1 64).ringMeta = .ok () := rfl
  ⟨hok, (bindRing_sound ⟨by decide, by decide⟩ (by decide) hok).mpr (by decide)⟩

/-- Metadata whose sizes add up to 2^64 + 79: a span of 128 bytes is accepted, which ends before
the first slot header. -/
theorem bindRing_wraps :
    bindRing ⟨0, 128⟩ ⟨2 ^ 32 - 7, 2 ^ 32 - 1, ringProducerMpsc, ringConsumerSingle, 0⟩ = .ok () ∧
      ¬ BoundSound ⟨2 ^ 32 - 7, 2 ^ 32 - 1, ringProducerMpsc, ringConsumerSingle, 0⟩ 128 := by
  refine ⟨by decide +kernel, fun hs => ?_⟩
  have hslot := hs.layout.inside (.slot 0) (show 0 < 2 ^ 32 - 7 by decide) 128
    ⟨by decide, by decide⟩
  exact absurd hslot (by decide)

end Results

end Shmfx
