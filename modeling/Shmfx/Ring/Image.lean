import Shmfx.Ring.Bytes

/-! The ring that the bytes of a payload stand for: the calls on the bytes are the calls on it. -/
namespace Shmfx

open Word Memory Mealy

/-- A record as its bytes give it. -/
def recordView (m : RecordRingMeta) (b : Bytes) (index : Nat) : RingRecord where
  len := word b (recordBytes m index) 4
  type := .ofNat (word b (recordBytes m index + 4) 2)
  flags := .ofNat (word b (recordBytes m index + 6) 2)
  user := .ofNat (word b (recordBytes m index + 8) 8)
  bytes k := if k < m.maxPayload then b (recordBytes m index + recordHeaderBytes + k) else 0

/-- The ring in a payload; slots that it does not have are empty. -/
def ringView (m : RecordRingMeta) (b : Bytes) : Ring where
  ringMeta := m
  head := word b headCursor 8
  tail := word b tailCursor 8
  seq i := if i < m.recordMax then word b (slotHeader i) 8 else 0
  record i := if i < m.recordMax then recordView m b i else zeroRecord

section Parts

variable {m : RecordRingMeta} {limit i : Nat} {b c : Bytes} {part : RingPart}

/-- Bytes that differ in one part at most. -/
def SameBut (m : RecordRingMeta) (part : RingPart) (b c : Bytes) : Prop :=
  ∀ k, k ∉ part.addresses m → c k = b k

theorem SameBut.word_eq (hs : SameBut m part b c) (h : LayoutSound m limit) (hp : part.Of m)
    (part' : RingPart) (hp' : part'.Of m) (hne : part' ≠ part) {start n : Nat}
    (hsub : (⟨start, n⟩ : Region).addresses ⊆ part'.addresses m) :
    word c start n = word b start n :=
  word_congr fun k hk hk' => hs k (h.disjoint part' part hp' hp hne k (hsub ⟨hk, hk'⟩))

theorem SameBut.recordView_eq (hs : SameBut m part b c) (h : LayoutSound m limit)
    (hheader : recordHeaderBytes ≤ m.recordStride) (hp : part.Of m) (hi : i < m.recordMax)
    (hne : .record i ≠ part) : recordView m c i = recordView m b i := by
  have hword (offset n : Nat) (hn : offset + n ≤ recordHeaderBytes) :
      word c (recordBytes m i + offset) n = word b (recordBytes m i + offset) n :=
    hs.word_eq h hp (.record i) hi hne (record_subset i (hn.trans hheader))
  have hbytes (k : Nat) (hk : k < m.maxPayload) :
      c (recordBytes m i + recordHeaderBytes + k) =
        b (recordBytes m i + recordHeaderBytes + k) := by
    have hmax : m.maxPayload = m.recordStride - recordHeaderBytes := rfl
    refine hs _ (h.disjoint (.record i) part hi hp hne _ ⟨?_, ?_⟩)
    · simp only [RingPart.region]
      omega
    · simp only [RingPart.region]
      omega
  have hlen := hword 0 4 (by decide)
  rw [Nat.add_zero] at hlen
  simp only [recordView, hlen, hword 4 2 (by decide),
    hword 6 2 (by decide), hword 8 8 (by decide),
    RingRecord.mk.injEq, true_and]
  funext k
  split_ifs with hk
  · exact hbytes k hk
  · rfl

theorem ring_ext {r r' : Ring} (hm : r.ringMeta = r'.ringMeta) (hh : r.head = r'.head)
    (ht : r.tail = r'.tail) (hs : ∀ i, r.seq i = r'.seq i) (hr : ∀ i, r.record i = r'.record i) :
    r = r' := by
  cases r
  cases r'
  simp only [Ring.mk.injEq]
  exact ⟨hm, hh, ht, funext hs, funext hr⟩

theorem SameBut.seq_eq (hs : SameBut m part b c) (h : LayoutSound m limit) (hp : part.Of m)
    (hne : .slot i ≠ part) : (ringView m c).seq i = (ringView m b).seq i := by
  simp only [ringView]
  split_ifs with hi
  · exact hs.word_eq h hp (.slot i) hi hne slot_subset
  · rfl

theorem SameBut.record_eq (hs : SameBut m part b c) (h : LayoutSound m limit)
    (hheader : recordHeaderBytes ≤ m.recordStride) (hp : part.Of m) (hne : .record i ≠ part) :
    (ringView m c).record i = (ringView m b).record i := by
  simp only [ringView]
  split_ifs with hi
  · exact hs.recordView_eq h hheader hp hi hne
  · rfl

theorem SameBut.head_eq (hs : SameBut m part b c) (h : LayoutSound m limit) (hp : part.Of m)
    (hne : .head ≠ part) : word c headCursor 8 = word b headCursor 8 :=
  hs.word_eq h hp .head trivial hne head_subset

theorem SameBut.tail_eq (hs : SameBut m part b c) (h : LayoutSound m limit) (hp : part.Of m)
    (hne : .tail ≠ part) : word c tailCursor 8 = word b tailCursor 8 :=
  hs.word_eq h hp .tail trivial hne tail_subset

end Parts

section Stores

variable {m : RecordRingMeta} {limit i v : Nat} {b c : Bytes}

theorem sameBut_setWord {part : RingPart} {start n : Nat}
    (hsub : (⟨start, n⟩ : Region).addresses ⊆ part.addresses m) :
    SameBut m part b (setWord b start n v) :=
  fun _ hk => setWord_of_notMem fun hk' => hk (hsub hk')

theorem ringView_setTail (h : LayoutSound m limit) (hheader : recordHeaderBytes ≤ m.recordStride)
    (b : Bytes) (v : Nat) :
    ringView m (setWord b tailCursor 8 v) = (ringView m b).setTail (u64 v) := by
  have hs : SameBut m .tail b (setWord b tailCursor 8 v) := sameBut_setWord tail_subset
  refine ring_ext rfl (hs.head_eq h trivial nofun) (word_setWord ..) (fun i => ?_) (fun i => ?_)
  · exact hs.seq_eq h trivial nofun
  · exact hs.record_eq h hheader trivial nofun

theorem ringView_setHead (h : LayoutSound m limit) (hheader : recordHeaderBytes ≤ m.recordStride)
    (b : Bytes) (v : Nat) :
    ringView m (setWord b headCursor 8 v) = (ringView m b).setHead (u64 v) := by
  have hs : SameBut m .head b (setWord b headCursor 8 v) := sameBut_setWord head_subset
  refine ring_ext rfl (word_setWord ..) (hs.tail_eq h trivial nofun) (fun i => ?_) (fun i => ?_)
  · exact hs.seq_eq h trivial nofun
  · exact hs.record_eq h hheader trivial nofun

theorem ringView_setSeq (h : LayoutSound m limit) (hheader : recordHeaderBytes ≤ m.recordStride)
    (hi : i < m.recordMax) (b : Bytes) (v : Nat) :
    ringView m (setWord b (slotHeader i) 8 v) = (ringView m b).setSeq i (u64 v) := by
  have hs : SameBut m (.slot i) b (setWord b (slotHeader i) 8 v) := sameBut_setWord slot_subset
  refine ring_ext rfl (hs.head_eq h hi nofun) (hs.tail_eq h hi nofun) (fun j => ?_) (fun j => ?_)
  · rw [Ring.setSeq_seq]
    by_cases hj : j = i
    · subst hj
      rw [Function.update_self]
      simp only [ringView, if_pos hi]
      exact word_setWord ..
    · rw [Function.update_of_ne hj]
      exact hs.seq_eq h hi fun he => hj (RingPart.slot.inj he)
  · exact hs.record_eq h hheader hi nofun

/-- Whatever is written to a record, the view changes in that record only. -/
theorem SameBut.ringView_eq (hs : SameBut m (.record i) b c) (h : LayoutSound m limit)
    (hheader : recordHeaderBytes ≤ m.recordStride) (hi : i < m.recordMax) :
    ringView m c = (ringView m b).setRecord i (recordView m c i) := by
  refine ring_ext rfl (hs.head_eq h hi nofun) (hs.tail_eq h hi nofun) (fun j => ?_) (fun j => ?_)
  · exact hs.seq_eq h hi nofun
  · rw [Ring.setRecord_record]
    by_cases hj : j = i
    · subst hj
      rw [Function.update_self]
      exact if_pos hi
    · rw [Function.update_of_ne hj]
      exact hs.record_eq h hheader hi fun he => hj (RingPart.record.inj he)

/-- The bytes `writeRecord` leaves. -/
def filledBytes (m : RecordRingMeta) (a : Push) (index : Nat) (b : Bytes) : Bytes :=
  let record := recordBytes m index
  setBytes
    (setWord
      (setWord
        (setWord (setWord b record 4 (a.written m.maxPayload)) (record + 4) 2 a.type.toNat)
        (record + 6) 2 (a.storedFlags m.maxPayload).toNat)
      (record + 8) 8 a.user.toNat)
    (record + recordHeaderBytes) (a.payload.take (a.written m.maxPayload))

theorem length_take_written (a : Push) (n : Nat) :
    (a.payload.take (a.written n)).length = a.written n := by
  rw [List.length_take]
  exact Nat.min_eq_left (Nat.min_le_left ..)

theorem filledBytes_at {a : Push} {k : Nat} (hk : k < a.written m.maxPayload) :
    filledBytes m a i b (recordBytes m i + recordHeaderBytes + k) = a.payload.getD k 0 := by
  rw [filledBytes, setBytes_at (by rwa [length_take_written])]
  simp only [List.getD, List.getElem?_take_of_lt hk]

theorem filledBytes_beyond {a : Push} {k : Nat} (hk : a.written m.maxPayload ≤ k) :
    filledBytes m a i b (recordBytes m i + recordHeaderBytes + k) =
      b (recordBytes m i + recordHeaderBytes + k) := by
  have hlength := length_take_written a m.maxPayload
  rw [filledBytes, setBytes_of_notMem, setWord_of_notMem, setWord_of_notMem, setWord_of_notMem,
    setWord_of_notMem]
  all_goals
    simp only [mem_addresses, recordHeaderBytes, hlength]
    omega

theorem recordView_filledBytes (hwords : m.Words) (a : Push) (b : Bytes) :
    recordView m (filledBytes m a i b) i = (recordView m b i).fill a m.maxPayload := by
  have hmax : m.maxPayload < 2 ^ 32 := Nat.lt_of_le_of_lt (Nat.sub_le ..) hwords.recordStride
  have hwritten : a.written m.maxPayload < 2 ^ 32 := Nat.lt_of_le_of_lt (Nat.min_le_right ..) hmax
  have hlen : word (filledBytes m a i b) (recordBytes m i) 4 = a.written m.maxPayload := by
    rw [filledBytes, word_setBytes_of_disjoint (by simp only [recordHeaderBytes]; omega),
      word_setWord_of_disjoint (by omega), word_setWord_of_disjoint (by omega),
      word_setWord_of_disjoint (by omega), word_setWord]
    exact Nat.mod_eq_of_lt hwritten
  have htype : word (filledBytes m a i b) (recordBytes m i + 4) 2 = a.type.toNat := by
    rw [filledBytes, word_setBytes_of_disjoint (by simp only [recordHeaderBytes]; omega),
      word_setWord_of_disjoint (by omega), word_setWord_of_disjoint (by omega), word_setWord]
    exact Nat.mod_eq_of_lt a.type.toNat_lt
  have hflags : word (filledBytes m a i b) (recordBytes m i + 6) 2 =
      (a.storedFlags m.maxPayload).toNat := by
    rw [filledBytes, word_setBytes_of_disjoint (by simp only [recordHeaderBytes]; omega),
      word_setWord_of_disjoint (by omega), word_setWord]
    exact Nat.mod_eq_of_lt (a.storedFlags m.maxPayload).toNat_lt
  have huser : word (filledBytes m a i b) (recordBytes m i + 8) 8 = a.user.toNat := by
    rw [filledBytes, word_setBytes_of_disjoint (by simp only [recordHeaderBytes]; omega),
      word_setWord]
    exact Nat.mod_eq_of_lt a.user.toNat_lt
  simp only [recordView, RingRecord.fill, hlen, htype, hflags, huser, UInt16.ofNat_toNat,
    UInt64.ofNat_toNat, RingRecord.mk.injEq, true_and]
  funext k
  have hle : a.written m.maxPayload ≤ m.maxPayload := Nat.min_le_right ..
  by_cases hk : k < a.written m.maxPayload
  · rw [if_pos (hk.trans_le hle), if_pos hk, filledBytes_at hk]
  · rw [if_neg hk, filledBytes_beyond (Nat.not_lt.mp hk)]

end Stores

section Calls

variable {m : RecordRingMeta} {limit : Nat}

/-- The assumptions on a ring in memory under which the view follows its bytes. -/
structure Imaged (m : RecordRingMeta) (limit : Nat) : Prop where
  words : m.Words
  valid : validMeta m = true
  layout : LayoutSound m limit

theorem Imaged.slot_lt (h : Imaged m limit) (pos : Nat) : pos % m.recordMax < m.recordMax :=
  Nat.mod_lt _ (validMeta_sizes h.valid).1

theorem Imaged.header (h : Imaged m limit) : recordHeaderBytes ≤ m.recordStride :=
  (validMeta_sizes h.valid).2

theorem Imaged.tail_inside (h : Imaged m limit) :
    (⟨tailCursor, 8⟩ : Region).addresses ⊆ firstBytes limit :=
  tail_subset.trans (h.layout.part_subset .tail trivial)

theorem Imaged.seq_eq (h : Imaged m limit) (b : Bytes) (pos : Nat) :
    (ringView m b).seq ((ringView m b).slot pos) = word b (slotHeader (pos % m.recordMax)) 8 :=
  if_pos (h.slot_lt pos)

theorem ringView_addLost (m : RecordRingMeta) (b : Bytes) :
    ringView m.addLost b = (ringView m b).addLost :=
  rfl

/-- The ring after a claim. -/
def Claim.advance (r : Ring) : Claim → Ring
  | .claimed pos => r.setTail (u64 (pos + 1))
  | _ => r

theorem claimSlot_view (h : Imaged m limit) (n pos : Nat) (s : Traced) :
    Ensures (claimSlot m (fun _ => false) n pos) s fun claim t =>
      claim = claimLoop (ringView m s.bytes) pos n ∧
        ringView m t.bytes = claim.advance (ringView m s.bytes) := by
  induction n generalizing pos s with
  | zero => exact .pure ⟨rfl, rfl⟩
  | succ n ih =>
    have hslot := slot_subset.trans
      (h.layout.part_subset (.slot (pos % m.recordMax)) (h.slot_lt pos))
    refine (ensures_load hslot).bind fun seq t hload => ?_
    obtain ⟨hseq, ht, -⟩ := hload
    have hloop : claimLoop (ringView m s.bytes) pos (n + 1) =
        if diff64 seq pos = 0 then
          if word s.bytes tailCursor 8 = pos then .claimed pos
          else claimLoop (ringView m s.bytes) (word s.bytes tailCursor 8) n
        else if diff64 seq pos < 0 then .full
        else claimLoop (ringView m s.bytes) (word s.bytes tailCursor 8) n := by
      rw [claimLoop, h.seq_eq, ← hseq]
      rfl
    have hgo {q : Nat} {u : Traced} (hu : u.bytes = s.bytes) :
        Ensures (claimSlot m (fun _ => false) n q) u fun claim t =>
          claim = claimLoop (ringView m s.bytes) q n ∧
            ringView m t.bytes = claim.advance (ringView m s.bytes) :=
      hu ▸ ih q u
    rw [hloop]
    dsimp only
    by_cases hdiff : diff64 seq pos = 0
    · rw [if_pos hdiff, if_pos hdiff]
      refine (ensures_compareExchangeWeak h.tail_inside (tail_subset (m := m))).bind
        fun r u hexchange => ?_
      obtain ⟨hfound, hu⟩ := hexchange
      rw [ht] at hfound hu
      rw [← hfound]
      by_cases hwon : r.1 = true
      · rw [if_pos hwon] at hu ⊢
        rw [if_pos hu.1]
        refine .pure ⟨rfl, ?_⟩
        rw [hu.2.2.1, ringView_setTail h.layout h.header, u64_of_lt (u64_lt _)]
        rfl
      · rw [if_neg hwon] at hu ⊢
        rw [if_neg fun he => Bool.false_ne_true (hu.1 he)]
        exact hgo hu.2.1
    · rw [if_neg hdiff, if_neg hdiff]
      by_cases hneg : diff64 seq pos < 0
      · rw [if_pos hneg, if_pos hneg]
        exact .pure ⟨rfl, congrArg (ringView m) ht⟩
      · rw [if_neg hneg, if_neg hneg]
        refine (ensures_load h.tail_inside).bind fun q u hreload => ?_
        obtain ⟨hq, hu, -⟩ := hreload
        rw [ht] at hq hu
        rw [← hq]
        exact hgo hu

theorem writeRecord_view (h : Imaged m limit) (a : Push) {i : Nat} (hi : i < m.recordMax)
    (s : Traced) :
    Ensures (writeRecord m a i) s fun _ t => ringView m t.bytes =
      (ringView m s.bytes).setRecord i (((ringView m s.bytes).record i).fill a m.maxPayload) := by
  have hbytes : Ensures (writeRecord m a i) s fun _ t => t.bytes = filledBytes m a i s.bytes := rfl
  have htouches := writeRecord_touches h.layout hi h.header a s
  have hrecord : (ringView m s.bytes).record i = recordView m s.bytes i := if_pos hi
  rw [hrecord, ← recordView_filledBytes h.words, ← show _ = filledBytes m a i s.bytes from hbytes]
  exact SameBut.ringView_eq htouches.kept h.layout h.header hi

/-- `try_push` on the bytes is `try_push` on the ring they stand for. -/
theorem tryPushBytes_view (h : Imaged m limit) (a : Push) (s : Traced) :
    Ensures (tryPushBytes m (fun _ => false) a) s fun result t =>
      tryPush (ringView m s.bytes) a = (result.1, ringView result.2 t.bytes) := by
  have hvalid : validMeta (ringView m s.bytes).ringMeta = true := h.valid
  rw [tryPushBytes, if_pos h.valid, tryPush, if_pos hvalid]
  refine (ensures_load h.tail_inside).bind fun pos t hload => ?_
  obtain ⟨hpos, ht, -⟩ := hload
  refine (claimSlot_view h _ pos t).bind fun claim u hclaimed => ?_
  obtain ⟨hclaim, hu⟩ := hclaimed
  rw [ht] at hclaim hu
  rw [show (ringView m s.bytes).tail = pos from hpos.symm, ← hclaim]
  cases claim with
  | claimed pos =>
    have hi := h.slot_lt pos
    have hslot := slot_subset.trans (h.layout.part_subset (.slot (pos % m.recordMax)) hi)
    refine (writeRecord_view h a hi u).bind fun _ v hv => ?_
    refine (ensures_store hslot (slot_subset (m := m))).bind fun _ w hpublish => .pure ?_
    obtain ⟨hw, -⟩ := hpublish
    rw [hw, ringView_setSeq h.layout h.header hi, hv, hu, u64_of_lt (u64_lt _)]
    rfl
  | full =>
    refine .pure ?_
    rw [ringView_addLost, hu]
    rfl
  | exhausted =>
    refine .pure ?_
    rw [ringView_addLost, hu]
    rfl

theorem readRecord_view (out : List UInt8) {i : Nat} (hi : i < m.recordMax) (s : Traced) :
    Ensures (readRecord m i out) s fun popped t =>
      popped = (((ringView m s.bytes).record i).popped m.maxPayload out.length,
        copyOut out ((ringView m s.bytes).record i).bytes
          (((ringView m s.bytes).record i).popped m.maxPayload out.length).copiedSize) ∧
        t.bytes = s.bytes := by
  have hrecord : (ringView m s.bytes).record i = recordView m s.bytes i := if_pos hi
  rw [hrecord]
  refine ⟨Prod.ext rfl ?_, rfl⟩
  refine congrArg (· ++ _) (List.map_congr_left fun k hk => (if_pos ?_).symm)
  have hmin : k < min out.length (min (word s.bytes (recordBytes m i) 4) m.maxPayload) :=
    List.mem_range.mp hk
  omega

/-- `try_pop` on the bytes is `try_pop` on the ring they stand for. -/
theorem tryPopBytes_view (h : Imaged m limit) (out : List UInt8) (s : Traced) :
    Ensures (tryPopBytes m out) s fun result t =>
      tryPop (ringView m s.bytes) out = (result, ringView m t.bytes) := by
  have hvalid : validMeta (ringView m s.bytes).ringMeta = true := h.valid
  have hhead := head_subset.trans (h.layout.part_subset .head trivial)
  rw [tryPopBytes, if_pos h.valid, tryPop, if_pos hvalid]
  refine (ensures_load hhead).bind fun pos t hload => ?_
  obtain ⟨hpos, ht, -⟩ := hload
  have hi := h.slot_lt pos
  have hslot := slot_subset.trans (h.layout.part_subset (.slot (pos % m.recordMax)) hi)
  refine (ensures_load hslot).bind fun seq u hload => ?_
  obtain ⟨hseq, hu, -⟩ := hload
  rw [ht] at hseq hu
  rw [show (ringView m s.bytes).head = pos from hpos.symm]
  dsimp only
  rw [h.seq_eq, ← hseq]
  by_cases hready : seq = u64 (pos + 1)
  · rw [if_pos hready, if_pos hready]
    refine (readRecord_view out hi u).bind fun popped v hread => ?_
    obtain ⟨hpopped, hv⟩ := hread
    refine (ensures_store hslot (slot_subset (m := m))).bind fun _ w hrelease => ?_
    obtain ⟨hw, -⟩ := hrelease
    refine (ensures_store hhead (head_subset (m := m))).bind fun _ x hadvance => .pure ?_
    obtain ⟨hx, -⟩ := hadvance
    rw [hx, ringView_setHead h.layout h.header, hw, ringView_setSeq h.layout h.header hi, hv, hu,
      hpopped, hu, u64_of_lt (u64_lt _), u64_of_lt (u64_lt _)]
    rfl
  · rw [if_neg hready, if_neg hready]
    refine .pure ?_
    rw [hu]

/-- A ring in memory and its metadata. -/
structure ByteRing where
  ringMeta : RecordRingMeta
  memory : Traced

def bytesCall (s : ByteRing) : RingCall → RingReply × ByteRing
  | .push a =>
    let r := (tryPushBytes s.ringMeta (fun _ => false) a).run s.memory
    (.pushed (errorOf r.1.1) r.1.2.lostCount, ⟨r.1.2, r.2⟩)
  | .pop out =>
    let r := (tryPopBytes s.ringMeta out).run s.memory
    (.popped r.1, ⟨s.ringMeta, r.2⟩)

/-- A push leaves the geometry alone. -/
theorem tryPushBytes_imaged (h : Imaged m limit) (a : Push) (s : Traced) :
    Ensures (tryPushBytes m (fun _ => false) a) s fun result _ => Imaged result.2 limit := by
  have hlost : Imaged m.addLost limit := ⟨⟨h.words.1, h.words.2⟩, h.valid, h.layout.1, h.layout.2⟩
  have hresult : Ensures (tryPushBytes m (fun _ => false) a) s fun result _ =>
      result.2 = m ∨ result.2 = m.addLost := by
    rw [tryPushBytes, if_pos h.valid]
    refine (ensures_load h.tail_inside).bind fun pos t _ => ?_
    refine (claimSlot_view h _ pos t).bind fun claim u _ => ?_
    cases claim with
    | claimed => exact .inl rfl
    | full => exact .inr rfl
    | exhausted => exact .inr rfl
  refine hresult.mono fun result _ hr => ?_
  rcases hr with hr | hr
  · rw [hr]
    exact h
  · rw [hr]
    exact hlost

/-- One call on the bytes follows one call on the ring. -/
theorem bytesCall_simulates (limit : Nat) :
    Simulates bytesCall ringCall fun _ s r =>
      Imaged s.ringMeta limit ∧ ringView s.ringMeta s.memory.bytes = r := by
  rintro call calls ⟨m, memory⟩ _ ⟨h, rfl⟩
  cases call with
  | push a =>
    have hview : tryPush (ringView m memory.bytes) a = (_, _) := tryPushBytes_view h a memory
    simp only [bytesCall, ringCall, hview]
    exact ⟨rfl, tryPushBytes_imaged h a memory, trivial⟩
  | pop out =>
    have hview : tryPop (ringView m memory.bytes) out = (_, _) := tryPopBytes_view h out memory
    simp only [bytesCall, ringCall, hview]
    exact ⟨trivial, h, trivial⟩

end Calls

section Initialized

variable {m : RecordRingMeta} {limit : Nat}

/-- Zeroed bytes are an empty ring. -/
theorem ringView_zero (h : Imaged m limit) {b : Bytes} (hb : ∀ k < limit, b k = 0) :
    ringView m b = ⟨m, 0, 0, fun _ => 0, fun _ => zeroRecord⟩ := by
  have hword (part : RingPart) (hpart : part.Of m) {start n : Nat}
      (hsub : (⟨start, n⟩ : Region).addresses ⊆ part.addresses m) : word b start n = 0 :=
    word_zero fun k hk hk' => hb k (h.layout.inside part hpart k (hsub ⟨hk, hk'⟩))
  have hrecord (i : Nat) (hi : i < m.recordMax) : recordView m b i = zeroRecord := by
    have hfield (offset n : Nat) (hn : offset + n ≤ recordHeaderBytes) :
        word b (recordBytes m i + offset) n = 0 :=
      hword (.record i) hi (record_subset i (hn.trans h.header))
    have hlen := hfield 0 4 (by decide)
    rw [Nat.add_zero] at hlen
    simp only [recordView, zeroRecord, hlen, hfield 4 2 (by decide),
      hfield 6 2 (by decide), hfield 8 8 (by decide)]
    congr 1
    funext k
    split_ifs with hk
    · have hmax : m.maxPayload = m.recordStride - recordHeaderBytes := rfl
      refine hb _ (h.layout.inside (.record i) hi _ ⟨?_, ?_⟩)
      · simp only [RingPart.region]
        omega
      · simp only [RingPart.region]
        omega
    · rfl
  refine ring_ext rfl (hword .head trivial head_subset)
    (hword .tail trivial tail_subset) (fun i => ?_) (fun i => ?_)
  · simp only [ringView]
    split_ifs with hi
    · exact hword (.slot i) hi slot_subset
    · rfl
  · simp only [ringView]
    split_ifs with hi
    · exact hrecord i hi
    · rfl

/-- The loop over the slot headers, `n` of them done. -/
theorem initializeSlots_view (h : Imaged m limit) {n : Nat} (hn : n ≤ m.recordMax) (s : Traced) :
    Ensures (forM (List.range n) fun i => store (slotHeader i) 8 i) s fun _ t =>
      ringView m t.bytes = { ringView m s.bytes with
        seq := fun i => if i < n then i else (ringView m s.bytes).seq i } := by
  induction n with
  | zero => exact .pure rfl
  | succ n ih =>
    have hi : n < m.recordMax := hn
    have hslot := slot_subset.trans (h.layout.part_subset (.slot n) hi)
    rw [List.range_succ, List.forM_append]
    refine (ih (Nat.le_of_lt hi)).bind fun _ t ht => ?_
    refine (ensures_store hslot (slot_subset (m := m))).bind fun _ u ⟨hu, _⟩ => .pure ?_
    have hlt := h.words.recordMax
    rw [hu, ringView_setSeq h.layout h.header hi, ht, u64_of_lt (by omega)]
    refine ring_ext rfl rfl rfl (fun i => ?_) (fun i => rfl)
    simp only [Ring.setSeq, Function.update_apply]
    split_ifs <;> omega

theorem initializePayload_view (h : Imaged m limit) (s : Traced) :
    Ensures (initializePayload limit m.recordMax) s fun _ t =>
      ringView m t.bytes =
        ⟨m, 0, 0, fun i => if i < m.recordMax then i else 0, fun _ => zeroRecord⟩ := by
  have hall : (⟨0, (List.replicate limit (0 : UInt8)).length⟩ : Region).addresses ⊆
      firstBytes limit := by
    intro k hk
    simpa [firstBytes] using hk
  have hhead := head_subset.trans (h.layout.part_subset .head trivial)
  refine (ensures_storeBytes hall hall).bind fun _ t ⟨ht, _⟩ => ?_
  refine (ensures_store hhead (head_subset (m := m))).bind fun _ u ⟨hu, _⟩ => ?_
  refine (ensures_store h.tail_inside (tail_subset (m := m))).bind fun _ v ⟨hv, _⟩ => ?_
  refine (initializeSlots_view h (Nat.le_refl _) v).mono fun _ w hw => ?_
  have hzero : ringView m t.bytes = ⟨m, 0, 0, fun _ => 0, fun _ => zeroRecord⟩ := by
    refine ringView_zero h fun k hk => ?_
    have hat : setBytes s.bytes 0 (List.replicate limit 0) (0 + k) =
        (List.replicate limit 0).getD k 0 := setBytes_at (by rwa [List.length_replicate])
    rw [ht, ← Nat.zero_add k, hat]
    simp [List.getD, hk]
  rw [hw, hv, ringView_setTail h.layout h.header, hu, ringView_setHead h.layout h.header, hzero]
  rfl

theorem initializeRing_imaged {payload : Span} {recordMax maxPayload : UInt32} {r : Ring}
    (h : initializeRing payload recordMax maxPayload = .ok r) :
    Imaged r.ringMeta (payloadSizeFor r.ringMeta.recordMax r.ringMeta.recordStride) := by
  have hg := initializeRing_geometry h
  obtain ⟨rfl, hpos, hheader⟩ := initializeRing_ok h
  exact ⟨hg.toWords, validMeta_freshRing hpos hheader, hg.layoutSound⟩

/-- `initialize` on the bytes, whatever they held. -/
theorem initializeBytes_view (payload : Span) (recordMax maxPayload : UInt32) (s : Traced) :
    Ensures (initializeBytes payload recordMax maxPayload) s fun result t =>
      result.map (fun m => ringView m t.bytes) = initializeRing payload recordMax maxPayload := by
  rw [initializeBytes, initializeRing]
  by_cases hc : payloadSizeFor recordMax.toNat (recordStrideFor maxPayload.toNat) = 0 ∨
      payload.size < payloadSizeFor recordMax.toNat (recordStrideFor maxPayload.toNat) ∨
      !payloadAligned payload
  · rw [if_pos hc, if_pos hc]
    exact .pure rfl
  · have hok : initializeRing payload recordMax maxPayload =
        .ok (freshRing recordMax.toNat (recordStrideFor maxPayload.toNat)) := if_neg hc
    rw [if_neg hc, if_neg hc]
    refine (initializePayload_view (initializeRing_imaged hok) s).bind fun _ t ht => .pure ?_
    exact congrArg Except.ok ht

/-- A ring initialised in memory answers every sequence of calls as the ring model does. -/
theorem initializeBytes_replies {payload : Span} {recordMax maxPayload : UInt32} {s t : Traced}
    (h : (initializeBytes payload recordMax maxPayload).run s = (.ok m, t))
    (calls : List RingCall) :
    replies bytesCall ⟨m, t⟩ calls =
      replies ringCall (freshRing recordMax.toNat (recordStrideFor maxPayload.toNat)) calls := by
  have hview := initializeBytes_view payload recordMax maxPayload s
  rw [Ensures, h] at hview
  have hok : initializeRing payload recordMax maxPayload = .ok (ringView m t.bytes) := hview.symm
  have himaged : Imaged m (payloadSizeFor m.recordMax m.recordStride) := initializeRing_imaged hok
  rw [← (initializeRing_ok hok).1]
  exact ((bytesCall_simulates _).replies_eq ⟨himaged, rfl⟩).1

end Initialized

end Shmfx
