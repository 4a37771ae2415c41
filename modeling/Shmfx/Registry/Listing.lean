import Shmfx.Registry.AnyImage

/-! One `Registry::list` among the `register_segment` and `unregister` calls of other processes:
every bitmap access, publish and count update a step, and holders of the mutex that die. -/
namespace Shmfx

open Lts

/-- What follows a cleared bit: the count of `unregister`, or the rest of a recovery. -/
inductive AfterClear
  | subCount
  | recover (rest : List SlotIndex) (count : UInt32)

/-- The registry mutex: not held, left by a dead owner, beyond locking, held by the list call; and
else where the process that holds it stands. A loaded bitmap byte is kept until it is stored. -/
inductive WriterPc
  | free
  | abandoned
  | lost
  | listing
  | locked
  | loadBit (i : SlotIndex) (entry : RegistryEntry)
  | storeBit (i : SlotIndex) (entry : RegistryEntry) (byte : UInt8)
  | addCount (i : SlotIndex) (entry : RegistryEntry)
  | publish (i : SlotIndex) (entry : RegistryEntry)
  | empty (i : SlotIndex) (name : Name)
  | loadClear (i : SlotIndex) (k : AfterClear)
  | storeClear (i : SlotIndex) (byte : UInt8) (k : AfterClear)
  | subCount
  | leaving
  | recover (rest : List SlotIndex) (count : UInt32)

def AfterClear.pc : AfterClear → WriterPc
  | subCount => .subCount
  | recover rest count => .recover rest count

/-- A writer is between `lock_registry_control` and the unlock. -/
def WriterPc.Holding : WriterPc → Prop
  | .free | .abandoned | .lost | .listing => False
  | _ => True

/-- Where the list call stands: before its loop, at a turn of it, at the first load of the seqlock
word, the copy and the second load in a try of `snapshot_slot`, before the fallback lock, and before
the copy under it. The slots still to visit come along. -/
inductive ReaderPc
  | idle
  | scan (rest : List SlotIndex)
  | load (i : SlotIndex) (rest : List SlotIndex) (retry : Nat)
  | fetch (i : SlotIndex) (rest : List SlotIndex) (retry : Nat) (seq : UInt32)
  | check (i : SlotIndex) (rest : List SlotIndex) (retry : Nat) (seq : UInt32)
      (snap : RegistryEntry)
  | lock (i : SlotIndex) (rest : List SlotIndex)
  | copy (i : SlotIndex) (rest : List SlotIndex)

/-- The slot that the call has seen the bit of, and has not done with. -/
def ReaderPc.slot : ReaderPc → Option SlotIndex
  | .idle | .scan _ => none
  | .load i _ _ | .fetch i _ _ _ | .check i _ _ _ _ | .lock i _ | .copy i _ => some i

structure ListConfig where
  payload : RegistryPayload
  writer : WriterPc
  reader : ReaderPc
  result : List RegistryEntry

/-- What the call takes for a slot when it accepts its copy, or makes it under the lock. -/
def ListConfig.taken (c : ListConfig) : RegistryEntry :=
  match c.reader with
  | .check _ _ _ _ snap => snap
  | .copy i _ => c.payload.slots i
  | _ => zeroEntry

/-- `read` is the moment the list call has a slot. -/
inductive ListEvent
  | tau
  | called
  | read
  | registering (entry : RegistryEntry)
  | registered (entry : RegistryEntry)
  | unregistering (name : Name)
  | died

/-- The name a call of another process is about, at its start and at its publish. -/
def ListEvent.callName : ListEvent → Option Name
  | .registering entry | .registered entry => some (entryName entry)
  | .unregistering name => some name
  | _ => none

namespace RegistryPayload

/-- One store to the bitmap. -/
def storeByte (p : RegistryPayload) (i : SlotIndex) (byte : UInt8) : RegistryPayload :=
  { p with bitmap := Function.update p.bitmap (i / 8) byte }

def loadByte (p : RegistryPayload) (i : SlotIndex) : UInt8 := p.bitmap (i / 8)

/-- What `clear_slot_for_recovery` leaves in a slot. -/
def clearedSlot (p : RegistryPayload) (i : SlotIndex) : RegistryEntry :=
  zeroEntry.setSeq (((p.slots i).seqStorage + 2) &&& ~~~1)

end RegistryPayload

/-- One step of the processes that register and unregister. The searches happen at their end: nobody
else stores while the mutex is held. Names are terminated. -/
inductive WriterStep : RegistryPayload → WriterPc → ListEvent → RegistryPayload → WriterPc → Prop
  | lock {p : RegistryPayload} : WriterStep p .free .tau p .locked
  | replace {p : RegistryPayload} {entry : RegistryEntry} {i : SlotIndex}
      (hz : ∃ k, entry.name k = 0)
      (h : p.registerLoop (entryName entry) (List.finRange maxRegistryEntries) none = .inl i) :
      WriterStep p .locked (.registering entry) p (.publish i entry)
  | insert {p : RegistryPayload} {entry : RegistryEntry} {i : SlotIndex}
      (hz : ∃ k, entry.name k = 0)
      (h : p.registerLoop (entryName entry) (List.finRange maxRegistryEntries) none =
        .inr (some i)) :
      WriterStep p .locked (.registering entry) p (.loadBit i entry)
  | full {p : RegistryPayload} {entry : RegistryEntry} (hz : ∃ k, entry.name k = 0)
      (h : p.registerLoop (entryName entry) (List.finRange maxRegistryEntries) none = .inr none) :
      WriterStep p .locked (.registering entry) p .leaving
  | loadBit {p : RegistryPayload} {entry : RegistryEntry} {i : SlotIndex} :
      WriterStep p (.loadBit i entry) .tau p (.storeBit i entry (p.loadByte i))
  | storeBit {p : RegistryPayload} {entry : RegistryEntry} {i : SlotIndex} {byte : UInt8} :
      WriterStep p (.storeBit i entry byte) .tau (p.storeByte i (byte ||| Bitmap.mask i))
        (.addCount i entry)
  | addCount {p : RegistryPayload} {entry : RegistryEntry} {i : SlotIndex} :
      WriterStep p (.addCount i entry) .tau p.addCount (.publish i entry)
  | publish {p : RegistryPayload} {entry : RegistryEntry} {i : SlotIndex} :
      WriterStep p (.publish i entry) (.registered entry) (p.publish i entry) .leaving
  | remove {p : RegistryPayload} {name : Name} {i : SlotIndex}
      (h : (List.finRange maxRegistryEntries).find? (fun i => p.bitIsSet i && p.named i name) =
        some i) :
      WriterStep p .locked (.unregistering name) p (.empty i name)
  | absent {p : RegistryPayload} {name : Name}
      (h : (List.finRange maxRegistryEntries).find? (fun i => p.bitIsSet i && p.named i name) =
        none) :
      WriterStep p .locked (.unregistering name) p .leaving
  | empty {p : RegistryPayload} {name : Name} {i : SlotIndex} :
      WriterStep p (.empty i name) .tau (p.publish i zeroEntry) (.loadClear i .subCount)
  | loadClear {p : RegistryPayload} {i : SlotIndex} {k : AfterClear} :
      WriterStep p (.loadClear i k) .tau p (.storeClear i (p.loadByte i) k)
  | storeClear {p : RegistryPayload} {i : SlotIndex} {byte : UInt8} {k : AfterClear} :
      WriterStep p (.storeClear i byte k) .tau (p.storeByte i (byte &&& ~~~Bitmap.mask i)) k.pc
  | subCount {p : RegistryPayload} : WriterStep p .subCount .tau p.subCount .leaving
  | unlock {p : RegistryPayload} : WriterStep p .leaving .tau p .free
  | die {p : RegistryPayload} {pc : WriterPc} (h : pc.Holding) : WriterStep p pc .died p .abandoned
  | takeOver {p : RegistryPayload} :
      WriterStep p .abandoned .tau p (.recover (List.finRange maxRegistryEntries) 0)
  | damaged {p : RegistryPayload} {i : SlotIndex} {rest : List SlotIndex} {count : UInt32}
      (h : p.damaged i = true) :
      WriterStep p (.recover (i :: rest) count) .tau (p.setSlot i (p.clearedSlot i))
        (.loadClear i (.recover rest count))
  | intact {p : RegistryPayload} {i : SlotIndex} {rest : List SlotIndex} {count : UInt32}
      (h : p.damaged i = false) :
      WriterStep p (.recover (i :: rest) count) .tau p
        (.recover rest (if p.bitIsSet i then count + 1 else count))
  | marked {p : RegistryPayload} {count : UInt32} :
      WriterStep p (.recover [] count) .tau { p with countStorage := count } .locked
  | unmarked {p : RegistryPayload} {count : UInt32} :
      WriterStep p (.recover [] count) .tau { p with countStorage := count } .lost

/-- What `list` appends for a slot it has read. -/
def kept (start : Name) (slot : RegistryEntry) : List RegistryEntry :=
  if startsWith start slot then [slot] else []

/-- One step of `list(start)`, or of the others. A recovery under the fallback lock is one step: its
stores are seen by nobody but the list call itself. -/
inductive ListStep (start : Name) : ListConfig → ListEvent → ListConfig → Prop
  | write {p p' : RegistryPayload} {w w' : WriterPc} {e : ListEvent} {r : ReaderPc}
      {out : List RegistryEntry} (h : WriterStep p w e p' w') :
      ListStep start ⟨p, w, r, out⟩ e ⟨p', w', r, out⟩
  | call {p : RegistryPayload} {w : WriterPc} {out : List RegistryEntry} :
      ListStep start ⟨p, w, .idle, out⟩ .called
        ⟨p, w, .scan (List.finRange maxRegistryEntries), out⟩
  | clear {p : RegistryPayload} {w : WriterPc} {i : SlotIndex} {rest : List SlotIndex}
      {out : List RegistryEntry} (h : p.bitIsSet i = false) :
      ListStep start ⟨p, w, .scan (i :: rest), out⟩ .tau ⟨p, w, .scan rest, out⟩
  | set {p : RegistryPayload} {w : WriterPc} {i : SlotIndex} {rest : List SlotIndex}
      {out : List RegistryEntry} (h : p.bitIsSet i = true) :
      ListStep start ⟨p, w, .scan (i :: rest), out⟩ .tau ⟨p, w, .load i rest 0, out⟩
  | odd {p : RegistryPayload} {w : WriterPc} {i : SlotIndex} {rest : List SlotIndex} {retry : Nat}
      {out : List RegistryEntry} (hr : retry < snapshotRetries)
      (h : (p.slots i).seqStorage &&& 1 ≠ 0) :
      ListStep start ⟨p, w, .load i rest retry, out⟩ .tau ⟨p, w, .load i rest (retry + 1), out⟩
  | even {p : RegistryPayload} {w : WriterPc} {i : SlotIndex} {rest : List SlotIndex} {retry : Nat}
      {out : List RegistryEntry} (hr : retry < snapshotRetries)
      (h : (p.slots i).seqStorage &&& 1 = 0) :
      ListStep start ⟨p, w, .load i rest retry, out⟩ .tau
        ⟨p, w, .fetch i rest retry (p.slots i).seqStorage, out⟩
  | fetch {p : RegistryPayload} {w : WriterPc} {i : SlotIndex} {rest : List SlotIndex} {retry : Nat}
      {seq : UInt32} {out : List RegistryEntry} :
      ListStep start ⟨p, w, .fetch i rest retry seq, out⟩ .tau
        ⟨p, w, .check i rest retry seq (p.slots i), out⟩
  | exhausted {p : RegistryPayload} {w : WriterPc} {i : SlotIndex} {rest : List SlotIndex}
      {retry : Nat} {out : List RegistryEntry} (hr : snapshotRetries ≤ retry) :
      ListStep start ⟨p, w, .load i rest retry, out⟩ .tau ⟨p, w, .lock i rest, out⟩
  | moved {p : RegistryPayload} {w : WriterPc} {i : SlotIndex} {rest : List SlotIndex} {retry : Nat}
      {seq : UInt32} {snap : RegistryEntry} {out : List RegistryEntry}
      (h : (p.slots i).seqStorage ≠ seq) :
      ListStep start ⟨p, w, .check i rest retry seq snap, out⟩ .tau
        ⟨p, w, .load i rest (retry + 1), out⟩
  | taken {p : RegistryPayload} {w : WriterPc} {i : SlotIndex} {rest : List SlotIndex} {retry : Nat}
      {seq : UInt32} {snap : RegistryEntry} {out : List RegistryEntry}
      (h : (p.slots i).seqStorage = seq) :
      ListStep start ⟨p, w, .check i rest retry seq snap, out⟩ .read
        ⟨p, w, .scan rest, out ++ kept start snap⟩
  | lock {p : RegistryPayload} {i : SlotIndex} {rest : List SlotIndex} {out : List RegistryEntry} :
      ListStep start ⟨p, .free, .lock i rest, out⟩ .tau ⟨p, .listing, .copy i rest, out⟩
  | recover {p : RegistryPayload} {i : SlotIndex} {rest : List SlotIndex}
      {out : List RegistryEntry} :
      ListStep start ⟨p, .abandoned, .lock i rest, out⟩ .tau
        ⟨p.recoverRegistryInvariant, .listing, .copy i rest, out⟩
  | unmarked {p : RegistryPayload} {i : SlotIndex} {rest : List SlotIndex}
      {out : List RegistryEntry} :
      ListStep start ⟨p, .abandoned, .lock i rest, out⟩ .tau
        ⟨p.recoverRegistryInvariant, .lost, .scan rest, out⟩
  | refused {p : RegistryPayload} {i : SlotIndex} {rest : List SlotIndex}
      {out : List RegistryEntry} :
      ListStep start ⟨p, .lost, .lock i rest, out⟩ .tau ⟨p, .lost, .scan rest, out⟩
  | copied {p : RegistryPayload} {i : SlotIndex} {rest : List SlotIndex}
      {out : List RegistryEntry} :
      ListStep start ⟨p, .listing, .copy i rest, out⟩ .read
        ⟨p, .free, .scan rest, out ++ kept start (p.slots i)⟩

/-- Nobody in a call, on a payload. -/
def ListConfig.initial (p : RegistryPayload) : ListConfig := ⟨p, .free, .idle, []⟩

section Proofs

variable {start : Name} {p : RegistryPayload} {c d : ListConfig} {e : ListEvent} {i : SlotIndex}

theorem eq_of_snapshotLoop {slot out : RegistryEntry} {n : Nat}
    (h : snapshotLoop slot n = some out) : out = slot := by
  induction n with
  | zero => cases h
  | succ n ih =>
    unfold snapshotLoop at h
    split at h
    · exact ih h
    · exact (Option.some.inj h).symm

/-- A slot found by name has the name. -/
theorem entryName_of_named {name : Name} (h : p.named i name = true) :
    entryName (p.slots i) = name := by
  unfold RegistryPayload.named at h
  split at h
  · rename_i out hout
    rw [← eq_of_snapshotLoop hout]
    exact eq_of_beq h
  · cases h

/-- The result grows by what is read. -/
def ListEvent.gain (start : Name) (c : ListConfig) : ListEvent → List RegistryEntry
  | .read => kept start c.taken
  | _ => []

theorem result_step (h : ListStep start c e d) :
    d.result = c.result ++ e.gain start c := by
  cases h with
  | write hw => cases hw <;> exact (List.append_nil _).symm
  | taken => rfl
  | copied => rfl
  | _ => exact (List.append_nil _).symm

theorem listSlot_of_clear (h : p.bitIsSet i = false) : p.listSlot start i = none := by
  rw [RegistryPayload.listSlot, if_neg (Bool.eq_false_iff.mp h)]

theorem listSlot_of_set (h : p.bitIsSet i = true) (he : (p.slots i).seqStorage &&& 1 = 0) :
    (p.listSlot start i).toList = kept start (p.slots i) := by
  rw [RegistryPayload.listSlot, if_pos h, snapshotSlot_even he, Option.getD_some]
  unfold kept startsWith
  by_cases hs : start = [] ∨ (entryName (p.slots i)).take start.length = start
  · simp [hs]
  · simp [not_or.mp hs]

theorem mem_list_of_set {entry : RegistryEntry} (h : p.bitIsSet i = true)
    (he : (p.slots i).seqStorage &&& 1 = 0) (hentry : entry ∈ kept start (p.slots i)) :
    entry ∈ p.list start := by
  rw [RegistryPayload.list, List.mem_filterMap]
  refine ⟨i, List.mem_finRange i, Option.mem_toList.mp ?_⟩
  rw [listSlot_of_set h he]
  exact hentry

/-- The steps of a `register_segment` compose to the whole call, under every guard that does not ask
for more than where the list call stands. -/
theorem register_run {G : ListConfig → ListEvent → Prop} (start : Name) (p : RegistryPayload)
    (r : ReaderPc) (out : List RegistryEntry) (hok : ∀ p w e, G ⟨p, w, r, out⟩ e)
    {entry : RegistryEntry} (hz : ∃ k, entry.name k = 0) :
    ∃ log, Run (Guarded G (ListStep start)) ⟨p, .free, r, out⟩ log
        ⟨(p.registerSegment entry).2, .free, r, out⟩ ∧
      .registering entry ∈ log ∧ ∀ e ∈ log, e.callName = none ∨ e.callName = entryName entry := by
  have hwrite {p p' : RegistryPayload} {w w' : WriterPc} {e : ListEvent}
      (h : WriterStep p w e p' w') :
      Guarded G (ListStep start) ⟨p, w, r, out⟩ e ⟨p', w', r, out⟩ :=
    ⟨hok p w e, .write h⟩
  have hlock : Run (Guarded G (ListStep start)) ⟨p, .free, r, out⟩ [.tau]
      ⟨p, .locked, r, out⟩ :=
    .single (hwrite .lock)
  unfold RegistryPayload.registerSegment
  cases hloop : p.registerLoop (entryName entry) (List.finRange maxRegistryEntries) none with
  | inl i =>
    have hpublish := (hlock.snoc (hwrite (.replace hz hloop))).snoc (hwrite .publish)
    exact ⟨_, hpublish.snoc (hwrite .unlock), by simp, by simp [ListEvent.callName]⟩
  | inr free =>
    cases free with
    | none =>
      have hfull := hlock.snoc (hwrite (.full hz hloop))
      exact ⟨_, hfull.snoc (hwrite .unlock), by simp, by simp [ListEvent.callName]⟩
    | some i =>
      have hbit := ((hlock.snoc (hwrite (.insert hz hloop))).snoc (hwrite .loadBit)).snoc
        (hwrite .storeBit)
      have hpublish := (hbit.snoc (hwrite .addCount)).snoc (hwrite .publish)
      exact ⟨_, hpublish.snoc (hwrite .unlock), by simp, by simp [ListEvent.callName]⟩

/-- Undisturbed, the steps of `list` compose to the whole call; it stands only at slots that have
their bits. -/
theorem scan_run {G : ListConfig → ListEvent → Prop} (start : Name) (w : WriterPc)
    (he : ∀ i, (p.slots i).seqStorage &&& 1 = 0)
    (hok : ∀ r out e, (∀ i ∈ r.slot, p.bitIsSet i = true) → G ⟨p, w, r, out⟩ e)
    (rest : List SlotIndex) (out : List RegistryEntry) :
    ∃ log, Run (Guarded G (ListStep start)) ⟨p, w, .scan rest, out⟩ log
        ⟨p, w, .scan [], out ++ rest.filterMap (p.listSlot start)⟩ ∧
      ∀ e ∈ log, e.callName = none := by
  induction rest generalizing out with
  | nil =>
    rw [List.filterMap_nil, List.append_nil]
    exact ⟨[], .nil, fun _ h => absurd h List.not_mem_nil⟩
  | cons i rest ih =>
    cases hb : p.bitIsSet i with
    | false =>
      obtain ⟨log, hrun, hlog⟩ := ih out
      rw [List.filterMap_cons_none (listSlot_of_clear hb)]
      exact ⟨_, Run.cons ⟨hok _ _ _ nofun, .clear hb⟩ hrun, List.forall_mem_cons.mpr ⟨rfl, hlog⟩⟩
    | true =>
      have hat (r : ReaderPc) (hr : r.slot = some i) (e : ListEvent) : G ⟨p, w, r, out⟩ e :=
        hok r out e fun k hk => Option.some.inj (hr.symm.trans hk) ▸ hb
      have hset : Run (Guarded G (ListStep start)) ⟨p, w, .scan (i :: rest), out⟩ [.tau]
          ⟨p, w, .load i rest 0, out⟩ :=
        .single ⟨hok _ _ _ nofun, .set hb⟩
      have hread : Run (Guarded G (ListStep start)) ⟨p, w, .scan (i :: rest), out⟩
          [.tau, .tau, .tau, .read] ⟨p, w, .scan rest, out ++ kept start (p.slots i)⟩ :=
        ((hset.snoc ⟨hat _ rfl _, .even (by decide) (he i)⟩).snoc ⟨hat _ rfl _, .fetch⟩).snoc
          ⟨hat _ rfl _, .taken rfl⟩
      obtain ⟨log, hrun, hlog⟩ := ih (out ++ kept start (p.slots i))
      rw [List.filterMap_eq_flatMap_toList, List.flatMap_cons, ← List.filterMap_eq_flatMap_toList,
        listSlot_of_set hb (he i), ← List.append_assoc]
      refine ⟨_, hread.append hrun, List.forall_mem_append.mpr ⟨?_, hlog⟩⟩
      intro e he
      simp only [List.mem_cons, List.not_mem_nil, or_false] at he
      rcases he with rfl | rfl | rfl | rfl <;> rfl

/-- Undisturbed, the call returns the list of the payload. -/
theorem list_run (start : Name) (w : WriterPc) (he : ∀ i, (p.slots i).seqStorage &&& 1 = 0) :
    ∃ log, Run (ListStep start) ⟨p, w, .idle, []⟩ log ⟨p, w, .scan [], p.list start⟩ ∧
      ∀ e ∈ log, e.callName = none := by
  have hcall : ListStep start ⟨p, w, .idle, []⟩ .called
      ⟨p, w, .scan (List.finRange maxRegistryEntries), []⟩ := .call
  unfold RegistryPayload.list
  generalize List.finRange maxRegistryEntries = rest at hcall ⊢
  obtain ⟨log, hrun, hlog⟩ := scan_run (G := fun _ _ => True) start w he
    (fun _ _ _ _ => trivial) rest []
  exact ⟨_, Run.cons hcall hrun.unguard, List.forall_mem_cons.mpr ⟨rfl, hlog⟩⟩

end Proofs

end Shmfx
