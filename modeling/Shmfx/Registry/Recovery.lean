import Shmfx.Registry.Map

/-! The registry calls store by store, the holder of the mutex dying between any two stores, and
`recover_registry_invariant`. -/
namespace Shmfx

open Lts

namespace RegistryPayload

def setSlot (p : RegistryPayload) (i : SlotIndex) (slot : RegistryEntry) : RegistryPayload :=
  { p with slots := Function.update p.slots i slot }

/-- The test `recover_registry_invariant` makes on each slot. -/
def damaged (p : RegistryPayload) (i : SlotIndex) : Bool :=
  let occupied := p.bitIsSet i
  let writerInProgress := (p.slots i).seqStorage &&& 1 != 0
  let hasName := (p.slots i).name 0 != 0
  writerInProgress || (occupied && !hasName) || (!occupied && hasName)

/-- The whole of `clear_slot_for_recovery`. -/
def clearSlotForRecovery (p : RegistryPayload) (i : SlotIndex) : RegistryPayload :=
  (p.setSlot i (zeroEntry.setSeq (((p.slots i).seqStorage + 2) &&& ~~~1))).clearBit i

def recoverLoop : List SlotIndex → UInt32 → RegistryPayload → RegistryPayload
  | [], count, p => { p with countStorage := count }
  | i :: is, count, p =>
    if p.damaged i then recoverLoop is count (p.clearSlotForRecovery i)
    else recoverLoop is (if p.bitIsSet i then count + 1 else count) p

def recoverRegistryInvariant (p : RegistryPayload) : RegistryPayload :=
  p.recoverLoop (List.finRange maxRegistryEntries) 0

end RegistryPayload

/-- Where `clear_slot_for_recovery` stands; `s` is the word it loaded, `todo` the fields that
`slot = RegistryEntry{}` has not stored yet. -/
inductive ClearPc
  | storeOdd (s : UInt32)
  | copy (s : UInt32) (todo : Finset EntryField)
  | storeEven (s : UInt32)
  | clearBit

/-- One access of `clear_slot_for_recovery` to its slot. -/
inductive ClearStep (slot : RegistryEntry) : ClearPc → RegistryEntry → ClearPc → Prop
  | storeOdd {s : UInt32} :
      ClearStep slot (.storeOdd s) (slot.setSeq (s ||| 1)) (.copy s Finset.univ)
  | copyField {s : UInt32} {todo : Finset EntryField} {f : EntryField} (h : f ∈ todo) :
      ClearStep slot (.copy s todo) (slot.copyField zeroEntry f) (.copy s (todo.erase f))
  | copyDone {s : UInt32} : ClearStep slot (.copy s ∅) slot (.storeEven s)
  | storeEven {s : UInt32} :
      ClearStep slot (.storeEven s) (slot.setSeq ((s + 2) &&& ~~~1)) .clearBit

/-- The mutex, and where the process that holds it stands: before its search, at a store of
`register_segment` or `unregister`, before the unlock, or at a slot of the recovery. -/
inductive HolderPc
  | free
  | abandoned
  | locked
  | setBit (i : SlotIndex) (entry : RegistryEntry)
  | addCount (i : SlotIndex) (entry : RegistryEntry)
  | publish (i : SlotIndex) (removing : Bool) (pc : PublishPc)
  | clearBit (i : SlotIndex)
  | subCount
  | leaving
  | recover (rest : List SlotIndex) (count : UInt32)
  | clear (i : SlotIndex) (rest : List SlotIndex) (count : UInt32) (pc : ClearPc)

/-- `start` is the payload when the last call that was not a recovery got the mutex or searched
it, `writing` the slot that call has stored to since. -/
structure CrashConfig where
  payload : RegistryPayload
  pc : HolderPc
  start : RegistryPayload
  writing : Option SlotIndex

/-- The registry as `create_registry_raw` leaves it. -/
def CrashConfig.initial : CrashConfig := ⟨zeroPayload, .free, zeroPayload, none⟩

inductive CrashEvent
  | tau
  | registering (entry : RegistryEntry)
  | unregistering (name : Name)
  | died
  | recovered

/-- One store of the holder, or its death. Loads are taken together with the store before them:
nobody else stores while the mutex is held. -/
inductive CrashStep : CrashConfig → CrashEvent → CrashConfig → Prop
  | lock {p start : RegistryPayload} {w : Option SlotIndex} :
      CrashStep ⟨p, .free, start, w⟩ .tau ⟨p, .locked, p, none⟩
  | replace {p start : RegistryPayload} {w : Option SlotIndex} {entry : RegistryEntry}
      {i : SlotIndex}
      (h : p.registerLoop (entryName entry) (List.finRange maxRegistryEntries) none = .inl i) :
      CrashStep ⟨p, .locked, start, w⟩ (.registering entry)
        ⟨p, .publish i false (.storeOdd entry (p.slots i).seqStorage), p, none⟩
  | insert {p start : RegistryPayload} {w : Option SlotIndex} {entry : RegistryEntry}
      {i : SlotIndex}
      (h : p.registerLoop (entryName entry) (List.finRange maxRegistryEntries) none =
        .inr (some i)) :
      CrashStep ⟨p, .locked, start, w⟩ (.registering entry) ⟨p, .setBit i entry, p, none⟩
  | full {p start : RegistryPayload} {w : Option SlotIndex} {entry : RegistryEntry}
      (h : p.registerLoop (entryName entry) (List.finRange maxRegistryEntries) none = .inr none) :
      CrashStep ⟨p, .locked, start, w⟩ (.registering entry) ⟨p, .leaving, p, none⟩
  | remove {p start : RegistryPayload} {w : Option SlotIndex} {name : Name} {i : SlotIndex}
      (h : (List.finRange maxRegistryEntries).find? (fun i => p.bitIsSet i && p.named i name) =
        some i) :
      CrashStep ⟨p, .locked, start, w⟩ (.unregistering name)
        ⟨p, .publish i true (.storeOdd zeroEntry (p.slots i).seqStorage), p, none⟩
  | absent {p start : RegistryPayload} {w : Option SlotIndex} {name : Name}
      (h : (List.finRange maxRegistryEntries).find? (fun i => p.bitIsSet i && p.named i name) =
        none) :
      CrashStep ⟨p, .locked, start, w⟩ (.unregistering name) ⟨p, .leaving, p, none⟩
  | list {p start : RegistryPayload} {w : Option SlotIndex} :
      CrashStep ⟨p, .locked, start, w⟩ .tau ⟨p, .leaving, start, w⟩
  | setBit {p start : RegistryPayload} {w : Option SlotIndex} {entry : RegistryEntry}
      {i : SlotIndex} :
      CrashStep ⟨p, .setBit i entry, start, w⟩ .tau
        ⟨p.setBit i, .addCount i entry, start, some i⟩
  | addCount {p start : RegistryPayload} {w : Option SlotIndex} {entry : RegistryEntry}
      {i : SlotIndex} :
      CrashStep ⟨p, .addCount i entry, start, w⟩ .tau
        ⟨p.addCount, .publish i false (.storeOdd entry (p.slots i).seqStorage), start, w⟩
  | publish {p start : RegistryPayload} {w : Option SlotIndex} {i : SlotIndex} {removing : Bool}
      {pc pc' : PublishPc} {slot : RegistryEntry} (h : PublishStep (p.slots i) pc .tau slot pc') :
      CrashStep ⟨p, .publish i removing pc, start, w⟩ .tau
        ⟨p.setSlot i slot, .publish i removing pc', start, some i⟩
  | published {p start : RegistryPayload} {w : Option SlotIndex} {i : SlotIndex}
      {removing : Bool} {pc : PublishPc} {source slot : RegistryEntry}
      (h : PublishStep (p.slots i) pc (.published source) slot .idle) :
      CrashStep ⟨p, .publish i removing pc, start, w⟩ .tau
        ⟨p.setSlot i slot, if removing then .clearBit i else .leaving, start, some i⟩
  | clearBit {p start : RegistryPayload} {w : Option SlotIndex} {i : SlotIndex} :
      CrashStep ⟨p, .clearBit i, start, w⟩ .tau ⟨p.clearBit i, .subCount, start, w⟩
  | subCount {p start : RegistryPayload} {w : Option SlotIndex} :
      CrashStep ⟨p, .subCount, start, w⟩ .tau ⟨p.subCount, .leaving, start, w⟩
  | unlock {p start : RegistryPayload} {w : Option SlotIndex} :
      CrashStep ⟨p, .leaving, start, w⟩ .tau ⟨p, .free, start, w⟩
  | die {p start : RegistryPayload} {w : Option SlotIndex} {pc : HolderPc} (hf : pc ≠ .free)
      (ha : pc ≠ .abandoned) : CrashStep ⟨p, pc, start, w⟩ .died ⟨p, .abandoned, start, w⟩
  | takeOver {p start : RegistryPayload} {w : Option SlotIndex} :
      CrashStep ⟨p, .abandoned, start, w⟩ .tau
        ⟨p, .recover (List.finRange maxRegistryEntries) 0, start, w⟩
  | damaged {p start : RegistryPayload} {w : Option SlotIndex} {i : SlotIndex}
      {rest : List SlotIndex} {count : UInt32} (h : p.damaged i = true) :
      CrashStep ⟨p, .recover (i :: rest) count, start, w⟩ .tau
        ⟨p, .clear i rest count (.storeOdd (p.slots i).seqStorage), start, w⟩
  | intact {p start : RegistryPayload} {w : Option SlotIndex} {i : SlotIndex}
      {rest : List SlotIndex} {count : UInt32} (h : p.damaged i = false) :
      CrashStep ⟨p, .recover (i :: rest) count, start, w⟩ .tau
        ⟨p, .recover rest (if p.bitIsSet i then count + 1 else count), start, w⟩
  | clear {p start : RegistryPayload} {w : Option SlotIndex} {i : SlotIndex}
      {rest : List SlotIndex} {count : UInt32} {pc pc' : ClearPc} {slot : RegistryEntry}
      (h : ClearStep (p.slots i) pc slot pc') :
      CrashStep ⟨p, .clear i rest count pc, start, w⟩ .tau
        ⟨p.setSlot i slot, .clear i rest count pc', start, w⟩
  | cleared {p start : RegistryPayload} {w : Option SlotIndex} {i : SlotIndex}
      {rest : List SlotIndex} {count : UInt32} :
      CrashStep ⟨p, .clear i rest count .clearBit, start, w⟩ .tau
        ⟨p.clearBit i, .recover rest count, start, w⟩
  | recovered {p start : RegistryPayload} {w : Option SlotIndex} {count : UInt32} :
      CrashStep ⟨p, .recover [] count, start, w⟩ .recovered
        ⟨{ p with countStorage := count }, .locked, start, w⟩

section Proofs

variable {p : RegistryPayload} {i j : SlotIndex}

theorem setSlot_setSlot (p : RegistryPayload) (i : SlotIndex) (a b : RegistryEntry) :
    (p.setSlot i a).setSlot i b = p.setSlot i b := by
  simp [RegistryPayload.setSlot]

@[simp] theorem slots_setSlot_self (p : RegistryPayload) (i : SlotIndex) (slot : RegistryEntry) :
    (p.setSlot i slot).slots i = slot :=
  Function.update_self ..

theorem slots_setSlot_of_ne (slot : RegistryEntry) (h : j ≠ i) :
    (p.setSlot i slot).slots j = p.slots j :=
  Function.update_of_ne h ..

@[simp] theorem bitIsSet_setSlot (p : RegistryPayload) (i j : SlotIndex) (slot : RegistryEntry) :
    (p.setSlot i slot).bitIsSet j = p.bitIsSet j :=
  rfl

/-- An access of `clear_slot_for_recovery` to a slot written before. -/
theorem clear_setSlot {start : RegistryPayload} {w : Option SlotIndex} {rest : List SlotIndex}
    {count : UInt32} {slot slot' : RegistryEntry} {pc pc' : ClearPc}
    (h : ClearStep slot pc slot' pc') :
    CrashStep ⟨p.setSlot i slot, .clear i rest count pc, start, w⟩ .tau
      ⟨p.setSlot i slot', .clear i rest count pc', start, w⟩ := by
  rw [← setSlot_setSlot p i slot slot']
  refine .clear ?_
  rwa [slots_setSlot_self]

section Undisturbed

variable (start : RegistryPayload) (w : Option SlotIndex) (rest : List SlotIndex)
  (count : UInt32)

/-- Undisturbed, the accesses of `clear_slot_for_recovery` compose to the whole call. -/
theorem clear_run (p : RegistryPayload) (i : SlotIndex) :
    ∃ n, Run CrashStep
      ⟨p, .clear i rest count (.storeOdd (p.slots i).seqStorage), start, w⟩ (List.replicate n .tau)
      ⟨p.clearSlotForRecovery i, .recover rest count, start, w⟩ := by
  let s := (p.slots i).seqStorage
  obtain ⟨slot, hcopy, hval⟩ := copyFields_run CrashStep .tau zeroEntry
    (fun slot todo => ⟨p.setSlot i slot, .clear i rest count (.copy s todo), start, w⟩)
    (fun _ _ _ hf => clear_setSlot (.copyField hf)) Finset.univ ((p.slots i).setSeq (s ||| 1))
  have hzero : slot.SameContent zeroEntry := fun f _ => by rw [hval, if_pos (Finset.mem_univ f)]
  have hodd := Run.cons (.clear .storeOdd) hcopy
  have heven := (hodd.snoc (clear_setSlot .copyDone)).snoc (clear_setSlot .storeEven)
  have hr := heven.snoc .cleared
  rw [hzero.setSeq_eq, ← List.replicate_succ, ← List.replicate_succ', ← List.replicate_succ',
    ← List.replicate_succ'] at hr
  exact ⟨_, hr⟩

/-- A recovery that nobody disturbs ends, and does what the whole call does. -/
theorem recoverLoop_run (p : RegistryPayload) :
    ∃ n, Run CrashStep ⟨p, .recover rest count, start, w⟩
      (List.replicate n .tau ++ [.recovered])
      ⟨p.recoverLoop rest count, .locked, start, w⟩ := by
  induction rest generalizing count p with
  | nil => exact ⟨0, .single .recovered⟩
  | cons i rest ih =>
    cases hd : p.damaged i with
    | false =>
      obtain ⟨n, hr⟩ := ih (if p.bitIsSet i then count + 1 else count) p
      refine ⟨n + 1, ?_⟩
      rw [RegistryPayload.recoverLoop, hd]
      exact Run.cons (.intact hd) hr
    | true =>
      obtain ⟨k, hclear⟩ := clear_run start w rest count p i
      obtain ⟨n, hr⟩ := ih count (p.clearSlotForRecovery i)
      refine ⟨k + 1 + n, ?_⟩
      rw [RegistryPayload.recoverLoop, hd, List.replicate_add, List.append_assoc]
      exact (Run.cons (.damaged hd) hclear).append hr

theorem recovery_run (p : RegistryPayload) :
    ∃ n, Run CrashStep ⟨p, .abandoned, start, w⟩ (List.replicate n .tau ++ [.recovered])
      ⟨p.recoverRegistryInvariant, .locked, start, w⟩ := by
  obtain ⟨n, hr⟩ := recoverLoop_run start w (List.finRange maxRegistryEntries) 0 p
  exact ⟨n + 1, Run.cons .takeOver hr⟩

end Undisturbed

end Proofs

end Shmfx
