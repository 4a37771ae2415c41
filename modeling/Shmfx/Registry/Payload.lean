import Mathlib.Data.List.FinRange
import Shmfx.Lib.Bitmap
import Shmfx.Registry.Seqlock

/-! `Registry::register_segment`, `unregister` and `list` as whole calls under the control mutex. -/
namespace Shmfx

open Lts

/-- A slot index. -/
abbrev SlotIndex := Fin maxRegistryEntries

/-- The registry segment's payload: occupied-slot count, occupancy bitmap, slots. -/
structure RegistryPayload where
  countStorage : UInt32
  bitmap : Nat → UInt8
  slots : SlotIndex → RegistryEntry

/-- `RegistryEntry{}`. -/
def zeroEntry : RegistryEntry := ⟨0, 0, fun _ => 0, 0, 0, 0, 0, 0, 0, 0, 0, fun _ => 0⟩

/-- The payload as `create_registry_raw` leaves it. -/
def zeroPayload : RegistryPayload := ⟨0, fun _ => 0, fun _ => zeroEntry⟩

def entryName (e : RegistryEntry) : Name := fixedNameView e.name

def entryNameEquals (e : RegistryEntry) (name : Name) : Bool := entryName e == name

/-- The filter of `list`. -/
def startsWith (start : Name) (entry : RegistryEntry) : Bool :=
  start = [] || (entryName entry).take start.length = start

/-- The whole of `publish_slot`. -/
def publishSlot (slot source : RegistryEntry) : RegistryEntry :=
  source.setSeq (slot.seqStorage + 2)

/-- The retry loop of `snapshot_slot` on a slot nobody writes: the second load equals the first. -/
def snapshotLoop (slot : RegistryEntry) : Nat → Option RegistryEntry
  | 0 => none
  | n + 1 => if slot.seqStorage &&& 1 ≠ 0 then snapshotLoop slot n else some slot

def snapshotSlot (slot : RegistryEntry) : Option RegistryEntry := snapshotLoop slot snapshotRetries

namespace RegistryPayload

def bitIsSet (p : RegistryPayload) (i : SlotIndex) : Bool := Bitmap.test p.bitmap i

def setBit (p : RegistryPayload) (i : SlotIndex) : RegistryPayload :=
  { p with bitmap := Bitmap.set p.bitmap i }

def clearBit (p : RegistryPayload) (i : SlotIndex) : RegistryPayload :=
  { p with bitmap := Bitmap.clear p.bitmap i }

def addCount (p : RegistryPayload) : RegistryPayload :=
  { p with countStorage := p.countStorage + 1 }

def subCount (p : RegistryPayload) : RegistryPayload :=
  { p with countStorage := p.countStorage - 1 }

def publish (p : RegistryPayload) (i : SlotIndex) (source : RegistryEntry) : RegistryPayload :=
  { p with slots := Function.update p.slots i (publishSlot (p.slots i) source) }

/-- The test both search loops make on an occupied slot. -/
def named (p : RegistryPayload) (i : SlotIndex) (name : Name) : Bool :=
  match snapshotSlot (p.slots i) with
  | some snap => entryNameEquals snap name
  | none => false

/-- The search loop of `register_segment`: the slot to replace, or else the first free one. -/
def registerLoop (p : RegistryPayload) (name : Name) :
    List SlotIndex → Option SlotIndex → SlotIndex ⊕ Option SlotIndex
  | [], free => .inr free
  | i :: is, free =>
    if p.bitIsSet i then
      if p.named i name then .inl i else registerLoop p name is free
    else registerLoop p name is (free.or (some i))

def registerSegment (p : RegistryPayload) (entry : RegistryEntry) :
    Except ErrorCode Unit × RegistryPayload :=
  match p.registerLoop (entryName entry) (List.finRange maxRegistryEntries) none with
  | .inl i => (.ok (), p.publish i entry)
  | .inr none => (.error .quotaExceeded, p)
  | .inr (some i) => (.ok (), (p.setBit i).addCount.publish i entry)

def unregister (p : RegistryPayload) (name : Name) :
    Except ErrorCode Unit × RegistryPayload :=
  match (List.finRange maxRegistryEntries).find? fun i => p.bitIsSet i && p.named i name with
  | some i => (.ok (), ((p.publish i zeroEntry).clearBit i).subCount)
  | none => (.error .notFound, p)

/-- One turn of the loop in `list`; a snapshot that fails is retaken under the mutex. -/
def listSlot (p : RegistryPayload) (start : Name) (i : SlotIndex) : Option RegistryEntry :=
  if p.bitIsSet i then
    let snap := (snapshotSlot (p.slots i)).getD (p.slots i)
    if start = [] ∨ (entryName snap).take start.length = start then some snap else none
  else none

def list (p : RegistryPayload) (start : Name) : List RegistryEntry :=
  (List.finRange maxRegistryEntries).filterMap (p.listSlot start)

end RegistryPayload

section Atomic

/-- The struct copy of an undisturbed writer stores exactly the fields still to do. -/
theorem publish_copy_run (source : RegistryEntry) (s : UInt32) (reader : SnapshotPc)
    (todo : Finset EntryField) (slot : RegistryEntry) :
    ∃ slot', Run SlotStep ⟨slot, .copy source s todo, reader⟩
        (List.replicate (todo.card + 1) (.write .tau)) ⟨slot', .restoreSeq source s, reader⟩ ∧
      ∀ f, slot'.value f = if f ∈ todo then source.value f else slot.value f := by
  obtain ⟨slot', hrun, hval⟩ := copyFields_run SlotStep (.write .tau) source
    (fun slot todo => ⟨slot, .copy source s todo, reader⟩)
    (fun _ _ _ hf => .write (.copyField hf)) todo slot
  rw [List.replicate_succ']
  exact ⟨slot', hrun.snoc (.write .copyDone), hval⟩

/-- Undisturbed, the accesses of `publish_slot` compose to the whole call. -/
theorem publishSlot_run (slot source : RegistryEntry) (reader : SnapshotPc) :
    ∃ log, Run SlotStep ⟨slot, .idle, reader⟩ log ⟨publishSlot slot source, .idle, reader⟩ := by
  let s := slot.seqStorage
  have h₁ : SlotStep ⟨slot, .idle, reader⟩ (.write (.begun source))
      ⟨slot, .storeOdd source s, reader⟩ := .write (.load source)
  have h₂ : SlotStep ⟨slot, .storeOdd source s, reader⟩ (.write .tau)
      ⟨slot.setSeq (s + 1), .copy source s Finset.univ, reader⟩ := .write .storeOdd
  obtain ⟨slot', hcopy, hval⟩ :=
    publish_copy_run source s reader Finset.univ (slot.setSeq (s + 1))
  have h₃ : SlotStep ⟨slot', .restoreSeq source s, reader⟩ (.write .tau)
      ⟨slot'.setSeq (s + 1), .storeEven source s, reader⟩ := .write .restoreSeq
  have h₄ : SlotStep ⟨slot'.setSeq (s + 1), .storeEven source s, reader⟩
      (.write (.published source)) ⟨slot'.setSeq (s + 2), .idle, reader⟩ := .write .storeEven
  have hsame : slot'.SameContent source := fun f _ => by rw [hval, if_pos (Finset.mem_univ f)]
  rw [publishSlot, ← hsame.setSeq_eq]
  exact ⟨_, Run.cons h₁ (Run.cons h₂ ((hcopy.snoc h₃).snoc h₄))⟩

def snapshotResult : Option RegistryEntry → SnapshotEvent
  | some out => .taken out
  | none => .failed

/-- Undisturbed, the accesses of `snapshot_slot` compose to the whole call. -/
theorem snapshotLoop_run (slot out : RegistryEntry) (writer : PublishPc) {n : Nat} (retry : Nat)
    (hn : retry + n = snapshotRetries) :
    ∃ log, Run SlotStep ⟨slot, writer, .loadFirst out retry⟩
      (log ++ [.read (snapshotResult (snapshotLoop slot n))]) ⟨slot, writer, .idle⟩ := by
  induction n generalizing retry with
  | zero => exact ⟨[], Run.single (.read (.exhausted (by omega)))⟩
  | succ n ih =>
    by_cases hodd : slot.seqStorage &&& 1 = 0
    · have hload : SlotStep ⟨slot, writer, .loadFirst out retry⟩ (.read .loaded)
          ⟨slot, writer, .copy out retry slot.seqStorage Finset.univ⟩ :=
        .read (.even (by omega) hodd)
      obtain ⟨out', hcopy, hval⟩ := copy_run slot writer retry slot.seqStorage Finset.univ out
      have heq : out' = slot :=
        RegistryEntry.eq_of_value_eq fun f => by rw [hval, if_pos (Finset.mem_univ f)]
      subst heq
      have htake : SlotStep ⟨out', writer, .loadSecond out' retry out'.seqStorage⟩
          (.read (.taken out')) ⟨out', writer, .idle⟩ := .read (.same rfl)
      have hloop : snapshotLoop out' (n + 1) = some out' := by simp [snapshotLoop, hodd]
      rw [hloop]
      exact ⟨_, (Run.cons hload hcopy).snoc htake⟩
    · have hretry : SlotStep ⟨slot, writer, .loadFirst out retry⟩ (.read .tau)
          ⟨slot, writer, .loadFirst out (retry + 1)⟩ := .read (.odd (by omega) hodd)
      obtain ⟨log, hrun⟩ := ih (retry + 1) (by omega)
      have hloop : snapshotLoop slot (n + 1) = snapshotLoop slot n := by simp [snapshotLoop, hodd]
      rw [hloop]
      exact ⟨.read .tau :: log, Run.cons hretry hrun⟩

theorem snapshotSlot_run (slot out : RegistryEntry) (writer : PublishPc) :
    ∃ log, Run SlotStep ⟨slot, writer, .idle⟩
      (log ++ [.read (snapshotResult (snapshotSlot slot))]) ⟨slot, writer, .idle⟩ := by
  have hcall : SlotStep ⟨slot, writer, .idle⟩ (.read .call) ⟨slot, writer, .loadFirst out 0⟩ :=
    .read (.call out)
  obtain ⟨log, hrun⟩ := snapshotLoop_run slot out writer 0 (Nat.zero_add snapshotRetries)
  exact ⟨.read .call :: log, Run.cons hcall hrun⟩

end Atomic

end Shmfx
