import Mathlib.Data.Fintype.Basic
import Mathlib.Data.Fintype.Sum
import Mathlib.Logic.Function.Basic
import Mathlib.Tactic.DeriveFintype
import Shmfx.Types

/-! Registry entries, their fields, and field-by-field struct copies (`shm_header.h`). -/
namespace Shmfx

/-- A registry slot or an entry handed to the registry; `seqStorage` is its seqlock word. -/
structure RegistryEntry where
  seqStorage : UInt32
  pad0 : UInt32
  name : Fin nameBytes → UInt8
  totalSize : UInt64
  segmentType : UInt32
  ownerPid : UInt32
  ownerStartTime : UInt64
  flags : UInt32
  pad1 : UInt32
  createdAtNs : UInt64
  lastSeenNs : UInt64
  reserved : Fin 8 → UInt8
  deriving DecidableEq

/-- What one store of a struct copy writes. -/
inductive EntryField
  | seqStorage
  | pad0
  | name (i : Fin nameBytes)
  | totalSize
  | segmentType
  | ownerPid
  | ownerStartTime
  | flags
  | pad1
  | createdAtNs
  | lastSeenNs
  | reserved (i : Fin 8)
  deriving DecidableEq, Fintype

namespace RegistryEntry

def value (e : RegistryEntry) : EntryField → Nat
  | .seqStorage => e.seqStorage.toNat
  | .pad0 => e.pad0.toNat
  | .name i => (e.name i).toNat
  | .totalSize => e.totalSize.toNat
  | .segmentType => e.segmentType.toNat
  | .ownerPid => e.ownerPid.toNat
  | .ownerStartTime => e.ownerStartTime.toNat
  | .flags => e.flags.toNat
  | .pad1 => e.pad1.toNat
  | .createdAtNs => e.createdAtNs.toNat
  | .lastSeenNs => e.lastSeenNs.toNat
  | .reserved i => (e.reserved i).toNat

/-- The destination after the store of one field of `source`. -/
def copyField (e source : RegistryEntry) : EntryField → RegistryEntry
  | .seqStorage => { e with seqStorage := source.seqStorage }
  | .pad0 => { e with pad0 := source.pad0 }
  | .name i => { e with name := Function.update e.name i (source.name i) }
  | .totalSize => { e with totalSize := source.totalSize }
  | .segmentType => { e with segmentType := source.segmentType }
  | .ownerPid => { e with ownerPid := source.ownerPid }
  | .ownerStartTime => { e with ownerStartTime := source.ownerStartTime }
  | .flags => { e with flags := source.flags }
  | .pad1 => { e with pad1 := source.pad1 }
  | .createdAtNs => { e with createdAtNs := source.createdAtNs }
  | .lastSeenNs => { e with lastSeenNs := source.lastSeenNs }
  | .reserved i => { e with reserved := Function.update e.reserved i (source.reserved i) }

def setSeq (e : RegistryEntry) (s : UInt32) : RegistryEntry := { e with seqStorage := s }

@[simp] theorem setSeq_seqStorage (e : RegistryEntry) (s : UInt32) :
    (e.setSeq s).seqStorage = s := rfl

theorem value_setSeq (e : RegistryEntry) (s : UInt32) {f : EntryField} (hf : f ≠ .seqStorage) :
    (e.setSeq s).value f = e.value f := by
  cases f <;> first | contradiction | rfl

theorem value_copyField (e source : RegistryEntry) (f g : EntryField) :
    (e.copyField source f).value g = if g = f then source.value g else e.value g := by
  cases f <;> cases g <;> simp [copyField, value, Function.update_apply, apply_ite]
  all_goals
    split <;> simp_all

theorem copyField_seqStorage (e source : RegistryEntry) {f : EntryField} (hf : f ≠ .seqStorage) :
    (e.copyField source f).seqStorage = e.seqStorage := by
  cases f <;> first | contradiction | rfl

/-- Two entries with the same content: equal in every field but the seqlock word. -/
def SameContent (e e' : RegistryEntry) : Prop := ∀ f, f ≠ .seqStorage → e.value f = e'.value f

theorem sameContent_iff {e e' : RegistryEntry} : e.SameContent e' ↔ e.setSeq 0 = e'.setSeq 0 := by
  constructor
  · intro h
    have hname : e.name = e'.name := funext fun i => UInt8.toNat_inj.mp (h (.name i) (by simp))
    have hres : e.reserved = e'.reserved :=
      funext fun i => UInt8.toNat_inj.mp (h (.reserved i) (by simp))
    simp only [setSeq, mk.injEq, true_and, hname, hres, ← UInt32.toNat_inj, ← UInt64.toNat_inj]
    exact ⟨h .pad0 (by simp), h .totalSize (by simp), h .segmentType (by simp),
      h .ownerPid (by simp), h .ownerStartTime (by simp), h .flags (by simp), h .pad1 (by simp),
      h .createdAtNs (by simp), h .lastSeenNs (by simp), trivial⟩
  · intro h f hf
    rw [← value_setSeq e 0 hf, h, value_setSeq e' 0 hf]

theorem SameContent.setSeq_eq {e e' : RegistryEntry} (h : e.SameContent e') (s : UInt32) :
    e.setSeq s = e'.setSeq s :=
  congrArg (·.setSeq s) (sameContent_iff.mp h)

theorem eq_of_value_eq {e e' : RegistryEntry} (h : ∀ f, e.value f = e'.value f) : e = e' := by
  have hseq : e.seqStorage = e'.seqStorage := UInt32.toNat_inj.mp (h .seqStorage)
  have hc : e.SameContent e' := fun f _ => h f
  calc
    e = e.setSeq e.seqStorage := rfl
    _ = e'.setSeq e'.seqStorage := by rw [hseq, hc.setSeq_eq]
    _ = e' := rfl

end RegistryEntry

end Shmfx
