import Shmfx.Lib.Word

/-! Framework constants and the error surface (`shm_types.h`, `shm_error.h`). -/
namespace Shmfx

/-- Stable framework error codes; success is the `ok` side of `Except`. -/
inductive ErrorCode
  | invalidName
  | corruptedHeader
  | notFound
  | alreadyExists
  | permissionDenied
  | quotaExceeded
  | priorOwnerDead
  | ringFull
  | versionMismatch
  | segmentDead
  deriving DecidableEq, Repr

/-- `SegmentState`, as stored in a header. -/
inductive SegmentState
  | init
  | active
  | draining
  | dead
  deriving DecidableEq, Repr

/-- The word a `SegmentState` is stored as. -/
def SegmentState.code : SegmentState → UInt32
  | .init => 0
  | .active => 1
  | .draining => 2
  | .dead => 3

inductive AttachMode
  | readOnly
  | readWrite
  deriving DecidableEq, Repr

/-- What a `Result<void>` reports. -/
def errorOf : Except ErrorCode Unit → Option ErrorCode
  | .ok _ => none
  | .error e => some e

/-- A sequence of fallible calls that succeeds has its first call succeed. -/
theorem bind_eq_ok {α β : Type} {x : Except ErrorCode α} {f : α → Except ErrorCode β} {b : β}
    (h : x >>= f = .ok b) : ∃ a, x = .ok a ∧ f a = .ok b := by
  cases x with
  | error e => cases h
  | ok a => exact ⟨a, rfl, h⟩

/-- `SHMFX_NAME_BYTES`: room for a name and its terminating NUL. -/
abbrev nameBytes : Nat := 64

instance : NeZero nameBytes := ⟨by decide⟩

/-- A name as a `string_view` holds it, without its NUL. -/
abbrev Name := List UInt8

instance : LawfulBEq Name := inferInstance

/-- `fixed_name_view`: a name field up to its first NUL. -/
def fixedNameView (name : Fin nameBytes → UInt8) : Name :=
  (List.ofFn name).takeWhile (· != 0)

/-- A `std::span<std::byte>`: where it starts and how long it is. -/
structure Span where
  data : Nat
  size : Nat
  deriving DecidableEq, Repr

/-- `MAX_REGISTRY_ENTRIES`. -/
def maxRegistryEntries : Nat := 1024

/-- `SHMFX_CACHE_LINE_BYTES`: the header's 40-byte mutex bound admits x86-64 only, where it is
64. -/
def cacheLineSize : Nat := 64

/-- `MPSC_CAS_RETRY_BUDGET`. -/
def mpscCasRetryBudget : Nat := 64

end Shmfx
