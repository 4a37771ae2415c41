import Mathlib.Data.List.GetD
import Mathlib.Data.List.OfFn
import Shmfx.Security.Sha256

/-! The segment header, its two validators, and the spans a handle reads off it. -/
namespace Shmfx

/-- `SHMFX_MAGIC`. -/
def shmfxMagic : UInt32 := 0x53484D46

/-- `SHMFX_VERSION_MAJOR`. -/
def versionMajor : UInt16 := 1

/-- `SHMFX_VERSION_MINOR`. -/
def versionMinor : UInt16 := 0

/-- `SHMFX_HEADER_SIZE`. -/
def headerSize : UInt64 := 256

/-- `HmacEnabled`. -/
def hmacEnabled : UInt32 := 1

/-- `RobustMutex`. -/
def robustMutex : UInt32 := 2

/-- The control mutex's bytes, as far as anybody can tell them apart. -/
inductive ControlMutex
  | zeroed
  | robust
  deriving DecidableEq

/-- `ShmHeader`, without its padding. -/
structure ShmHeader where
  magic : UInt32
  versionMajor : UInt16
  versionMinor : UInt16
  segmentType : UInt32
  flags : UInt32
  totalSize : UInt64
  payloadSize : UInt64
  metaOffset : UInt32
  metaSize : UInt32
  payloadOffset : UInt32
  creatorPid : UInt32
  createdAtNs : UInt64
  creatorStartTime : UInt64
  name : Fin nameBytes → UInt8
  hmac : Vector UInt8 hmacBytes
  ownerPid : UInt32
  ownerStartTime : UInt64
  refCount : UInt32
  state : UInt32
  heartbeatCounter : UInt64
  heartbeatLastNs : UInt64
  controlMutex : ControlMutex

/-- The header after `memset`. -/
def zeroHeader : ShmHeader :=
  ⟨0, 0, 0, 0, 0, 0, 0, 0, 0, 0, 0, 0, 0, fun _ => 0, .replicate _ 0, 0, 0, 0, 0, 0, 0, .zeroed⟩

/-- The little-endian bytes of a word. -/
def leBytes (width n : Nat) : List UInt8 :=
  (List.range width).map fun i => UInt8.ofNat (n >>> (8 * i))

/-- Bytes [0, 128) of the header in memory: everything before `hmac`. -/
def ShmHeader.immutableBytes (h : ShmHeader) : List UInt8 :=
  leBytes 4 h.magic.toNat ++ leBytes 2 h.versionMajor.toNat ++ leBytes 2 h.versionMinor.toNat ++
    leBytes 4 h.segmentType.toNat ++ leBytes 4 h.flags.toNat ++ leBytes 8 h.totalSize.toNat ++
    leBytes 8 h.payloadSize.toNat ++ leBytes 4 h.metaOffset.toNat ++ leBytes 4 h.metaSize.toNat ++
    leBytes 4 h.payloadOffset.toNat ++ leBytes 4 h.creatorPid.toNat ++
    leBytes 8 h.createdAtNs.toNat ++ leBytes 8 h.creatorStartTime.toNat ++ List.ofFn h.name

/-- `SHMFX_IMMUTABLE_BYTES` is the offset of `hmac`. -/
theorem length_immutableBytes (h : ShmHeader) : h.immutableBytes.length = 128 := by
  simp [ShmHeader.immutableBytes, leBytes]

namespace ShmHeader

/-- The end of the metadata, in the 64-bit sum both validators form. -/
def metaEnd (h : ShmHeader) : UInt64 := h.metaOffset.toUInt64 + h.metaSize.toUInt64

def payloadEnd (h : ShmHeader) : UInt64 := h.payloadOffset.toUInt64 + h.payloadSize

def metadata (h : ShmHeader) : Span := ⟨h.metaOffset.toNat, h.metaSize.toNat⟩

def payload (h : ShmHeader) : Span := ⟨h.payloadOffset.toNat, h.payloadSize.toNat⟩

def nameView (h : ShmHeader) : Name := fixedNameView h.name

end ShmHeader

/-- `validate_header`, the check `attach` makes. -/
def validateHeader (h : ShmHeader) (mappedSize : UInt64) : Except ErrorCode Unit :=
  if h.magic ≠ shmfxMagic then .error .corruptedHeader
  else if h.versionMajor ≠ versionMajor then .error .versionMismatch
  else if h.totalSize ≠ mappedSize ∨ h.totalSize < headerSize then .error .corruptedHeader
  else if h.metaOffset.toUInt64 < headerSize ∨ h.metaOffset.toUInt64 > h.totalSize then
    .error .corruptedHeader
  else if h.metaEnd > h.totalSize ∨ h.payloadOffset.toUInt64 < h.metaEnd ∨
      h.payloadEnd > h.totalSize then
    .error .corruptedHeader
  else .ok ()

/-- `janitor_header_valid`, the check `gc` makes. -/
def janitorHeaderValid (h : ShmHeader) (mappedSize : UInt64) : Bool :=
  if h.magic ≠ shmfxMagic ∨ h.versionMajor ≠ versionMajor then false
  else if h.totalSize ≠ mappedSize ∨ h.totalSize < headerSize then false
  else
    h.metaOffset.toUInt64 ≥ headerSize && h.metaEnd ≤ h.totalSize &&
      h.payloadOffset.toUInt64 ≥ h.metaEnd && h.payloadEnd ≤ h.totalSize

/-- `copy_name`: the whole field is cleared, then at most 63 bytes are copied. -/
def copyName (name : Name) : Fin nameBytes → UInt8 :=
  fun i => if i.val < min name.length (nameBytes - 1) then name.getD i 0 else 0

/-- A name of at most 63 non-NUL bytes is read back as it was written. -/
theorem fixedNameView_copyName {name : Name} (hl : name.length < nameBytes) (h0 : 0 ∉ name) :
    fixedNameView (copyName name) = name := by
  obtain ⟨k, hk⟩ := Nat.exists_eq_add_of_lt hl
  have hfield : List.ofFn (copyName name) = name ++ List.replicate (k + 1) 0 := by
    apply List.ext_getElem
    · rw [List.length_ofFn, List.length_append, List.length_replicate, hk, Nat.add_assoc]
    · intro i hi _
      rw [List.getElem_ofFn]
      by_cases hin : i < name.length
      · have hmin : i < min name.length (nameBytes - 1) := by omega
        rw [List.getElem_append_left hin, copyName, if_pos hmin, List.getD_eq_getElem _ _ hin]
      · have hmin : ¬ i < min name.length (nameBytes - 1) := by omega
        rw [List.getElem_append_right (by omega), List.getElem_replicate, copyName, if_neg hmin]
  have hname : ∀ b ∈ name, (b != 0) = true := by
    intro b hb
    simpa using fun h : b = 0 => h0 (h ▸ hb)
  rw [fixedNameView, hfield, List.takeWhile_append_of_pos hname, List.replicate_succ,
    List.takeWhile_cons_of_neg (by decide), List.append_nil]

/-- What both validators establish, over the integers. -/
structure HeaderValid (h : ShmHeader) (mappedSize : UInt64) : Prop where
  magic : h.magic = shmfxMagic
  version : h.versionMajor = versionMajor
  total : h.totalSize = mappedSize
  header : 256 ≤ h.totalSize.toNat
  metaStart : 256 ≤ h.metaOffset.toNat
  metaEnd : h.metaOffset.toNat + h.metaSize.toNat ≤ h.totalSize.toNat
  payloadStart : h.metaOffset.toNat + h.metaSize.toNat ≤ h.payloadOffset.toNat
  payloadEnd : (h.payloadOffset.toNat + h.payloadSize.toNat) % 2 ^ 64 ≤ h.totalSize.toNat

theorem toNat_metaEnd (h : ShmHeader) :
    h.metaEnd.toNat = h.metaOffset.toNat + h.metaSize.toNat := by
  have h₁ := h.metaOffset.toNat_lt
  have h₂ := h.metaSize.toNat_lt
  simp only [ShmHeader.metaEnd, UInt64.toNat_add, UInt32.toNat_toUInt64]
  omega

theorem toNat_payloadEnd (h : ShmHeader) :
    h.payloadEnd.toNat = (h.payloadOffset.toNat + h.payloadSize.toNat) % 2 ^ 64 := by
  simp only [ShmHeader.payloadEnd, UInt64.toNat_add, UInt32.toNat_toUInt64]

theorem validateHeader_ok_iff {h : ShmHeader} {mappedSize : UInt64} :
    validateHeader h mappedSize = .ok () ↔ HeaderValid h mappedSize := by
  have hm := toNat_metaEnd h
  have hp := toNat_payloadEnd h
  have hh : headerSize.toNat = 256 := rfl
  constructor
  · intro hok
    simp only [validateHeader] at hok
    split_ifs at hok with h₁ h₂ h₃ h₄ h₅
    simp only [ne_eq, not_not, not_or, UInt64.lt_iff_toNat_lt, gt_iff_lt, UInt32.toNat_toUInt64,
      Nat.not_lt, hm, hp, hh] at h₁ h₂ h₃ h₄ h₅
    exact ⟨h₁, h₂, h₃.1, h₃.2, h₄.1, h₅.1, h₅.2.1, h₅.2.2⟩
  · rintro ⟨h₁, h₂, rfl, h₄, h₅, h₆, h₇, h₈⟩
    simp only [validateHeader, UInt64.lt_iff_toNat_lt, gt_iff_lt, UInt32.toNat_toUInt64, hm, hp, hh]
    rw [if_neg (not_not.mpr h₁), if_neg (not_not.mpr h₂), if_neg (by simp; omega),
      if_neg (by omega), if_neg (by omega)]

/-- The janitor leaves out the one test that the others imply. -/
theorem janitorHeaderValid_iff {h : ShmHeader} {mappedSize : UInt64} :
    janitorHeaderValid h mappedSize = true ↔ HeaderValid h mappedSize := by
  have hm := toNat_metaEnd h
  have hp := toNat_payloadEnd h
  have hh : headerSize.toNat = 256 := rfl
  constructor
  · intro hok
    simp only [janitorHeaderValid] at hok
    split_ifs at hok with h₁ h₂
    simp only [ne_eq, not_not, not_or, UInt64.lt_iff_toNat_lt, Nat.not_lt, hh] at h₁ h₂
    simp only [Bool.and_eq_true, decide_eq_true_eq, ge_iff_le, UInt64.le_iff_toNat_le,
      UInt32.toNat_toUInt64, hm, hp, hh] at hok
    exact ⟨h₁.1, h₁.2, h₂.1, h₂.2, hok.1.1.1, hok.1.1.2, hok.1.2, hok.2⟩
  · rintro ⟨h₁, h₂, rfl, h₄, h₅, h₆, h₇, h₈⟩
    simp only [janitorHeaderValid, UInt64.lt_iff_toNat_lt, UInt64.le_iff_toNat_le, ge_iff_le,
      UInt32.toNat_toUInt64, hm, hp, hh]
    rw [if_neg (by simp [h₁, h₂]), if_neg (by simp; omega)]
    simp only [h₅, h₆, h₇, h₈, decide_true, Bool.and_self]

/-- The header, the metadata and the payload follow one another inside the mapping. -/
structure SpansInside (h : ShmHeader) (mappedSize : UInt64) : Prop where
  header : 256 ≤ h.metadata.data
  metadata : h.metadata.data + h.metadata.size ≤ h.payload.data
  payload : h.payload.data + h.payload.size ≤ mappedSize.toNat

/-- The end of the payload is compared after its 64-bit sum has wrapped, so the spans are sound
exactly for the headers whose sum does not wrap. -/
theorem validateHeader_spans {h : ShmHeader} {mappedSize : UInt64}
    (hok : validateHeader h mappedSize = .ok ()) :
    SpansInside h mappedSize ↔ h.payloadOffset.toNat + h.payloadSize.toNat < 2 ^ 64 := by
  have hv := validateHeader_ok_iff.mp hok
  have htotal := congrArg UInt64.toNat hv.total
  have hend := hv.payloadEnd
  constructor
  · intro hs
    have hpayload := hs.payload
    have hsize := mappedSize.toNat_lt
    simp only [ShmHeader.payload] at hpayload
    omega
  · intro hsum
    refine ⟨hv.metaStart, hv.payloadStart, ?_⟩
    simp only [ShmHeader.payload]
    omega

/-- A header for a mapping of 512 bytes, the payload from the middle. -/
def halfPayload (payloadSize : UInt64) : ShmHeader :=
  { zeroHeader with
    magic := shmfxMagic, versionMajor := versionMajor, totalSize := 512, metaOffset := 256
    payloadOffset := 256, payloadSize }

theorem validateHeader_spans_half :
    validateHeader (halfPayload 256) 512 = .ok () ∧ SpansInside (halfPayload 256) 512 :=
  have hok : validateHeader (halfPayload 256) 512 = .ok () := rfl
  ⟨hok, (validateHeader_spans hok).mpr (by decide)⟩

/-- A payload of 2^64 - 256 bytes passes in a mapping of 512. -/
theorem validateHeader_wraps :
    validateHeader (halfPayload (0 - 256)) 512 = .ok () ∧
      ¬ SpansInside (halfPayload (0 - 256)) 512 := by
  refine ⟨rfl, fun hs => ?_⟩
  exact absurd hs.payload (by decide)

end Shmfx
