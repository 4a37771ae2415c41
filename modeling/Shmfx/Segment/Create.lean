import Shmfx.Security.Policy
import Shmfx.Security.Signing

/-! `ShmManager::create`: the stores it makes, in order, and what `attach` finds afterwards. -/
namespace Shmfx

open Word

inductive OsCall
  | shmOpen
  | applyPermissions
  | ftruncate
  | mmap
  | initControlMutex
  deriving DecidableEq

/-- What the process around a `create` call answers. -/
structure CreateEnv where
  pid : UInt32
  startTime : Option UInt64
  realtimeNs : UInt64
  stampNs : UInt64
  beatNs : UInt64
  seenNs : UInt64
  keys : KeySource
  os : OsCall → Except ErrorCode Unit

def createPayloadOffset (options : CreateOptions) : UInt64 :=
  UInt64.ofNat (alignUp (headerSize + options.metaSize).toNat cacheLineSize)

/-- The header stores of `create` up to the signature, in program order. -/
def headerStores (options : CreateOptions) (env : CreateEnv) : List (ShmHeader → ShmHeader) :=
  let payloadOffset := createPayloadOffset options
  [fun _ => zeroHeader,
    fun h => { h with magic := shmfxMagic },
    fun h => { h with versionMajor := versionMajor },
    fun h => { h with versionMinor := versionMinor },
    fun h => { h with segmentType := options.type.code },
    fun h => { h with flags := options.flags ||| robustMutex },
    fun h => { h with totalSize := options.totalSize },
    fun h => { h with metaOffset := headerSize.toUInt32 },
    fun h => { h with metaSize := options.metaSize.toUInt32 },
    fun h => { h with payloadOffset := payloadOffset.toUInt32 },
    fun h => { h with payloadSize := options.totalSize - payloadOffset },
    fun h => { h with creatorPid := env.pid },
    fun h => { h with createdAtNs := env.realtimeNs },
    fun h => { h with creatorStartTime := env.startTime.getD 0 },
    fun h => { h with name := copyName options.name },
    fun h => { h with ownerPid := h.creatorPid },
    fun h => { h with ownerStartTime := h.creatorStartTime },
    fun h => { h with refCount := 1 },
    fun h => { h with state := SegmentState.active.code },
    fun h => { h with heartbeatLastNs := env.stampNs }]

/-- The header before it is signed. -/
def writeHeader (options : CreateOptions) (env : CreateEnv) : ShmHeader :=
  (headerStores options env).foldl (fun h store => store h) zeroHeader

/-- The stores after the signature: the mutex, then the first beat of the owner. -/
def finishHeader (env : CreateEnv) (h : ShmHeader) : ShmHeader :=
  { h with
    controlMutex := .robust
    heartbeatCounter := h.heartbeatCounter + 1
    heartbeatLastNs := env.beatNs }

/-- The entry `create` registers. -/
def createEntry (options : CreateOptions) (env : CreateEnv) (h : ShmHeader) : RegistryEntry :=
  { zeroEntry with
    name := copyName options.name
    totalSize := options.totalSize
    segmentType := options.type.code
    ownerPid := h.ownerPid
    ownerStartTime := h.ownerStartTime
    flags := h.flags
    createdAtNs := h.createdAtNs
    lastSeenNs := env.seenNs }

def checkLayout (options : CreateOptions) : Except ErrorCode Unit :=
  if createPayloadOffset options > options.totalSize then .error .quotaExceeded else .ok ()

/-- The last step; the registry segment itself has no entry. -/
def registerCreated (options : CreateOptions) (env : CreateEnv) (h : ShmHeader)
    (p : RegistryPayload) : Except ErrorCode RegistryPayload :=
  if options.name = registryName then .ok p
  else
    match p.registerSegment (createEntry options env h) with
    | (.ok _, p') => .ok p'
    | (.error e, _) => .error e

/-- `ShmManager::create` against an open registry: the header left in the new object, and the
registry afterwards. -/
def create (options : CreateOptions) (env : CreateEnv) (p : RegistryPayload) :
    Except ErrorCode (ShmHeader × RegistryPayload) := do
  let _ ← parseAndValidateName options.name
  validateCreateSecurity options (p.list [])
  checkLayout options
  env.os .shmOpen
  env.os .applyPermissions
  env.os .ftruncate
  env.os .mmap
  let signed ← signHeaderIfEnabled env.keys (writeHeader options env)
  env.os .initControlMutex
  let header := finishHeader env signed
  let p' ← registerCreated options env header p
  return (header, p')

/-- What `attach`, the janitor and the handle need of a created header. -/
structure Accepted (options : CreateOptions) (keys : KeySource) (h : ShmHeader) : Prop where
  validated : validateHeader h options.totalSize = .ok ()
  janitor : janitorHeaderValid h options.totalSize = true
  name : h.nameView = options.name
  hmac : verifyHeaderHmac keys h = .ok ()
  metadataSize : h.metadata.size = options.metaSize.toNat
  metadataStart : headerSize.toNat ≤ h.metadata.data
  metadataEnd : h.metadata.data + h.metadata.size ≤ h.payload.data
  payloadEnd : h.payload.data + h.payload.size ≤ options.totalSize.toNat
  aligned : cacheLineSize ∣ h.payload.data

section Proofs

variable {options : CreateOptions} {env : CreateEnv} {p p' : RegistryPayload} {h : ShmHeader}

/-- The checks behind a successful `create`. -/
theorem create_ok (hc : create options env p = .ok (h, p')) :
    (∃ parsed, parseAndValidateName options.name = .ok parsed) ∧
      validateCreateSecurity options (p.list []) = .ok () ∧ checkLayout options = .ok () ∧
      registerCreated options env h p = .ok p' ∧
      ∃ signed, signHeaderIfEnabled env.keys (writeHeader options env) = .ok signed ∧
        h = finishHeader env signed := by
  obtain ⟨parsed, hparse, hc⟩ := bind_eq_ok hc
  obtain ⟨_, hsec, hc⟩ := bind_eq_ok hc
  obtain ⟨_, hlayout, hc⟩ := bind_eq_ok hc
  obtain ⟨_, -, hc⟩ := bind_eq_ok hc
  obtain ⟨_, -, hc⟩ := bind_eq_ok hc
  obtain ⟨_, -, hc⟩ := bind_eq_ok hc
  obtain ⟨_, -, hc⟩ := bind_eq_ok hc
  obtain ⟨signed, hsign, hc⟩ := bind_eq_ok hc
  obtain ⟨_, -, hc⟩ := bind_eq_ok hc
  obtain ⟨_, hreg, hc⟩ := bind_eq_ok hc
  cases hc
  exact ⟨⟨parsed, hparse⟩, hsec, hlayout, hreg, signed, hsign, rfl⟩

/-- The entry has the name of the segment. -/
theorem entryName_createEntry (env : CreateEnv) (h : ShmHeader) {parsed : ParsedName}
    (hparse : parseAndValidateName options.name = .ok parsed) :
    entryName (createEntry options env h) = options.name ∧ options.name ≠ [] := by
  refine ⟨fixedNameView_of_parsed hparse, ?_⟩
  intro hnil
  rw [hnil] at hparse
  cases hparse

theorem created_eq (hc : create options env p = .ok (h, p')) :
    h = finishHeader env { writeHeader options env with hmac := h.hmac } := by
  obtain ⟨-, -, -, -, signed, hsign, rfl⟩ := create_ok hc
  conv_lhs => rw [signHeader_eq hsign]
  rfl

/-- Neither the validators nor the spans depend on what is stored later. -/
theorem created_layout (hc : create options env p = .ok (h, p')) :
    (∀ n, validateHeader h n = validateHeader (writeHeader options env) n) ∧
      (∀ n, janitorHeaderValid h n = janitorHeaderValid (writeHeader options env) n) ∧
      h.metadata = (writeHeader options env).metadata ∧
      h.payload = (writeHeader options env).payload := by
  rw [created_eq hc]
  exact ⟨fun _ => rfl, fun _ => rfl, rfl, rfl⟩

/-- The signature holds for whoever finds the signed fields in place, finished or not. -/
theorem created_hmac {h' : ShmHeader} (hc : create options env p = .ok (h, p'))
    (hf : h'.flags = h.flags) (hb : h'.immutableBytes = h.immutableBytes) (hd : h'.hmac = h.hmac) :
    verifyHeaderHmac env.keys h' = .ok () := by
  obtain ⟨-, -, -, -, signed, hsign, rfl⟩ := create_ok hc
  exact verifyHeader_of_signed hsign hf hb hd

theorem created_name (hc : create options env p = .ok (h, p')) : h.nameView = options.name := by
  obtain ⟨⟨parsed, hparse⟩, -⟩ := create_ok hc
  rw [created_eq hc]
  exact fixedNameView_of_parsed hparse

theorem toNat_createPayloadOffset (options : CreateOptions) :
    (createPayloadOffset options).toNat =
      ((256 + options.metaSize.toNat) % 2 ^ 64 + 63) % 2 ^ 64 / 64 * 64 := by
  have hsum : (headerSize + options.metaSize).toNat = (256 + options.metaSize.toNat) % 2 ^ 64 := by
    rw [UInt64.toNat_add]
    rfl
  rw [createPayloadOffset, hsum, cacheLineSize, alignUp_64, UInt64.toNat_ofNat']
  simp only [u64]
  omega

/-- The two size checks of `create`, over the integers; the sum of header and metadata may have
wrapped. -/
structure SizesChecked (options : CreateOptions) : Prop where
  fits : (256 + options.metaSize.toNat) % 2 ^ 64 ≤ options.totalSize.toNat
  bound : options.totalSize.toNat ≤ 2 ^ 30
  payload : (createPayloadOffset options).toNat ≤ options.totalSize.toNat

theorem sizesChecked_of_ok {existing : List RegistryEntry}
    (hsec : validateCreateSecurity options existing = .ok ())
    (hlayout : checkLayout options = .ok ()) : SizesChecked options := by
  obtain ⟨hlo, hhi⟩ := validateCreateSecurity_sizes hsec
  unfold checkLayout at hlayout
  split_ifs at hlayout with hoff
  rw [UInt64.le_iff_toNat_le, UInt64.toNat_add] at hlo
  rw [UInt64.le_iff_toNat_le] at hhi
  exact ⟨hlo, hhi, UInt64.le_iff_toNat_le.mp (UInt64.not_lt.mp hoff)⟩

theorem writeHeader_layout (env : CreateEnv) (hs : SizesChecked options) :
    (writeHeader options env).metaSize.toNat = options.metaSize.toNat % 2 ^ 32 ∧
      (writeHeader options env).payloadOffset.toNat = (createPayloadOffset options).toNat ∧
      (writeHeader options env).payloadSize.toNat =
        options.totalSize.toNat - (createPayloadOffset options).toNat := by
  have hbound := hs.bound
  have hpayload := hs.payload
  exact ⟨UInt64.toNat_toUInt32 _,
    (UInt64.toNat_toUInt32 _).trans (Nat.mod_eq_of_lt (by omega)),
    UInt64.toNat_sub_of_le _ _ hs.payload⟩

/-- Metadata that does not wrap the sum: both validators pass the header. -/
theorem writeHeader_valid (env : CreateEnv) (hs : SizesChecked options)
    (hm : options.metaSize.toNat + 256 < 2 ^ 64) :
    HeaderValid (writeHeader options env) options.totalSize := by
  obtain ⟨hms, hpo, hps⟩ := writeHeader_layout env hs
  have hpo' := toNat_createPayloadOffset options
  have hmo : (writeHeader options env).metaOffset.toNat = 256 := rfl
  have htotal : (writeHeader options env).totalSize = options.totalSize := rfl
  have hfits := hs.fits
  have hbound := hs.bound
  have hpayload := hs.payload
  refine ⟨rfl, rfl, htotal, ?_, ?_, ?_, ?_, ?_⟩ <;> rw [htotal] at * <;> omega

theorem created_sizes (hc : create options env p = .ok (h, p')) : SizesChecked options := by
  obtain ⟨-, hsec, hlayout, -⟩ := create_ok hc
  exact sizesChecked_of_ok hsec hlayout

/-- Metadata that does not wrap the sum: every reader accepts what `create` wrote. -/
theorem accepted_of_fits (hc : create options env p = .ok (h, p'))
    (hm : options.metaSize.toNat + 256 < 2 ^ 64) : Accepted options env.keys h := by
  have hs := created_sizes hc
  have hvalid := writeHeader_valid env hs hm
  obtain ⟨hval, hjan, hmeta, hpay⟩ := created_layout hc
  obtain ⟨hms, hpo, hps⟩ := writeHeader_layout env hs
  have hpo' := toNat_createPayloadOffset options
  have hfits := hs.fits
  have hbound := hs.bound
  have hpayload := hs.payload
  refine ⟨?_, ?_, created_name hc, created_hmac hc rfl rfl rfl, ?_, ?_, ?_, ?_, ?_⟩
  · rw [hval]
    exact validateHeader_ok_iff.mpr hvalid
  · rw [hjan]
    exact janitorHeaderValid_iff.mpr hvalid
  · rw [hmeta]
    show (writeHeader options env).metaSize.toNat = _
    omega
  · rw [hmeta]
    exact hvalid.metaStart
  · rw [hmeta, hpay]
    exact hvalid.payloadStart
  · rw [hpay]
    show (writeHeader options env).payloadOffset.toNat +
      (writeHeader options env).payloadSize.toNat ≤ _
    omega
  · rw [hpay]
    show 64 ∣ (writeHeader options env).payloadOffset.toNat
    omega

/-- What `create` writes is accepted exactly when header and metadata sizes do not wrap their
64-bit sum. -/
theorem create_accepted_iff (hc : create options env p = .ok (h, p')) :
    Accepted options env.keys h ↔ options.metaSize.toNat + 256 < 2 ^ 64 := by
  constructor
  · intro ha
    by_contra hwrap
    have hm := options.metaSize.toNat_lt
    obtain ⟨hms, -⟩ := writeHeader_layout env (created_sizes hc)
    obtain ⟨-, -, hmeta, -⟩ := created_layout hc
    have hsize : (writeHeader options env).metaSize.toNat = options.metaSize.toNat :=
      (congrArg Span.size hmeta).symm.trans ha.metadataSize
    omega
  · exact accepted_of_fits hc

/-- A process in which every call succeeds and no key is set up. -/
def quietEnv : CreateEnv := ⟨1, some 1, 1, 1, 1, 1, ⟨none, none⟩, fun _ => .ok ()⟩

def sizedOptions (metaSize : UInt64) : CreateOptions :=
  ⟨nameStart ++ asciiBytes ['a', 'p', 'p', '.', 'a'], .raw, 4096, metaSize, 0⟩

theorem exists_created (hc : (create options env p).toBool = true) :
    ∃ h p', create options env p = .ok (h, p') := by
  cases h : create options env p with
  | error e =>
    rw [h] at hc
    cases hc
  | ok created => exact ⟨created.1, created.2, rfl⟩

theorem create_accepted_iff_one_line : ∃ h p',
    create (sizedOptions 64) quietEnv zeroPayload = .ok (h, p') ∧
      (Accepted (sizedOptions 64) quietEnv.keys h ↔ (64 : UInt64).toNat + 256 < 2 ^ 64) := by
  have hok : (create (sizedOptions 64) quietEnv zeroPayload).toBool = true := by decide +kernel
  obtain ⟨h, p', hc⟩ := exists_created hok
  exact ⟨h, p', hc, create_accepted_iff hc⟩

/-- 256 bytes short of 2^64: the payload starts at offset 0, over the header, and the stored
metadata size is another one. -/
theorem created_header_rejected : ∃ h p',
    create (sizedOptions 0xFFFFFFFFFFFFFF00) quietEnv zeroPayload = .ok (h, p') ∧
      h.payload = ⟨0, 4096⟩ ∧ h.metadata = ⟨256, 0xFFFFFF00⟩ ∧
      validateHeader h 4096 = .error .corruptedHeader ∧ janitorHeaderValid h 4096 = false ∧
      ¬ Accepted (sizedOptions 0xFFFFFFFFFFFFFF00) quietEnv.keys h := by
  have hok : (create (sizedOptions 0xFFFFFFFFFFFFFF00) quietEnv zeroPayload).toBool = true := by
    decide +kernel
  obtain ⟨h, p', hc⟩ := exists_created hok
  obtain ⟨hv, hj, hmeta, hpay⟩ := created_layout hc
  have hrej : validateHeader h 4096 = .error .corruptedHeader := by
    rw [hv]
    decide +kernel
  refine ⟨h, p', hc, ?_, ?_, hrej, ?_, ?_⟩
  · rw [hpay]
    decide +kernel
  · rw [hmeta]
    decide +kernel
  · rw [hj]
    decide +kernel
  · intro ha
    have haccept := ha.validated
    rw [show (sizedOptions 0xFFFFFFFFFFFFFF00).totalSize = 4096 from rfl, hrej] at haccept
    cases haccept

end Proofs

end Shmfx
