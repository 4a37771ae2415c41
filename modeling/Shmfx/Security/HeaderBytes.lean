import Shmfx.Lib.Memory
import Shmfx.Security.Signing

/-! The bytes of the header: signing and verifying as they read and write them in place. -/
namespace Shmfx

open Memory

namespace HeaderBytes

/-- Where `flags` lies. -/
def flagsOffset : Nat := 12

/-- `SHMFX_IMMUTABLE_BYTES`, where `hmac` begins. -/
def hmacOffset : Nat := 128

/-- Where `hmac` ends and the mutable fields begin. -/
def ownerOffset : Nat := 160

/-- The header that the first 256 bytes of a memory hold. -/
def header (b : Bytes) : ShmHeader where
  magic := .ofNat (word b 0 4)
  versionMajor := .ofNat (word b 4 2)
  versionMinor := .ofNat (word b 6 2)
  segmentType := .ofNat (word b 8 4)
  flags := .ofNat (word b flagsOffset 4)
  totalSize := .ofNat (word b 16 8)
  payloadSize := .ofNat (word b 24 8)
  metaOffset := .ofNat (word b 32 4)
  metaSize := .ofNat (word b 36 4)
  payloadOffset := .ofNat (word b 40 4)
  creatorPid := .ofNat (word b 44 4)
  createdAtNs := .ofNat (word b 48 8)
  creatorStartTime := .ofNat (word b 56 8)
  name := fun i => b (64 + i)
  hmac := .ofFn fun i => b (hmacOffset + i)
  ownerPid := .ofNat (word b ownerOffset 4)
  ownerStartTime := .ofNat (word b 168 8)
  refCount := .ofNat (word b 176 4)
  state := .ofNat (word b 180 4)
  heartbeatCounter := .ofNat (word b 184 8)
  heartbeatLastNs := .ofNat (word b 192 8)
  controlMutex := if word b 200 40 = 0 then .zeroed else .robust

def loadFlags : Prog UInt32 := do
  let flags ← load flagsOffset 4
  return .ofNat flags

def loadHmac : Prog (Vector UInt8 hmacBytes) := do
  let bytes ← loadBytes hmacOffset hmacBytes
  return .ofFn fun i => bytes.getD i 0

def fillHmac (digest : Vector UInt8 hmacBytes) : Prog Unit := storeBytes hmacOffset digest.toList

def signHeaderIfEnabled (keys : KeySource) : Prog (Except ErrorCode Unit) := do
  let flags ← loadFlags
  if flags &&& hmacEnabled = 0 then
    fillHmac zeroHmac
    return .ok ()
  else
    match loadHmacKey keys with
    | none => return .error .permissionDenied
    | some key =>
      fillHmac zeroHmac
      let bytes ← loadBytes 0 hmacOffset
      fillHmac (hmacSha256 key bytes)
      return .ok ()

def hasHmacBytes : Prog Bool := do
  let hmac ← loadHmac
  return hmac.toList.any (· != 0)

/-- The first condition of `verify_header_hmac`, negated; a set flag settles it. -/
def claimsSignature : Prog Bool := do
  let flags ← loadFlags
  if flags &&& hmacEnabled = 0 then hasHmacBytes else return true

def verifyHeaderHmac (keys : KeySource) : Prog (Except ErrorCode Unit) := do
  let signed ← claimsSignature
  if signed = false then return .ok ()
  else
    match loadHmacKey keys with
    | none => return .error .permissionDenied
    | some key =>
      let bytes ← loadBytes 0 hmacOffset
      let hmac ← loadHmac
      if digestEqual hmac (hmacSha256 key bytes) then return .ok ()
      else return .error .corruptedHeader

section Layout

variable {b c : Bytes}

theorem leBytes_word (b : Bytes) (start n : Nat) :
    leBytes n (word b start n) = slice b start n := by
  apply List.map_congr_left
  intro i hi
  rw [Nat.shiftRight_eq_div_pow, Nat.pow_mul]
  exact word_digit (List.mem_range.mp hi)

/-- The signed bytes are those before `hmac`, in the order of memory. -/
theorem immutableBytes_header (b : Bytes) : (header b).immutableBytes = slice b 0 hmacOffset := by
  have h16 : ∀ start, (UInt16.ofNat (word b start 2)).toNat = word b start 2 :=
    fun start => UInt16.toNat_ofNat_of_lt' (word_lt b start 2)
  have h32 : ∀ start, (UInt32.ofNat (word b start 4)).toNat = word b start 4 :=
    fun start => UInt32.toNat_ofNat_of_lt' (word_lt b start 4)
  have h64 : ∀ start, (UInt64.ofNat (word b start 8)).toNat = word b start 8 :=
    fun start => UInt64.toNat_ofNat_of_lt' (word_lt b start 8)
  have hname : List.ofFn (header b).name = slice b 64 64 := rfl
  unfold ShmHeader.immutableBytes
  rw [hname]
  simp only [header, h16, h32, h64, leBytes_word, flagsOffset]
  simp (disch := rfl) only [slice_append]
  rfl

theorem immutableBytes_setHmac (h : ShmHeader) (digest : Vector UInt8 hmacBytes) :
    { h with hmac := digest }.immutableBytes = h.immutableBytes :=
  rfl

/-- What signing and verifying depend on. -/
theorem header_congr (h : ∀ k, k < ownerOffset → c k = b k) :
    (header c).flags = (header b).flags ∧
      (header c).immutableBytes = (header b).immutableBytes ∧
      (header c).hmac = (header b).hmac := by
  refine ⟨?_, ?_, ?_⟩
  · refine congrArg UInt32.ofNat (word_congr fun k _ hk => h k ?_)
    exact hk.trans (by decide)
  · rw [immutableBytes_header, immutableBytes_header]
    refine slice_congr fun k _ hk => h k ?_
    exact hk.trans (by decide)
  · refine Vector.ext fun i hi => ?_
    rw [header, header, Vector.getElem_ofFn, Vector.getElem_ofFn]
    exact h _ (Nat.add_lt_add_left hi hmacOffset)

/-- Writing the `hmac` field changes that field of the header. -/
theorem header_setHmac (b : Bytes) (digest : Vector UInt8 hmacBytes) :
    header (setBytes b hmacOffset digest.toList) = { header b with hmac := digest } := by
  have hkept : ∀ {start n : Nat}, start + n ≤ hmacOffset ∨ ownerOffset ≤ start →
      word (setBytes b hmacOffset digest.toList) start n = word b start n := by
    intro start n h
    apply word_setBytes_of_disjoint
    rw [Vector.length_toList]
    exact h
  have hname : (header (setBytes b hmacOffset digest.toList)).name = (header b).name := by
    funext i
    apply setBytes_of_notMem
    rintro ⟨hi, -⟩
    exact absurd hi (Nat.not_le.mpr (Nat.add_lt_add_left i.isLt 64))
  have hhmac : (header (setBytes b hmacOffset digest.toList)).hmac = digest := by
    refine Vector.ext fun i hi => ?_
    have hi' : i < digest.toList.length := by rwa [Vector.length_toList]
    rw [header, Vector.getElem_ofFn, setBytes_at hi', List.getD_eq_getElem _ _ hi',
      Vector.getElem_toList]
  unfold header at hname hhmac ⊢
  simp only [ShmHeader.mk.injEq] at hname hhmac ⊢
  simp (disch := decide) only [hkept, hname, hhmac, and_self]

end Layout

section Programs

variable {s : Traced}

/-- The bytes signing and verifying look at. -/
def covered : Set Nat := {k | k < ownerOffset}

/-- The bytes of `hmac`. -/
def hmacField : Set Nat := (⟨hmacOffset, hmacBytes⟩ : Region).addresses

/-- A program that leaves the memory alone and answers `v`. -/
def Answers {α : Type} (p : Prog α) (s : Traced) (v : α) : Prop :=
  Ensures p s fun a t => a = v ∧ t.bytes = s.bytes ∧ Touches covered ∅ s t

theorem hmacField_covered : hmacField ⊆ covered := fun _ hk => hk.2

theorem Answers.bind {α β : Type} {p : Prog α} {f : α → Prog β} {v : α} {Q : β → Traced → Prop}
    (hp : Answers p s v)
    (hf : ∀ t, t.bytes = s.bytes → Touches covered ∅ s t → Ensures (f v) t Q) :
    Ensures (p >>= f) s Q := by
  refine Ensures.bind hp fun a t ⟨ha, hbytes, htouches⟩ => ?_
  subst ha
  exact hf t hbytes htouches

theorem Answers.seq {α β : Type} {p : Prog α} {f : α → Prog β} {v : α} {w : β}
    (hp : Answers p s v) (hf : ∀ t, t.bytes = s.bytes → Answers (f v) t w) :
    Answers (p >>= f) s w := by
  refine hp.bind fun t hbytes htouches => (hf t hbytes).mono fun b u ⟨hb, hbytes', htouches'⟩ => ?_
  exact ⟨hb, hbytes'.trans hbytes, htouches.trans htouches'⟩

theorem Answers.pure {α : Type} (v : α) : Answers (Pure.pure v) s v := ⟨rfl, rfl, .refl s⟩

theorem load_answers {start n : Nat} (h : start + n ≤ ownerOffset) :
    Answers (load start n) s (word s.bytes start n) :=
  ensures_load fun _ hk => lt_of_lt_of_le hk.2 h

theorem loadBytes_answers {start n : Nat} (h : start + n ≤ ownerOffset) :
    Answers (loadBytes start n) s (slice s.bytes start n) :=
  ensures_loadBytes fun _ hk => lt_of_lt_of_le hk.2 h

theorem loadFlags_answers : Answers loadFlags s (header s.bytes).flags :=
  (load_answers (by decide)).seq fun _ _ => .pure _

theorem loadHmac_answers : Answers loadHmac s (header s.bytes).hmac := by
  refine (loadBytes_answers (by decide)).seq fun t ht => ?_
  have hhmac : (header s.bytes).hmac =
      .ofFn fun i => (slice s.bytes hmacOffset hmacBytes).getD i 0 := by
    refine Vector.ext fun i hi => ?_
    have hi' : i < (slice s.bytes hmacOffset hmacBytes).length := by rwa [length_slice]
    simp only [header, Vector.getElem_ofFn]
    rw [List.getD_eq_getElem _ _ hi']
    simp only [slice, List.getElem_map, List.getElem_range]
  rw [hhmac]
  exact .pure _

theorem loadImmutable_answers :
    Answers (loadBytes 0 hmacOffset) s (header s.bytes).immutableBytes := by
  rw [immutableBytes_header]
  exact loadBytes_answers (by decide)

theorem hasHmacBytes_answers : Answers hasHmacBytes s (Shmfx.hasHmacBytes (header s.bytes)) :=
  loadHmac_answers.seq fun _ _ => .pure _

/-- Whether the header says that it is signed. -/
def claimed (h : ShmHeader) : Bool := h.flags &&& hmacEnabled ≠ 0 || Shmfx.hasHmacBytes h

theorem claimsSignature_answers : Answers claimsSignature s (claimed (header s.bytes)) := by
  refine loadFlags_answers.seq fun t ht => ?_
  unfold claimed
  by_cases hflag : (header s.bytes).flags &&& hmacEnabled = 0
  · rw [if_pos hflag, decide_eq_false (not_not.mpr hflag), Bool.false_or, ← ht]
    exact hasHmacBytes_answers
  · rw [if_neg hflag, decide_eq_true hflag]
    exact .pure _

/-- Verifying reads the header and says what it says of the decoded one. -/
theorem verifyHeaderHmac_answers (keys : KeySource) (s : Traced) :
    Answers (verifyHeaderHmac keys) s (Shmfx.verifyHeaderHmac keys (header s.bytes)) := by
  refine claimsSignature_answers.seq fun u hu => ?_
  rw [← hu]
  have hclaimed : claimed (header u.bytes) = false ↔
      (header u.bytes).flags &&& hmacEnabled = 0 ∧ Shmfx.hasHmacBytes (header u.bytes) = false := by
    rw [claimed, Bool.or_eq_false_iff, decide_eq_false_iff_not, not_not]
  unfold Shmfx.verifyHeaderHmac
  rw [← if_congr hclaimed rfl rfl]
  split
  · exact .pure _
  · cases loadHmacKey keys with
    | none => exact .pure _
    | some key =>
      refine loadImmutable_answers.seq fun v hv => ?_
      rw [← hv]
      refine loadHmac_answers.seq fun w hw => ?_
      dsimp only
      generalize digestEqual (header v.bytes).hmac _ = equal
      cases equal with
      | false => exact .pure _
      | true => exact .pure _

theorem fillHmac_ensures {digest : Vector UInt8 hmacBytes} :
    Ensures (fillHmac digest) s fun _ t =>
      t.bytes = setBytes s.bytes hmacOffset digest.toList ∧ Touches covered hmacField s t := by
  have hfield : (⟨hmacOffset, digest.toList.length⟩ : Region).addresses = hmacField := by
    rw [Vector.length_toList, hmacField]
  exact ensures_storeBytes (hfield ▸ hmacField_covered) hfield.subset

/-- Signing does to the bytes what it does to the decoded header. -/
theorem signHeaderIfEnabled_ensures (keys : KeySource) (s : Traced) :
    Ensures (signHeaderIfEnabled keys) s fun r t =>
      Touches covered hmacField s t ∧
        match Shmfx.signHeaderIfEnabled keys (header s.bytes) with
        | .ok h => r = .ok () ∧ t.bytes = setBytes s.bytes hmacOffset h.hmac.toList
        | .error e => r = .error e ∧ t.bytes = s.bytes := by
  refine loadFlags_answers.bind fun t ht htouches => ?_
  unfold Shmfx.signHeaderIfEnabled
  split
  · refine fillHmac_ensures.bind fun _ u ⟨hu, htouches'⟩ => .pure ⟨?_, rfl, ?_⟩
    · exact htouches.after_reads htouches'
    · rw [hu, ht]
  · cases loadHmacKey keys with
    | none => exact .pure ⟨htouches.after_reads (.refl t), rfl, ht⟩
    | some key =>
      refine fillHmac_ensures.bind fun _ u ⟨hu, htouches'⟩ => ?_
      refine loadImmutable_answers.bind fun v hv hread => ?_
      refine fillHmac_ensures.bind fun _ w ⟨hw, htouches''⟩ => .pure ⟨?_, rfl, ?_⟩
      · exact htouches.after_reads (htouches'.trans (hread.after_reads htouches''))
      · -- The fill has not touched the bytes under the digest.
        have hsame : (header u.bytes).immutableBytes = (header s.bytes).immutableBytes := by
          rw [hu, ht, header_setHmac, immutableBytes_setHmac]
        have hlength : (zeroHmac.toList).length =
            (hmacSha256 key (header s.bytes).immutableBytes).toList.length := by
          rw [Vector.length_toList, Vector.length_toList]
        rw [hsame] at hw
        rw [hw, hv, hu, ht, setBytes_setBytes hlength]

/-- What signing the header of a memory answers, and the memory it leaves. -/
def signed (keys : KeySource) (b : Bytes) : Except ErrorCode Unit × Traced :=
  (signHeaderIfEnabled keys).run ⟨b, []⟩

def verified (keys : KeySource) (b : Bytes) : Except ErrorCode Unit × Traced :=
  (verifyHeaderHmac keys).run ⟨b, []⟩

/-- The flag is set, or a byte of `hmac` is. -/
def ClaimsHmac (b : Bytes) : Prop :=
  UInt32.ofNat (word b flagsOffset 4) &&& hmacEnabled ≠ 0 ∨
    ∃ k, hmacOffset ≤ k ∧ k < ownerOffset ∧ b k ≠ 0

/-- Signing and verifying one header under one key. -/
structure SigningAgrees (keys : KeySource) (b : Bytes) : Prop where
  accepted : (signed keys b).1 = .ok () →
    ∀ other, (∀ k, k < ownerOffset → other k = (signed keys b).2.bytes k) →
      (verified keys other).1 = .ok ()
  decided : ClaimsHmac b →
    ((verified keys b).1 = .ok () ↔ ∃ key, loadHmacKey keys = some key ∧
      slice b hmacOffset hmacBytes = (hmacSha256 key (slice b 0 hmacOffset)).toList)
  unchanged : (signed keys b).1 ≠ .ok () → (signed keys b).2.bytes = b
  ignored : ∀ access ∈ (signed keys b).2.trace ++ (verified keys b).2.trace,
    ∀ k ∈ access.region.addresses, k < ownerOffset

theorem toList_hmac (b : Bytes) : (header b).hmac.toList = slice b hmacOffset hmacBytes := by
  apply List.ext_getElem
  · rw [Vector.length_toList, length_slice]
  · intro i _ _
    simp only [header, slice, Vector.getElem_toList, Vector.getElem_ofFn, List.getElem_map,
      List.getElem_range]

theorem claimsHmac_iff {b : Bytes} :
    ClaimsHmac b ↔
      (header b).flags &&& hmacEnabled ≠ 0 ∨ Shmfx.hasHmacBytes (header b) = true := by
  refine or_congr Iff.rfl ?_
  rw [Shmfx.hasHmacBytes, toList_hmac, List.any_eq_true]
  constructor
  · rintro ⟨k, hk, hlt, hne⟩
    refine ⟨b k, List.mem_map.mpr ⟨k - hmacOffset, List.mem_range.mpr ?_, ?_⟩, bne_iff_ne.mpr hne⟩
    · exact Nat.sub_lt_left_of_lt_add hk hlt
    · rw [Nat.add_sub_cancel' hk]
  · rintro ⟨x, hx, hne⟩
    obtain ⟨i, hi, rfl⟩ := List.mem_map.mp hx
    refine ⟨hmacOffset + i, Nat.le_add_right .., ?_, bne_iff_ne.mp hne⟩
    exact Nat.add_lt_add_left (List.mem_range.mp hi) hmacOffset

/-- The two ways signing can end. -/
theorem signed_cases (keys : KeySource) (b : Bytes) :
    (∃ h, Shmfx.signHeaderIfEnabled keys (header b) = .ok h ∧ (signed keys b).1 = .ok () ∧
        header (signed keys b).2.bytes = h) ∨
      ∃ e, (signed keys b).1 = .error e ∧ (signed keys b).2.bytes = b := by
  have hsign := (signHeaderIfEnabled_ensures keys ⟨b, []⟩).2
  cases hh : Shmfx.signHeaderIfEnabled keys (header b) with
  | error e =>
    rw [hh] at hsign
    exact .inr ⟨e, hsign⟩
  | ok h =>
    rw [hh] at hsign
    refine .inl ⟨h, rfl, hsign.1, ?_⟩
    rw [signed, hsign.2, header_setHmac]
    exact (signHeader_eq hh).symm

theorem verified_eq (keys : KeySource) (b : Bytes) :
    (verified keys b).1 = Shmfx.verifyHeaderHmac keys (header b) :=
  (verifyHeaderHmac_answers keys ⟨b, []⟩).1

/-- Neither looks at the mutable fields. -/
theorem accesses_covered (keys : KeySource) (b : Bytes) :
    ∀ access ∈ (signed keys b).2.trace ++ (verified keys b).2.trace,
      ∀ k ∈ access.region.addresses, k < ownerOffset := by
  intro access haccess
  rcases List.mem_append.mp haccess with hsign | hverify
  · exact (signHeaderIfEnabled_ensures keys ⟨b, []⟩).1.accesses access hsign
  · exact (verifyHeaderHmac_answers keys ⟨b, []⟩).2.2.accesses access hverify

theorem signing_agrees (keys : KeySource) (b : Bytes) : SigningAgrees keys b := by
  refine ⟨fun hok other hagree => ?_, fun hclaims => ?_, fun hfail => ?_, accesses_covered keys b⟩
  · rcases signed_cases keys b with ⟨h, hsign, -, rfl⟩ | ⟨e, he, -⟩
    · obtain ⟨hflags, hbytes, hhmac⟩ := header_congr hagree
      rw [verified_eq]
      exact verifyHeader_of_signed hsign hflags hbytes hhmac
    · cases hok.symm.trans he
  · rw [verified_eq, verifyHeader_ok_iff (claimsHmac_iff.mp hclaims)]
    refine exists_congr fun key => and_congr_right fun _ => ?_
    rw [← toList_hmac, ← immutableBytes_header, Vector.toList_inj]
  · rcases signed_cases keys b with ⟨h, -, hok, -⟩ | ⟨e, -, hkept⟩
    · exact absurd hok hfail
    · exact hkept

end Programs

end HeaderBytes

end Shmfx
