import Shmfx.Segment.Header

/-! Header signing and verification under a key taken from the environment (`shm_security.cpp`). -/
namespace Shmfx

/-- Where `load_hmac_key` looks: `SHMFX_HMAC_KEY`, then the first word of the key file. -/
structure KeySource where
  environment : Option (List UInt8)
  file : Option (List UInt8)

def hexValue (c : UInt8) : Option UInt8 :=
  if 48 ≤ c ∧ c ≤ 57 then some (c - 48)
  else if 97 ≤ c ∧ c ≤ 102 then some (c - 97 + 10)
  else if 65 ≤ c ∧ c ≤ 70 then some (c - 65 + 10)
  else none

/-- The loop of `parse_hex_key`, two digits at a time. -/
def hexBytes : List UInt8 → Option (List UInt8)
  | hi :: lo :: hex => do
    let hi ← hexValue hi
    let lo ← hexValue lo
    let rest ← hexBytes hex
    return ((hi <<< 4) ||| lo) :: rest
  | _ => some []

def parseHexKey (hex : List UInt8) : Option (Vector UInt8 hmacBytes) :=
  if hex.length ≠ hmacBytes * 2 then none
  else (hexBytes hex).map fun bytes => .ofFn fun i => bytes.getD i 0

/-- A key in the environment hides the file, even when it does not parse. -/
def loadHmacKey (keys : KeySource) : Option (Vector UInt8 hmacBytes) :=
  match keys.environment with
  | some hex => parseHexKey hex
  | none => keys.file.bind parseHexKey

def hasHmacBytes (h : ShmHeader) : Bool := h.hmac.toList.any (· != 0)

/-- `digest_equal`: the differences of all bytes are collected, without early exit. -/
def digestEqual (lhs rhs : Vector UInt8 hmacBytes) : Bool :=
  (List.zipWith (· ^^^ ·) lhs.toList rhs.toList).foldl (· ||| ·) 0 == 0

def zeroHmac : Vector UInt8 hmacBytes := .replicate _ 0

def signHeaderIfEnabled (keys : KeySource) (h : ShmHeader) : Except ErrorCode ShmHeader :=
  if h.flags &&& hmacEnabled = 0 then .ok { h with hmac := zeroHmac }
  else
    match loadHmacKey keys with
    | none => .error .permissionDenied
    | some key => .ok { h with hmac := hmacSha256 key h.immutableBytes }

def verifyHeaderHmac (keys : KeySource) (h : ShmHeader) : Except ErrorCode Unit :=
  if h.flags &&& hmacEnabled = 0 ∧ hasHmacBytes h = false then .ok ()
  else
    match loadHmacKey keys with
    | none => .error .permissionDenied
    | some key =>
      if digestEqual h.hmac (hmacSha256 key h.immutableBytes) then .ok ()
      else .error .corruptedHeader

theorem digestEqual_self (d : Vector UInt8 hmacBytes) : digestEqual d d = true := by
  have hz : ∀ l : List UInt8, (List.zipWith (· ^^^ ·) l l).foldl (· ||| ·) 0 = 0 := by
    intro l
    induction l with
    | nil => rfl
    | cons b l ih => simpa using ih
  rw [digestEqual, hz]
  rfl

theorem foldl_or_eq_zero (l : List UInt8) (b : UInt8) :
    l.foldl (· ||| ·) b = 0 ↔ b = 0 ∧ ∀ x ∈ l, x = 0 := by
  induction l generalizing b with
  | nil => simp
  | cons x l ih => rw [List.foldl_cons, ih, UInt8.or_eq_zero_iff, List.forall_mem_cons, and_assoc]

/-- Digests that compare equal are equal. -/
theorem eq_of_digestEqual {lhs rhs : Vector UInt8 hmacBytes} (h : digestEqual lhs rhs = true) :
    lhs = rhs := by
  have hz := ((foldl_or_eq_zero _ _).mp (eq_of_beq h)).2
  refine Vector.ext fun i hi => ?_
  have hx := hz (lhs[i] ^^^ rhs[i]) ?_
  · exact UInt8.xor_eq_zero_iff.mp hx
  · refine List.mem_iff_getElem.mpr ⟨i, by simpa using hi, ?_⟩
    simp

/-- A header that claims a signature is accepted exactly with the digest under the key. -/
theorem verifyHeader_ok_iff {keys : KeySource} {h : ShmHeader}
    (hs : h.flags &&& hmacEnabled ≠ 0 ∨ hasHmacBytes h = true) :
    verifyHeaderHmac keys h = .ok () ↔
      ∃ key, loadHmacKey keys = some key ∧ h.hmac = hmacSha256 key h.immutableBytes := by
  unfold verifyHeaderHmac
  rw [if_neg fun hc => hs.elim (· hc.1) (Bool.eq_false_iff.mp hc.2)]
  constructor
  · intro hv
    split at hv
    · cases hv
    · rename_i key hk
      split_ifs at hv with hd
      exact ⟨key, hk, eq_of_digestEqual hd⟩
  · rintro ⟨key, hk, hd⟩
    rw [hk]
    dsimp only
    rw [← hd]
    exact if_pos (digestEqual_self _)

theorem verifyHeader_digest {keys : KeySource} {h : ShmHeader} {key : Vector UInt8 hmacBytes}
    (hv : verifyHeaderHmac keys h = .ok ()) (hf : h.flags &&& hmacEnabled ≠ 0)
    (hk : loadHmacKey keys = some key) : h.hmac = hmacSha256 key h.immutableBytes := by
  obtain ⟨_, hk', hd⟩ := (verifyHeader_ok_iff (.inl hf)).mp hv
  cases hk.symm.trans hk'
  exact hd

theorem hasHmacBytes_zero {h : ShmHeader} (hz : h.hmac = zeroHmac) : hasHmacBytes h = false := by
  rw [hasHmacBytes, hz]
  decide

/-- Signing writes nothing but the `hmac` field. -/
theorem signHeader_eq {keys : KeySource} {h h' : ShmHeader}
    (hs : signHeaderIfEnabled keys h = .ok h') : h' = { h with hmac := h'.hmac } := by
  unfold signHeaderIfEnabled at hs
  split at hs
  · cases hs
    rfl
  · split at hs
    · cases hs
    · cases hs
      rfl

/-- Whoever finds the signed bytes and the signature in place accepts the header. -/
theorem verifyHeader_of_signed {keys : KeySource} {h h' h'' : ShmHeader}
    (hs : signHeaderIfEnabled keys h = .ok h') (hf : h''.flags = h'.flags)
    (hb : h''.immutableBytes = h'.immutableBytes) (hd : h''.hmac = h'.hmac) :
    verifyHeaderHmac keys h'' = .ok () := by
  unfold signHeaderIfEnabled at hs
  unfold verifyHeaderHmac
  split at hs
  · rename_i hflag
    cases hs
    exact if_pos ⟨by rw [hf]; exact hflag, hasHmacBytes_zero hd⟩
  · rename_i hflag
    split at hs
    · cases hs
    · cases hs
      rw [if_neg fun hc => hflag (hf ▸ hc.1)]
      simp only [hb, hd]
      exact if_pos (digestEqual_self _)

end Shmfx
