import Mathlib.Data.Nat.Nth
import Mathlib.Data.Nat.NthRoot.Defs
import Mathlib.Data.Nat.Prime.Basic
import Mathlib.Tactic.Common

/-! SHA-256 as FIPS 180-4 defines it and HMAC as RFC 2104 does, on byte strings. -/
namespace Sha2

def rotr (n x : UInt32) : UInt32 := (x >>> n) ||| (x <<< (32 - n))

def ch (x y z : UInt32) : UInt32 := (x &&& y) ^^^ (~~~x &&& z)

def maj (x y z : UInt32) : UInt32 := (x &&& y) ^^^ (x &&& z) ^^^ (y &&& z)

def bigSigma0 (x : UInt32) : UInt32 := rotr 2 x ^^^ rotr 13 x ^^^ rotr 22 x

def bigSigma1 (x : UInt32) : UInt32 := rotr 6 x ^^^ rotr 11 x ^^^ rotr 25 x

def smallSigma0 (x : UInt32) : UInt32 := rotr 7 x ^^^ rotr 18 x ^^^ (x >>> 3)

def smallSigma1 (x : UInt32) : UInt32 := rotr 17 x ^^^ rotr 19 x ^^^ (x >>> 10)

/-- K_t: the first 32 bits of the fractional part of the cube root of the t-th prime. -/
noncomputable def roundConstant (t : Nat) : UInt32 :=
  .ofNat (Nat.nthRoot 3 (Nat.nth Nat.Prime t * 2 ^ 96))

/-- H^(0): the first 32 bits of the fractional parts of the square roots of the first primes. -/
noncomputable def initialHash : Vector UInt32 8 :=
  .ofFn fun i => .ofNat (Nat.sqrt (Nat.nth Nat.Prime i * 2 ^ 64))

/-- The low `width` bytes of a number, the highest first. -/
def bigEndian (width n : Nat) : List UInt8 :=
  (List.range width).map fun i => .ofNat (n / 256 ^ (width - 1 - i))

/-- The number of zero bytes of the padding. -/
def zeroCount (length : Nat) : Nat := (119 - length % 64) % 64

/-- The message with a one bit, the fewest zero bits that leave 64 bits of the last block, and its
length in bits. -/
def pad (message : List UInt8) : List UInt8 :=
  message ++ 0x80 :: List.replicate (zeroCount message.length) 0 ++
    bigEndian 8 (8 * message.length)

/-- M_t of a block. -/
def blockWord (block : List UInt8) (t : Nat) : UInt32 :=
  .ofNat ((block.getD (4 * t) 0).toNat * 2 ^ 24 + (block.getD (4 * t + 1) 0).toNat * 2 ^ 16 +
    (block.getD (4 * t + 2) 0).toNat * 2 ^ 8 + (block.getD (4 * t + 3) 0).toNat)

/-- W_t. -/
def schedule (block : List UInt8) (t : Nat) : UInt32 :=
  if t < 16 then blockWord block t
  else
    smallSigma1 (schedule block (t - 2)) + schedule block (t - 7) +
      smallSigma0 (schedule block (t - 15)) + schedule block (t - 16)

/-- The working variables. -/
structure Registers where
  a : UInt32
  b : UInt32
  c : UInt32
  d : UInt32
  e : UInt32
  f : UInt32
  g : UInt32
  h : UInt32

def round (k w : UInt32) (v : Registers) : Registers :=
  let t1 := v.h + bigSigma1 v.e + ch v.e v.f v.g + k + w
  let t2 := bigSigma0 v.a + maj v.a v.b v.c
  ⟨t1 + t2, v.a, v.b, v.c, v.d + t1, v.e, v.f, v.g⟩

/-- The first `t` rounds on a block. -/
noncomputable def rounds (block : List UInt8) : Nat → Registers → Registers
  | 0, v => v
  | t + 1, v => round (roundConstant t) (schedule block t) (rounds block t v)

noncomputable def compress (hash : Vector UInt32 8) (block : List UInt8) : Vector UInt32 8 :=
  let v := rounds block 64
    ⟨hash.get 0, hash.get 1, hash.get 2, hash.get 3, hash.get 4, hash.get 5, hash.get 6, hash.get 7⟩
  #v[hash.get 0 + v.a, hash.get 1 + v.b, hash.get 2 + v.c, hash.get 3 + v.d, hash.get 4 + v.e,
    hash.get 5 + v.f, hash.get 6 + v.g, hash.get 7 + v.h]

/-- The hash value after the whole blocks of a byte string. -/
noncomputable def chain (hash : Vector UInt32 8) (bytes : List UInt8) : Vector UInt32 8 :=
  if 64 ≤ bytes.length then chain (compress hash (bytes.take 64)) (bytes.drop 64) else hash
termination_by bytes.length
decreasing_by
  rw [List.length_drop]
  omega

def digest (hash : Vector UInt32 8) : List UInt8 :=
  hash.toList.flatMap fun w => bigEndian 4 w.toNat

/-- SHA-256 of a message of less than 2^61 bytes. -/
noncomputable def sha256 (message : List UInt8) : List UInt8 :=
  digest (chain initialHash (pad message))

/-- HMAC with a hash function on blocks of `blockSize` bytes. -/
def hmac (hash : List UInt8 → List UInt8) (blockSize : Nat) (key text : List UInt8) : List UInt8 :=
  let key := if blockSize < key.length then hash key else key
  let key := key ++ List.replicate (blockSize - key.length) 0
  hash (key.map (· ^^^ 0x5c) ++ hash (key.map (· ^^^ 0x36) ++ text))

section Padding

/-- The zeros fill up to 8 bytes before the end of a block. -/
theorem zeroCount_mod (n : Nat) : (n + 1 + zeroCount n) % 64 = 56 := by
  unfold zeroCount
  omega

/-- No fewer zeros do. -/
theorem zeroCount_least {n k : Nat} (h : (n + 1 + k) % 64 = 56) : zeroCount n ≤ k := by
  unfold zeroCount
  omega

theorem length_bigEndian (width n : Nat) : (bigEndian width n).length = width := by
  simp [bigEndian]

/-- Only the low bytes of the number are written. -/
theorem bigEndian_mod (width n : Nat) : bigEndian width (n % 256 ^ width) = bigEndian width n := by
  refine List.map_congr_left fun i hi => UInt8.toNat_inj.mp ?_
  have hlt := List.mem_range.mp hi
  obtain ⟨d, hd⟩ : ∃ d, width = width - 1 - i + (d + 1) := ⟨i, by omega⟩
  rw [UInt8.toNat_ofNat', UInt8.toNat_ofNat']
  generalize width - 1 - i = k at hd
  rw [hd, Nat.pow_add, Nat.mod_mul_right_div_self, Nat.pow_succ, Nat.mod_mul_left_mod]

theorem chain_of_short {hash : Vector UInt32 8} {bytes : List UInt8} (h : bytes.length < 64) :
    chain hash bytes = hash := by
  rw [chain, if_neg (Nat.not_le.mpr h)]

theorem chain_block (hash : Vector UInt32 8) {block : List UInt8} (h : block.length = 64)
    (bytes : List UInt8) : chain hash (block ++ bytes) = chain (compress hash block) bytes := by
  rw [chain, if_pos (by rw [List.length_append]; omega), List.take_left' h, List.drop_left' h]

/-- Whole blocks are processed before what follows them. -/
theorem chain_append {hash : Vector UInt32 8} {bytes more : List UInt8}
    (h : bytes.length % 64 = 0) : chain hash (bytes ++ more) = chain (chain hash bytes) more := by
  induction hn : bytes.length / 64 generalizing hash bytes with
  | zero =>
    have hnil : bytes = [] := List.length_eq_zero_iff.mp (by omega)
    rw [hnil, List.nil_append, chain_of_short (show ([] : List UInt8).length < 64 by decide)]
  | succ n ih =>
    have hlong : 64 ≤ bytes.length := by omega
    have htake : (bytes.take 64).length = 64 := List.length_take_of_le hlong
    have hdrop : (bytes.drop 64).length = bytes.length - 64 := List.length_drop
    rw [← List.take_append_drop 64 bytes, List.append_assoc, chain_block _ htake,
      chain_block _ htake]
    exact ih (by omega) (by omega)

end Padding

section Constants

/-- The primes that the constants are taken from. -/
def firstPrimes : Vector Nat 64 :=
  #v[2, 3, 5, 7, 11, 13, 17, 19, 23, 29, 31, 37, 41, 43, 47, 53, 59, 61, 67, 71, 73, 79, 83, 89, 97,
    101, 103, 107, 109, 113, 127, 131, 137, 139, 149, 151, 157, 163, 167, 173, 179, 181, 191, 193,
    197, 199, 211, 223, 227, 229, 233, 239, 241, 251, 257, 263, 269, 271, 277, 281, 283, 293, 307,
    311]

/-- Trial division by the numbers whose squares are below 18^2. -/
def NoSmallDivisor (n : Nat) : Prop := 2 ≤ n ∧ ∀ d < 16, d + 2 < n → n % (d + 2) ≠ 0

instance (n : Nat) : Decidable (NoSmallDivisor n) := inferInstanceAs (Decidable (_ ∧ _))

theorem prime_iff {n : Nat} (hn : n < 324) : Nat.Prime n ↔ NoSmallDivisor n := by
  rw [Nat.prime_def_le_sqrt]
  refine and_congr_right fun htwo => ⟨fun h d hd hlt hmod => ?_, fun h m hm hle hdvd => ?_⟩
  · have hdvd : d + 2 ∣ n := Nat.dvd_of_mod_eq_zero hmod
    have hprime : Nat.Prime n := Nat.prime_def_le_sqrt.mpr ⟨htwo, h⟩
    rcases (Nat.dvd_prime hprime).mp hdvd with hone | hself
    · omega
    · omega
  · have hsqrt : Nat.sqrt n < 18 := Nat.sqrt_lt'.mpr hn
    have hlt : m < n := hle.trans_lt (Nat.sqrt_lt_self htwo)
    obtain ⟨d, rfl⟩ := Nat.exists_eq_add_of_le' hm
    exact h d (by omega) hlt (Nat.mod_eq_zero_of_dvd hdvd)

/-- Between one of them and the next there is no other prime. -/
theorem divisors_firstPrimes : ∀ t : Fin 63,
    firstPrimes[t.val] ≤ firstPrimes[t.val + 1] ∧ firstPrimes[t.val + 1] < 324 ∧
      NoSmallDivisor firstPrimes[t.val + 1] ∧
      Nat.count (fun k => NoSmallDivisor (firstPrimes[t.val] + k))
        (firstPrimes[t.val + 1] - firstPrimes[t.val]) = 1 := by
  decide +kernel

theorem prime_firstPrimes (t : Nat) (ht : t < 64) : Nat.Prime firstPrimes[t] := by
  cases t with
  | zero => exact Nat.prime_two
  | succ t =>
    obtain ⟨-, hlt, hdivisor, -⟩ := divisors_firstPrimes ⟨t, by omega⟩
    exact (prime_iff hlt).mpr hdivisor

theorem count_firstPrimes (t : Nat) (ht : t < 64) : Nat.count Nat.Prime firstPrimes[t] = t := by
  induction t with
  | zero => rfl
  | succ t ih =>
    obtain ⟨hle, hlt, -, hgap⟩ := divisors_firstPrimes ⟨t, by omega⟩
    dsimp only at hle hlt hgap
    obtain ⟨d, hd⟩ := Nat.exists_eq_add_of_le hle
    rw [hd, Nat.add_sub_cancel_left, Nat.count_eq_card_filter_range] at hgap
    rw [hd, Nat.count_add, ih (by omega), Nat.count_eq_card_filter_range, ← hgap]
    congr 2
    refine Finset.filter_congr fun k hk => prime_iff ?_
    have hk' := Finset.mem_range.mp hk
    omega

theorem nth_prime (t : Fin 64) : Nat.nth Nat.Prime t = firstPrimes.get t := by
  conv_lhs => rw [← count_firstPrimes t t.isLt]
  exact Nat.nth_count (prime_firstPrimes t t.isLt)

end Constants

end Sha2
