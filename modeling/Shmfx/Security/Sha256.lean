import Mathlib.Tactic.Common
import Shmfx.Types

/-! The framework's own SHA-256 and HMAC (`shm_security.cpp`). -/
namespace Shmfx

/-- `SHMFX_HMAC_BYTES`. -/
abbrev hmacBytes : Nat := 32

/-- `Sha256State`, with its `kSha256BlockBytes` = 64; between calls the block is never full. -/
structure Sha256State where
  h : Vector UInt32 8
  block : Vector UInt8 64
  totalBytes : UInt64
  blockUsed : Fin 64

/-- `kSha256K`. -/
def sha256K : Vector UInt32 64 :=
  #v[
    0x428a2f98, 0x71374491, 0xb5c0fbcf, 0xe9b5dba5, 0x3956c25b, 0x59f111f1, 0x923f82a4,
    0xab1c5ed5, 0xd807aa98, 0x12835b01, 0x243185be, 0x550c7dc3, 0x72be5d74, 0x80deb1fe,
    0x9bdc06a7, 0xc19bf174, 0xe49b69c1, 0xefbe4786, 0x0fc19dc6, 0x240ca1cc, 0x2de92c6f,
    0x4a7484aa, 0x5cb0a9dc, 0x76f988da, 0x983e5152, 0xa831c66d, 0xb00327c8, 0xbf597fc7,
    0xc6e00bf3, 0xd5a79147, 0x06ca6351, 0x14292967, 0x27b70a85, 0x2e1b2138, 0x4d2c6dfc,
    0x53380d13, 0x650a7354, 0x766a0abb, 0x81c2c92e, 0x92722c85, 0xa2bfe8a1, 0xa81a664b,
    0xc24b8b70, 0xc76c51a3, 0xd192e819, 0xd6990624, 0xf40e3585, 0x106aa070, 0x19a4c116,
    0x1e376c08, 0x2748774c, 0x34b0bcb5, 0x391c0cb3, 0x4ed8aa4a, 0x5b9cca4f, 0x682e6ff3,
    0x748f82ee, 0x78a5636f, 0x84c87814, 0x8cc70208, 0x90befffa, 0xa4506ceb, 0xbef9a3f7,
    0xc67178f2]

def rotr (x n : UInt32) : UInt32 := (x >>> n) ||| (x <<< (32 - n))

def loadBe32 (p₀ p₁ p₂ p₃ : UInt8) : UInt32 :=
  (p₀.toUInt32 <<< 24) ||| (p₁.toUInt32 <<< 16) ||| (p₂.toUInt32 <<< 8) ||| p₃.toUInt32

def storeBe32 (v : UInt32) : Vector UInt8 4 :=
  #v[(v >>> 24).toUInt8, (v >>> 16).toUInt8, (v >>> 8).toUInt8, v.toUInt8]

def sha256Init : Sha256State where
  h := #v[0x6a09e667, 0xbb67ae85, 0x3c6ef372, 0xa54ff53a, 0x510e527f, 0x9b05688c, 0x1f83d9ab,
    0x5be0cd19]
  block := .replicate _ 0
  totalBytes := 0
  blockUsed := 0

/-- The first loop of `sha256_transform`: sixteen words of the block, the rest still zero. -/
def loadWords (block : Vector UInt8 64) : Vector UInt32 64 :=
  Vector.ofFn fun i =>
    if h : i.val < 16 then
      loadBe32 block[4 * i.val] block[4 * i.val + 1] block[4 * i.val + 2] block[4 * i.val + 3]
    else 0

/-- The second loop, `i` counting from the seventeenth word. -/
def extendWords (w : Vector UInt32 64) (i : Fin 48) : Vector UInt32 64 :=
  have hi := i.isLt
  let s0 := rotr w[i.val + 1] 7 ^^^ rotr w[i.val + 1] 18 ^^^ (w[i.val + 1] >>> 3)
  let s1 := rotr w[i.val + 14] 17 ^^^ rotr w[i.val + 14] 19 ^^^ (w[i.val + 14] >>> 10)
  w.set (i.val + 16) (w[i.val] + s0 + w[i.val + 9] + s1)

/-- The working variables of the compression loop. -/
structure Working where
  a : UInt32
  b : UInt32
  c : UInt32
  d : UInt32
  e : UInt32
  f : UInt32
  g : UInt32
  h : UInt32

def compressionRound (v : Working) (k w : UInt32) : Working :=
  let s1 := rotr v.e 6 ^^^ rotr v.e 11 ^^^ rotr v.e 25
  let ch := (v.e &&& v.f) ^^^ (~~~v.e &&& v.g)
  let temp1 := v.h + s1 + ch + k + w
  let s0 := rotr v.a 2 ^^^ rotr v.a 13 ^^^ rotr v.a 22
  let maj := (v.a &&& v.b) ^^^ (v.a &&& v.c) ^^^ (v.b &&& v.c)
  let temp2 := s0 + maj
  ⟨temp1 + temp2, v.a, v.b, v.c, v.d + temp1, v.e, v.f, v.g⟩

def sha256Transform (h : Vector UInt32 8) (block : Vector UInt8 64) : Vector UInt32 8 :=
  let w := Fin.foldl 48 extendWords (loadWords block)
  let v := Fin.foldl 64 (fun v i => compressionRound v sha256K[i] w[i])
    ⟨h[0], h[1], h[2], h[3], h[4], h[5], h[6], h[7]⟩
  #v[h[0] + v.a, h[1] + v.b, h[2] + v.c, h[3] + v.d, h[4] + v.e, h[5] + v.f, h[6] + v.g,
    h[7] + v.h]

/-- `memcpy` of `data` to offset `start` of the block. -/
def copyBlock (block : Vector UInt8 64) (start : Nat) (data : List UInt8) :
    Vector UInt8 64 :=
  Vector.ofFn fun i =>
    if start ≤ i.val ∧ i.val < start + data.length then data.getD (i.val - start) 0 else block[i]

/-- The loop of `sha256_update`: fill the block, compress it when it is full, go on. -/
def absorb (s : Sha256State) (data : List UInt8) : Sha256State :=
  if hd : data = [] then s
  else
    let take := min data.length (64 - s.blockUsed)
    let block := copyBlock s.block s.blockUsed (data.take take)
    if hu : s.blockUsed + take = 64 then
      absorb { s with h := sha256Transform s.h block, block := block, blockUsed := 0 }
        (data.drop take)
    else
      absorb { s with block := block, blockUsed := ⟨s.blockUsed + take, by omega⟩ }
        (data.drop take)
termination_by data.length
decreasing_by
  all_goals
    have hpos := List.length_pos_iff.mpr hd
    simp only [List.length_drop]
    omega

def sha256Update (s : Sha256State) (data : List UInt8) : Sha256State :=
  absorb { s with totalBytes := s.totalBytes + UInt64.ofNat data.length } data

/-- `std::fill` with zero over [lo, hi) of the block. -/
def fillZero (block : Vector UInt8 64) (lo hi : Nat) : Vector UInt8 64 :=
  Vector.ofFn fun i => if lo ≤ i.val ∧ i.val < hi then 0 else block[i]

/-- The big-endian bit length in the last eight bytes. -/
def storeBitLength (block : Vector UInt8 64) (bitLen : UInt64) : Vector UInt8 64 :=
  Vector.ofFn fun i =>
    if 56 ≤ i.val then (bitLen >>> UInt64.ofNat ((7 - (i.val - 56)) * 8)).toUInt8 else block[i]

def digestBytes (h : Vector UInt32 8) : Vector UInt8 hmacBytes :=
  Vector.ofFn fun i =>
    have hi : i.val < 32 := i.isLt
    (storeBe32 h[i.val / 4])[i.val % 4]

def sha256Final (s : Sha256State) : Vector UInt8 hmacBytes :=
  let bitLen := s.totalBytes * 8
  let block := s.block.set s.blockUsed 0x80
  let used := s.blockUsed.val + 1
  if used > 56 then
    let block := fillZero block used 64
    let h := sha256Transform s.h block
    digestBytes (sha256Transform h (storeBitLength (fillZero block 0 56) bitLen))
  else digestBytes (sha256Transform s.h (storeBitLength (fillZero block used 56) bitLen))

/-- The block with the mark behind the waiting bytes. -/
def Sha256State.marked (s : Sha256State) : Vector UInt8 64 := s.block.set s.blockUsed 0x80

def sha256 (data : List UInt8) : Vector UInt8 hmacBytes :=
  sha256Final (sha256Update sha256Init data)

/-- The key, padded with zeros to a block, under one of the two pads. -/
def padKey (key : Vector UInt8 hmacBytes) (pad : UInt8) : List UInt8 :=
  List.ofFn fun i : Fin 64 => key.toList.getD i 0 ^^^ pad

def hmacSha256 (key : Vector UInt8 hmacBytes) (data : List UInt8) : Vector UInt8 hmacBytes :=
  let inner := sha256Update (sha256Update sha256Init (padKey key 0x36)) data
  let outer := sha256Update (sha256Update sha256Init (padKey key 0x5c)) (sha256Final inner).toList
  sha256Final outer

end Shmfx
