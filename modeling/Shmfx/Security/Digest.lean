import Shmfx.Lib.Sha2
import Shmfx.Security.Sha256

/-! The framework's SHA-256 and HMAC are the standard ones. -/
namespace Shmfx

/-- A counted loop keeps what each turn keeps. -/
theorem foldl_turns {α : Type} {n : Nat} {f : α → Fin n → α} {P : Nat → α → Prop} {x : α}
    (h₀ : P 0 x) (hs : ∀ (i : Fin n) y, P i y → P (i + 1) (f y i)) : P n (Fin.foldl n f x) := by
  induction n with
  | zero => simpa using h₀
  | succ n ih =>
    rw [Fin.foldl_succ_last]
    exact hs (Fin.last n) _ (ih fun i y => hs i.castSucc y)

section Words

theorem roundConstant_eq (t : Fin 64) : Sha2.roundConstant t = sha256K.get t := by
  have htable : ∀ t : Fin 64,
      UInt32.ofNat (Nat.nthRoot 3 (Sha2.firstPrimes.get t * 2 ^ 96)) = sha256K.get t := by
    decide +kernel
  rw [Sha2.roundConstant, Sha2.nth_prime, htable]

theorem initialHash_eq : Sha2.initialHash = sha256Init.h := by
  have htable : ∀ i : Fin 8,
      UInt32.ofNat (Nat.sqrt (Sha2.firstPrimes[i.val] * 2 ^ 64)) = sha256Init.h[i] := by
    decide +kernel
  refine Vector.ext fun i hi => ?_
  have hprime : Nat.nth Nat.Prime i = Sha2.firstPrimes[i] := Sha2.nth_prime ⟨i, by omega⟩
  rw [Sha2.initialHash, Vector.getElem_ofFn, hprime]
  exact htable ⟨i, hi⟩

/-- Bits that do not meet are added. -/
theorem shiftLeft_or {x y n : Nat} (h : y < 2 ^ n) : x <<< n ||| y = x * 2 ^ n + y := by
  rw [← Nat.shiftLeft_add_eq_or_of_lt h, Nat.shiftLeft_eq]

theorem loadBe32_eq (p₀ p₁ p₂ p₃ : UInt8) :
    loadBe32 p₀ p₁ p₂ p₃ = UInt32.ofNat
      (p₀.toNat * 2 ^ 24 + p₁.toNat * 2 ^ 16 + p₂.toNat * 2 ^ 8 + p₃.toNat) := by
  have h₀ := p₀.toNat_lt
  have h₁ := p₁.toNat_lt
  have h₂ := p₂.toNat_lt
  have h₃ := p₃.toNat_lt
  apply UInt32.toNat_inj.mp
  simp only [loadBe32, UInt32.toNat_or, UInt32.toNat_shiftLeft, UInt8.toNat_toUInt32,
    UInt32.toNat_ofNat', UInt32.reduceToNat, Nat.reduceMod]
  generalize p₀.toNat = a at h₀ ⊢
  generalize p₁.toNat = b at h₁ ⊢
  generalize p₂.toNat = c at h₂ ⊢
  generalize p₃.toNat = d at h₃ ⊢
  have hab : a <<< 24 % 2 ^ 32 ||| b <<< 16 % 2 ^ 32 = (a * 2 ^ 8 + b) <<< 16 := by
    rw [Nat.mod_eq_of_lt (by rw [Nat.shiftLeft_eq]; omega),
      Nat.mod_eq_of_lt (by rw [Nat.shiftLeft_eq]; omega),
      shiftLeft_or (by rw [Nat.shiftLeft_eq]; omega), Nat.shiftLeft_eq, Nat.shiftLeft_eq]
    omega
  have habc : (a * 2 ^ 8 + b) <<< 16 ||| c <<< 8 % 2 ^ 32 =
      ((a * 2 ^ 8 + b) * 2 ^ 8 + c) <<< 8 := by
    rw [Nat.mod_eq_of_lt (by rw [Nat.shiftLeft_eq]; omega),
      shiftLeft_or (by rw [Nat.shiftLeft_eq]; omega), Nat.shiftLeft_eq, Nat.shiftLeft_eq]
    omega
  rw [hab, habc, shiftLeft_or h₃]
  omega

/-- A byte of a word, by shifting and by dividing. -/
theorem toUInt8_shiftRight (v : UInt32) (k : Nat) (hk : k < 4) :
    (v >>> UInt32.ofNat (8 * k)).toUInt8 = UInt8.ofNat (v.toNat / 256 ^ k) := by
  apply UInt8.toNat_inj.mp
  rw [UInt32.toNat_toUInt8, UInt32.toNat_shiftRight, UInt8.toNat_ofNat', UInt32.toNat_ofNat',
    Nat.mod_eq_of_lt (a := 8 * k) (by omega), Nat.mod_eq_of_lt (a := 8 * k) (by omega),
    Nat.shiftRight_eq_div_pow, Nat.pow_mul]

theorem storeBe32_eq (v : UInt32) : (storeBe32 v).toList = Sha2.bigEndian 4 v.toNat := by
  have h₁ := toUInt8_shiftRight v 1 (by decide)
  have h₂ := toUInt8_shiftRight v 2 (by decide)
  have h₃ := toUInt8_shiftRight v 3 (by decide)
  have h₀ : v.toUInt8 = UInt8.ofNat (v.toNat / 256 ^ 0) := by
    rw [Nat.pow_zero, Nat.div_one]
    exact UInt8.toNat_inj.mp (by simp)
  simp only [storeBe32, Sha2.bigEndian, List.range, List.range.loop, List.map_cons, List.map_nil]
  rw [← h₀, ← h₁, ← h₂, ← h₃]
  rfl

end Words

section Transform

variable {block : Vector UInt8 64}

theorem loadWords_eq (block : Vector UInt8 64) {t : Nat} (ht : t < 16) :
    (loadWords block)[t] = Sha2.blockWord block.toList t := by
  have hget (k : Nat) (hk : k < 64) : block.toList.getD k 0 = block[k] := by
    rw [List.getD_eq_getElem _ _ (by simpa using hk), Vector.getElem_toList]
  rw [loadWords, Vector.getElem_ofFn, dif_pos ht, loadBe32_eq, Sha2.blockWord,
    hget (4 * t) (by omega), hget (4 * t + 1) (by omega), hget (4 * t + 2) (by omega),
    hget (4 * t + 3) (by omega)]

/-- After `n` turns of the second loop, 16 + `n` words are those of the standard. -/
def Scheduled (block : Vector UInt8 64) (n : Nat) (w : Vector UInt32 64) : Prop :=
  ∀ t (ht : t < 64), t < 16 + n → w[t] = Sha2.schedule block.toList t

theorem extendWords_scheduled {w : Vector UInt32 64} (i : Fin 48) (h : Scheduled block i w) :
    Scheduled block (i + 1) (extendWords w i) := by
  intro t ht hlt
  rw [extendWords, Vector.getElem_set]
  split
  · rename_i heq
    subst heq
    have hword (k : Nat) (hk : k < 16) : w[i.val + k] = Sha2.schedule block.toList (i.val + k) :=
      h (i.val + k) (by omega) (by omega)
    have hfirst : w[i.val] = Sha2.schedule block.toList i.val := hword 0 (by decide)
    rw [Sha2.schedule, if_neg (by omega), hfirst, hword 1 (by decide), hword 9 (by decide),
      hword 14 (by decide)]
    simp only [Nat.reduceSubDiff, Nat.add_sub_cancel]
    show Sha2.schedule block.toList i + Sha2.smallSigma0 (Sha2.schedule block.toList (i + 1)) +
      Sha2.schedule block.toList (i + 9) +
        Sha2.smallSigma1 (Sha2.schedule block.toList (i + 14)) = _
    ac_rfl
  · exact h t ht (by omega)

theorem schedule_eq (block : Vector UInt8 64) {t : Nat} (ht : t < 64) :
    (Fin.foldl 48 extendWords (loadWords block))[t] = Sha2.schedule block.toList t := by
  have hloaded : Scheduled block 0 (loadWords block) := by
    intro t ht hlt
    rw [loadWords_eq block hlt, Sha2.schedule, if_pos hlt]
  exact foldl_turns (P := Scheduled block) hloaded (fun i w => extendWords_scheduled i) t ht ht

/-- The working variables as the standard has them. -/
def Working.registers (v : Working) : Sha2.Registers := ⟨v.a, v.b, v.c, v.d, v.e, v.f, v.g, v.h⟩

theorem registers_round (v : Working) (k w : UInt32) :
    (compressionRound v k w).registers = Sha2.round k w v.registers :=
  rfl

theorem rounds_eq (block : Vector UInt8 64) {w : Vector UInt32 64}
    (hw : ∀ t (ht : t < 64), w[t] = Sha2.schedule block.toList t) (v : Working) :
    (Fin.foldl 64 (fun v i => compressionRound v (sha256K.get i) (w.get i)) v).registers =
      Sha2.rounds block.toList 64 v.registers := by
  refine foldl_turns (P := fun n (u : Working) =>
    u.registers = Sha2.rounds block.toList n v.registers) rfl ?_
  intro i u hu
  have hword : w.get i = Sha2.schedule block.toList i := hw i i.isLt
  rw [registers_round, hu, ← roundConstant_eq, hword, Sha2.rounds]

theorem sha256Transform_eq (h : Vector UInt32 8) (block : Vector UInt8 64) :
    sha256Transform h block = Sha2.compress h block.toList := by
  have hsum (v : Working) (u : Sha2.Registers) (hv : v.registers = u) :
      #v[h[0] + v.a, h[1] + v.b, h[2] + v.c, h[3] + v.d, h[4] + v.e, h[5] + v.f, h[6] + v.g,
        h[7] + v.h] =
      #v[h[0] + u.a, h[1] + u.b, h[2] + u.c, h[3] + u.d, h[4] + u.e, h[5] + u.f, h[6] + u.g,
        h[7] + u.h] := by
    rw [← hv]
    rfl
  exact hsum _ _ (rounds_eq block (fun t ht => schedule_eq block ht) _)

end Transform

section Streaming

variable {s : Sha256State} {m data : List UInt8} {start : Nat}

/-- The bytes waiting in the block. -/
def Sha256State.waiting (s : Sha256State) : List UInt8 := s.block.toList.take s.blockUsed

/-- The state has taken in the bytes `m`: their whole blocks are in the hash value, the rest waits
in the block. -/
def TakenIn (s : Sha256State) (m : List UInt8) : Prop :=
  ∃ whole, whole.length % 64 = 0 ∧ m = whole ++ s.waiting ∧
    s.h = Sha2.chain Sha2.initialHash whole

theorem length_waiting (s : Sha256State) : s.waiting.length = s.blockUsed := by
  have hlt := s.blockUsed.isLt
  rw [Sha256State.waiting, List.length_take, Vector.length_toList]
  omega

theorem take_copyBlock (block : Vector UInt8 64) (h : start + data.length ≤ 64) :
    (copyBlock block start data).toList.take (start + data.length) =
      block.toList.take start ++ data := by
  have hlength : (block.toList.take start).length = start := by
    rw [List.length_take, Vector.length_toList]
    omega
  apply List.ext_getElem
  · rw [List.length_take, Vector.length_toList, List.length_append, hlength]
    omega
  · intro i hi hi'
    have hlt : i < start + data.length := by
      rw [List.length_take] at hi
      omega
    by_cases hs : i < start
    · have hout : ¬ (start ≤ i ∧ i < start + data.length) := by omega
      simp [copyBlock, hlength, hs, hout]
    · have hin : start ≤ i ∧ i < start + data.length := by omega
      have hdata : i - start < data.length := by omega
      simp [copyBlock, hlength, hin, hdata]

theorem TakenIn.filled (h : TakenIn s m) (hu : s.blockUsed + data.length = 64) :
    TakenIn { s with
      h := sha256Transform s.h (copyBlock s.block s.blockUsed data)
      block := copyBlock s.block s.blockUsed data, blockUsed := 0 } (m ++ data) := by
  obtain ⟨whole, hwhole, rfl, hh⟩ := h
  have hblock : (copyBlock s.block s.blockUsed data).toList = s.waiting ++ data := by
    rw [Sha256State.waiting, ← take_copyBlock s.block hu.le, hu, List.take_of_length_le (by simp)]
  have hlength : (s.waiting ++ data).length = 64 := by
    rw [List.length_append, length_waiting, hu]
  refine ⟨whole ++ (s.waiting ++ data), ?_, ?_, ?_⟩
  · rw [List.length_append, hlength]
    omega
  · simp [Sha256State.waiting]
  · rw [Sha2.chain_append hwhole, ← List.append_nil (s.waiting ++ data),
      Sha2.chain_block _ hlength, Sha2.chain_of_short (by decide), ← hh, ← hblock]
    exact sha256Transform_eq ..

theorem TakenIn.partly (h : TakenIn s m) {used : Fin 64} (hu : s.blockUsed + data.length = used) :
    TakenIn { s with block := copyBlock s.block s.blockUsed data, blockUsed := used }
      (m ++ data) := by
  obtain ⟨whole, hwhole, rfl, hh⟩ := h
  refine ⟨whole, hwhole, ?_, hh⟩
  have htake := take_copyBlock s.block (hu.trans_le used.isLt.le)
  rw [List.append_assoc, Sha256State.waiting, ← htake, hu]
  rfl

theorem length_take_min (data : List UInt8) (n : Nat) :
    (data.take (min data.length n)).length = min data.length n :=
  List.length_take_of_le (Nat.min_le_left ..)

theorem absorb_takenIn (s : Sha256State) (data m : List UInt8) (h : TakenIn s m) :
    TakenIn (absorb s data) (m ++ data) := by
  fun_induction absorb s data generalizing m with
  | case1 s => rwa [List.append_nil]
  | case2 s data hd take block hu ih =>
    have hlength : s.blockUsed + (data.take take).length = 64 := by
      rw [length_take_min]
      exact hu
    have hfull := h.filled hlength
    have hrest := ih _ hfull
    rwa [List.append_assoc, List.take_append_drop] at hrest
  | case3 s data hd take block hu ih =>
    have hlength : s.blockUsed + (data.take take).length =
        (⟨s.blockUsed + take, by omega⟩ : Fin 64) := by
      rw [length_take_min]
    have hpart := h.partly hlength
    have hrest := ih _ hpart
    rwa [List.append_assoc, List.take_append_drop] at hrest

theorem absorb_totalBytes (s : Sha256State) (data : List UInt8) :
    (absorb s data).totalBytes = s.totalBytes := by
  fun_induction absorb s data with
  | case1 => rfl
  | case2 s data hd take block hu ih => exact ih
  | case3 s data hd take block hu ih => exact ih

/-- The state after `sha256_init` and updates with the bytes `m`, however they were cut. -/
structure Streamed (s : Sha256State) (m : List UInt8) : Prop where
  taken : TakenIn s m
  total : s.totalBytes = UInt64.ofNat m.length

theorem streamed_init (block : Vector UInt8 64) : Streamed { sha256Init with block } [] := by
  refine ⟨⟨[], rfl, ?_, ?_⟩, rfl⟩
  · simp [Sha256State.waiting, sha256Init]
  · rw [Sha2.chain_of_short (by decide), initialHash_eq]

theorem Streamed.update (h : Streamed s m) (data : List UInt8) :
    Streamed (sha256Update s data) (m ++ data) := by
  refine ⟨absorb_takenIn _ data m h.taken, ?_⟩
  rw [sha256Update, absorb_totalBytes, h.total, List.length_append, UInt64.ofNat_add]

theorem streamed_foldl (h : Streamed s m) (chunks : List (List UInt8)) :
    Streamed (chunks.foldl sha256Update s) (m ++ chunks.flatten) := by
  induction chunks generalizing s m with
  | nil => simpa using h
  | cons chunk chunks ih =>
    have hnext := ih (h.update chunk)
    rwa [List.append_assoc] at hnext

end Streaming

section Final

variable {s : Sha256State} {m : List UInt8} {lo hi : Nat}

theorem fillZero_toList (block : Vector UInt8 64) (hlo : lo ≤ hi) (hhi : hi ≤ 64) :
    (fillZero block lo hi).toList =
      block.toList.take lo ++ List.replicate (hi - lo) 0 ++ block.toList.drop hi := by
  apply List.ext_getElem
  · simp
    omega
  · intro i hi₁ hi₂
    have hlt : i < 64 := by simpa using hi₁
    have hmin : min lo 64 = lo := by omega
    by_cases h₁ : i < lo
    · have hout : ¬ (lo ≤ i ∧ i < hi) := by omega
      simp [fillZero, hout, h₁, hlt]
    · by_cases h₂ : i < hi
      · have hin : lo ≤ i ∧ i < hi := by omega
        simp [fillZero, List.getElem_append, hin, hmin]
      · have hout : ¬ (lo ≤ i ∧ i < hi) := by omega
        have hrest : ¬ i - lo < hi - lo := by omega
        have hindex : hi + (i - lo - (hi - lo)) = i := by omega
        simp [fillZero, List.getElem_append, hmin, h₁, h₂, hrest, hindex]

theorem toUInt8_shiftRight64 (v : UInt64) (k : Nat) (hk : k < 8) :
    (v >>> (UInt64.ofNat k * 8)).toUInt8 = UInt8.ofNat (v.toNat / 256 ^ k) := by
  have hshift : UInt64.ofNat k * 8 = UInt64.ofNat (k * 8) := (UInt64.ofNat_mul k 8).symm
  apply UInt8.toNat_inj.mp
  rw [hshift, UInt64.toNat_toUInt8, UInt64.toNat_shiftRight, UInt8.toNat_ofNat',
    UInt64.toNat_ofNat', Nat.mod_eq_of_lt (a := k * 8) (by omega),
    Nat.mod_eq_of_lt (a := k * 8) (by omega), Nat.shiftRight_eq_div_pow, Nat.mul_comm k 8,
    Nat.pow_mul]

theorem storeBitLength_toList (block : Vector UInt8 64) (bitLen : UInt64) :
    (storeBitLength block bitLen).toList =
      block.toList.take 56 ++ Sha2.bigEndian 8 bitLen.toNat := by
  apply List.ext_getElem
  · simp [Sha2.length_bigEndian]
  · intro i hi₁ hi₂
    have hlt : i < 64 := by simpa using hi₁
    by_cases h₁ : i < 56
    · have hout : ¬ 56 ≤ i := by omega
      simp [storeBitLength, h₁, hout]
    · have hin : 56 ≤ i := by omega
      have hbyte := toUInt8_shiftRight64 bitLen (7 - (i - 56)) (by omega)
      simp [storeBitLength, Sha2.bigEndian, hin, hbyte]

theorem toList_eq_ofFn {α : Type} {n : Nat} (v : Vector α n) :
    v.toList = List.ofFn fun i : Fin n => v[i] :=
  List.ext_getElem (by simp) (by simp)

theorem digestBytes_eq (h : Vector UInt32 8) : (digestBytes h).toList = Sha2.digest h := by
  have hwords : Sha2.digest h =
      (List.ofFn fun i : Fin 8 => List.ofFn fun j : Fin 4 => (storeBe32 h[i])[j]).flatten := by
    simp only [Sha2.digest, ← storeBe32_eq, toList_eq_ofFn, List.flatMap, List.map_ofFn]
    rfl
  rw [hwords, digestBytes, Vector.toList_ofFn]
  refine (List.ofFn_mul (m := 8) (n := 4) _).trans ?_
  congr 2
  funext i
  congr 1
  funext j
  have hdiv : (i.val * 4 + j.val) / 4 = i.val := by omega
  have hmod : (i.val * 4 + j.val) % 4 = j.val := by omega
  simp only [hdiv, hmod]
  rfl

theorem take_marked (s : Sha256State) :
    s.marked.toList.take (s.blockUsed + 1) = s.waiting ++ [0x80] := by
  have hlt : s.blockUsed.val < s.block.toList.length := by simp
  have hlength : (s.waiting ++ [0x80]).length = s.blockUsed.val + 1 := by
    rw [List.length_append, length_waiting, List.length_singleton]
  have hset : s.marked.toList =
      (s.waiting ++ [0x80]) ++ s.block.toList.drop (s.blockUsed + 1) := by
    rw [Sha256State.marked, Vector.toList_set, List.set_eq_take_append_cons_drop, if_pos hlt,
      List.append_assoc]
    rfl
  rw [hset, List.take_left' hlength]

/-- The last block when the length fits behind the mark. -/
theorem lastBlock_toList (hu : s.blockUsed.val < 56) (bitLen : UInt64) :
    (storeBitLength (fillZero s.marked (s.blockUsed + 1) 56) bitLen).toList =
      s.waiting ++ 0x80 :: List.replicate (55 - s.blockUsed) 0 ++
        Sha2.bigEndian 8 bitLen.toNat := by
  have hlength : (s.waiting ++ [0x80] ++
      List.replicate (56 - (s.blockUsed + 1)) (0 : UInt8)).length = 56 := by
    rw [List.length_append, List.length_append, length_waiting, List.length_singleton,
      List.length_replicate]
    omega
  have hzeros : 56 - (s.blockUsed.val + 1) = 55 - s.blockUsed := by omega
  rw [storeBitLength_toList, fillZero_toList _ (by omega) (by decide), take_marked,
    List.take_left' hlength, hzeros]
  simp

/-- The block before the last when the length does not fit. -/
theorem filledBlock_toList (s : Sha256State) :
    (fillZero s.marked (s.blockUsed + 1) 64).toList =
      s.waiting ++ 0x80 :: List.replicate (63 - s.blockUsed) 0 := by
  have hzeros : 64 - (s.blockUsed.val + 1) = 63 - s.blockUsed := by omega
  rw [fillZero_toList _ (by omega) (by decide), take_marked, hzeros,
    List.drop_of_length_le (by simp)]
  simp

theorem lengthBlock_toList (block : Vector UInt8 64) (bitLen : UInt64) :
    (storeBitLength (fillZero block 0 56) bitLen).toList =
      List.replicate 56 0 ++ Sha2.bigEndian 8 bitLen.toNat := by
  rw [storeBitLength_toList, fillZero_toList _ (by decide) (by decide), List.take_zero,
    List.nil_append, List.take_left' List.length_replicate]

/-- The padding of a message, from its last, incomplete block on. -/
theorem pad_eq {whole : List UInt8} (hwhole : whole.length % 64 = 0)
    (hm : m = whole ++ s.waiting) :
    Sha2.pad m = whole ++ (s.waiting ++
      0x80 :: List.replicate ((119 - s.blockUsed) % 64) 0 ++
        Sha2.bigEndian 8 (8 * m.length)) := by
  have hmod : m.length % 64 = s.blockUsed := by
    have hlt := s.blockUsed.isLt
    rw [hm, List.length_append, length_waiting]
    omega
  rw [Sha2.pad, Sha2.zeroCount, hmod]
  simp [hm]

theorem bigEndian_bitLen (h : Streamed s m) :
    Sha2.bigEndian 8 (s.totalBytes * 8).toNat = Sha2.bigEndian 8 (8 * m.length) := by
  have height : (8 : UInt64).toNat = 8 := rfl
  have hpow : 256 ^ 8 = 2 ^ 64 := by decide
  have hlen : (s.totalBytes * 8).toNat = 8 * m.length % 256 ^ 8 := by
    rw [h.total, UInt64.toNat_mul, UInt64.toNat_ofNat', height, Nat.mod_mul_mod, Nat.mul_comm,
      hpow]
  rw [hlen, Sha2.bigEndian_mod]

/-- One or two more blocks end the chain. -/
theorem chain_one {hash : Vector UInt32 8} {block : Vector UInt8 64} :
    Sha2.chain hash block.toList = sha256Transform hash block := by
  rw [sha256Transform_eq, ← List.append_nil block.toList, Sha2.chain_block _ (by simp),
    Sha2.chain_of_short (by decide), List.append_nil]

theorem chain_two {hash : Vector UInt32 8} {block last : Vector UInt8 64} :
    Sha2.chain hash (block.toList ++ last.toList) =
      sha256Transform (sha256Transform hash block) last := by
  rw [Sha2.chain_block _ (by simp), chain_one, ← sha256Transform_eq]

theorem sha256Final_eq (h : Streamed s m) : (sha256Final s).toList = Sha2.sha256 m := by
  obtain ⟨whole, hwhole, hm, hh⟩ := h.taken
  have hlt := s.blockUsed.isLt
  have hmarked : s.block.set s.blockUsed 0x80 = s.marked := rfl
  rw [Sha2.sha256, pad_eq hwhole hm, Sha2.chain_append hwhole, ← hh, ← bigEndian_bitLen h,
    sha256Final, hmarked]
  dsimp only
  by_cases hused : s.blockUsed.val + 1 > 56
  · have hzeros : (119 - s.blockUsed.val) % 64 = 63 - s.blockUsed + 56 := by omega
    rw [if_pos hused, digestBytes_eq, ← chain_two, filledBlock_toList, lengthBlock_toList, hzeros,
      List.replicate_add]
    simp
  · have hzeros : (119 - s.blockUsed.val) % 64 = 55 - s.blockUsed := by omega
    rw [if_neg hused, digestBytes_eq, ← chain_one, lastBlock_toList (by omega), hzeros]

end Final

section Standard

theorem streamed_digest (block : Vector UInt8 64) (chunks : List (List UInt8)) :
    (sha256Final (chunks.foldl sha256Update { sha256Init with block })).toList =
      Sha2.sha256 chunks.flatten :=
  sha256Final_eq (streamed_foldl (streamed_init block) chunks)

theorem sha256_eq (data : List UInt8) : (sha256 data).toList = Sha2.sha256 data := by
  have h := streamed_digest sha256Init.block [data]
  rwa [List.flatten_singleton] at h

theorem padKey_eq (key : Vector UInt8 hmacBytes) (pad : UInt8) :
    padKey key pad = (key.toList ++ List.replicate 32 0).map (· ^^^ pad) := by
  have hkey : key.toList.length = 32 := by simp
  apply List.ext_getElem
  · rw [padKey, List.length_ofFn, List.length_map, List.length_append, hkey, List.length_replicate]
  · intro i hi hi'
    rw [List.getElem_map]
    simp only [padKey, List.getElem_ofFn]
    by_cases hk : i < key.toList.length
    · rw [List.getD_eq_getElem _ _ hk, List.getElem_append_left hk]
    · rw [List.getD_eq_default _ _ (Nat.not_lt.mp hk),
        List.getElem_append_right (Nat.not_lt.mp hk), List.getElem_replicate]

/-- Two updates, as `hmac_sha256` makes them. -/
theorem twoUpdates_digest (first second : List UInt8) :
    (sha256Final (sha256Update (sha256Update sha256Init first) second)).toList =
      Sha2.sha256 (first ++ second) := by
  have h := streamed_digest sha256Init.block [first, second]
  rwa [List.flatten_cons, List.flatten_singleton] at h

/-- Whatever the block held before `sha256_init` and however the bytes are cut, the digest is that
of the standard, and the keyed digest is its HMAC. -/
theorem sha256_hmac_standard :
    (∀ (block : Vector UInt8 64) (chunks : List (List UInt8)),
      (sha256Final (chunks.foldl sha256Update { sha256Init with block })).toList =
        Sha2.sha256 chunks.flatten) ∧
    (∀ data, (sha256 data).toList = Sha2.sha256 data) ∧
    ∀ (key : Vector UInt8 hmacBytes) (data : List UInt8),
      (hmacSha256 key data).toList = Sha2.hmac Sha2.sha256 64 key.toList data := by
  refine ⟨streamed_digest, sha256_eq, fun key data => ?_⟩
  have hkey : key.toList.length = 32 := by simp
  have hshort : ¬ 64 < key.toList.length := by omega
  rw [Sha2.hmac, if_neg hshort, hkey, hmacSha256]
  simp only [twoUpdates_digest, padKey_eq]

end Standard

end Shmfx
