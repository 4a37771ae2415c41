import Mathlib.Algebra.Ring.Nat
import Mathlib.Data.Set.Basic
import Mathlib.Tactic.Common

/-! Byte-addressed memory with little-endian words, and the trace a program leaves in it. -/
namespace Memory

/-- A range of addresses. -/
structure Region where
  start : Nat
  size : Nat

def Region.addresses (r : Region) : Set Nat := {k | r.start ≤ k ∧ k < r.start + r.size}

abbrev Bytes := Nat → UInt8

/-- The word of `n` bytes at an address. -/
def word (b : Bytes) (start : Nat) : Nat → Nat
  | 0 => 0
  | n + 1 => (b start).toNat + 256 * word b (start + 1) n

def setWord (b : Bytes) (start n v : Nat) : Bytes :=
  fun k => if start ≤ k ∧ k < start + n then UInt8.ofNat (v / 256 ^ (k - start)) else b k

def setBytes (b : Bytes) (start : Nat) (data : List UInt8) : Bytes :=
  fun k => if start ≤ k ∧ k < start + data.length then data.getD (k - start) 0 else b k

/-- The `n` bytes at an address. -/
def slice (b : Bytes) (start n : Nat) : List UInt8 := (List.range n).map fun i => b (start + i)

inductive Access
  | read (r : Region)
  | write (r : Region)

def Access.region : Access → Region
  | .read r | .write r => r

structure Traced where
  bytes : Bytes
  trace : List Access

/-- A program over a memory that records every access. -/
abbrev Prog := StateM Traced

def load (start n : Nat) : Prog Nat :=
  modifyGet fun s =>
    (word s.bytes start n, { s with trace := s.trace ++ [.read ⟨start, n⟩] })

def store (start n v : Nat) : Prog Unit :=
  modify fun s => ⟨setWord s.bytes start n v, s.trace ++ [.write ⟨start, n⟩]⟩

def loadBytes (start n : Nat) : Prog (List UInt8) :=
  modifyGet fun s =>
    ((List.range n).map fun i => s.bytes (start + i),
      { s with trace := s.trace ++ [.read ⟨start, n⟩] })

def storeBytes (start : Nat) (data : List UInt8) : Prog Unit :=
  modify fun s => ⟨setBytes s.bytes start data, s.trace ++ [.write ⟨start, data.length⟩]⟩

/-- A weak compare-and-exchange, which may also fail on the expected word; the word it found. -/
def compareExchangeWeak (start n expected desired : Nat) (spurious : Bool) :
    Prog (Bool × Nat) := do
  let found ← load start n
  if found = expected ∧ spurious = false then
    store start n desired
    return (true, found)
  else return (false, found)

/-- Between two states a program has accessed the addresses of `A` only, and changed those of `W`
only. -/
structure Touches (A W : Set Nat) (s t : Traced) : Prop where
  accessed : ∃ new, t.trace = s.trace ++ new ∧ ∀ a ∈ new, a.region.addresses ⊆ A
  kept : ∀ k, k ∉ W → t.bytes k = s.bytes k

section Words

variable {b c : Bytes} {start n v k : Nat} {data : List UInt8}

@[simp] theorem mem_addresses {r : Region} :
    k ∈ r.addresses ↔ r.start ≤ k ∧ k < r.start + r.size :=
  Iff.rfl

/-- A word depends on its own bytes only. -/
theorem word_congr (h : ∀ k, start ≤ k → k < start + n → c k = b k) :
    word c start n = word b start n := by
  induction n generalizing start with
  | zero => rfl
  | succ n ih =>
    rw [word, word, h start (Nat.le_refl _) (by omega),
      ih fun k hk hk' => h k (by omega) (by omega)]

theorem word_zero (h : ∀ k, start ≤ k → k < start + n → b k = 0) : word b start n = 0 := by
  induction n generalizing start with
  | zero => rfl
  | succ n ih =>
    rw [word, h start (Nat.le_refl _) (by omega), ih fun k hk hk' => h k (by omega) (by omega)]
    rfl

theorem word_of_digits (h : ∀ i, i < n → b (start + i) = UInt8.ofNat (v / 256 ^ i)) :
    word b start n = v % 256 ^ n := by
  induction n generalizing start v with
  | zero => simp [word, Nat.mod_one]
  | succ n ih =>
    have hfirst : (b start).toNat = v % 256 := by
      have h₀ := h 0 (by omega)
      simp only [Nat.add_zero, Nat.pow_zero, Nat.div_one] at h₀
      rw [h₀, UInt8.toNat_ofNat']
    have hrest : word b (start + 1) n = v / 256 % 256 ^ n := by
      refine ih fun i hi => ?_
      have hi' := h (i + 1) (by omega)
      rwa [Nat.pow_succ', ← Nat.div_div_eq_div_mul, ← Nat.add_assoc, Nat.add_right_comm] at hi'
    rw [word, hfirst, hrest, Nat.pow_succ', Nat.mod_mul]

/-- The bytes of a word are its digits. -/
theorem word_digit {i : Nat} (h : i < n) :
    UInt8.ofNat (word b start n / 256 ^ i) = b (start + i) := by
  induction n generalizing start i with
  | zero => omega
  | succ n ih =>
    have hbyte := (b start).toNat_lt
    cases i with
    | zero =>
      apply UInt8.toNat.inj
      rw [UInt8.toNat_ofNat', word, Nat.pow_zero, Nat.div_one, Nat.add_zero start]
      omega
    | succ i =>
      have hrest : word b start (n + 1) / 256 = word b (start + 1) n := by
        rw [word]
        omega
      rw [Nat.pow_succ', ← Nat.div_div_eq_div_mul, hrest, ih (by omega)]
      congr 1
      omega

theorem word_lt (b : Bytes) (start n : Nat) : word b start n < 256 ^ n := by
  induction n generalizing start with
  | zero => exact Nat.one_pos
  | succ n ih =>
    have hbyte := (b start).toNat_lt
    have hrest := ih (start + 1)
    rw [word, Nat.pow_succ]
    omega

theorem length_slice : (slice b start n).length = n := by
  rw [slice, List.length_map, List.length_range]

/-- Adjacent slices form one. -/
theorem slice_append {m next : Nat} (h : start + n = next) :
    slice b start n ++ slice b next m = slice b start (n + m) := by
  subst h
  unfold slice
  rw [List.range_add, List.map_append, List.map_map]
  congr 1
  apply List.map_congr_left
  intro i _
  exact congrArg b (Nat.add_assoc ..)

theorem slice_congr {c : Bytes} (h : ∀ k, start ≤ k → k < start + n → c k = b k) :
    slice c start n = slice b start n := by
  apply List.map_congr_left
  intro i hi
  have hlt := List.mem_range.mp hi
  exact h _ (by omega) (by omega)

/-- The second of two writes to one place stays. -/
theorem setBytes_setBytes {data' : List UInt8} (h : data.length = data'.length) :
    setBytes (setBytes b start data) start data' = setBytes b start data' := by
  funext k
  unfold setBytes
  rw [h]
  split <;> rfl

theorem word_setWord (b : Bytes) (start n v : Nat) :
    word (setWord b start n v) start n = v % 256 ^ n := by
  refine word_of_digits fun i hi => ?_
  rw [setWord, if_pos (by omega), Nat.add_sub_cancel_left]

theorem setWord_of_notMem (h : k ∉ (⟨start, n⟩ : Region).addresses) :
    setWord b start n v k = b k :=
  if_neg h

theorem setBytes_of_notMem (h : k ∉ (⟨start, data.length⟩ : Region).addresses) :
    setBytes b start data k = b k :=
  if_neg h

theorem setBytes_at {i : Nat} (h : i < data.length) :
    setBytes b start data (start + i) = data.getD i 0 := by
  rw [setBytes, if_pos (by omega), Nat.add_sub_cancel_left]

theorem word_setWord_of_disjoint {start' n' : Nat} (h : start + n ≤ start' ∨ start' + n' ≤ start) :
    word (setWord b start' n' v) start n = word b start n :=
  word_congr fun k _ _ => if_neg (by omega)

theorem word_setBytes_of_disjoint {start' : Nat}
    (h : start + n ≤ start' ∨ start' + data.length ≤ start) :
    word (setBytes b start' data) start n = word b start n :=
  word_congr fun k _ _ => if_neg (by omega)

end Words

section Rules

variable {α β : Type} {s : Traced} {p : Prog α} {f : α → Prog β}

/-- What a program does from a state: its result and the state it leaves satisfy `Q`. -/
def Ensures (p : Prog α) (s : Traced) (Q : α → Traced → Prop) : Prop := Q (p.run s).1 (p.run s).2

theorem Ensures.pure {a : α} {Q : α → Traced → Prop} (h : Q a s) : Ensures (Pure.pure a) s Q := h

theorem Ensures.bind {R : α → Traced → Prop} {Q : β → Traced → Prop} (hp : Ensures p s R)
    (hf : ∀ a t, R a t → Ensures (f a) t Q) : Ensures (p >>= f) s Q :=
  hf _ _ hp

theorem Ensures.mono {Q R : α → Traced → Prop} (hp : Ensures p s R) (h : ∀ a t, R a t → Q a t) :
    Ensures p s Q :=
  h _ _ hp

end Rules

section Footprints

variable {A A' W W' : Set Nat} {s t u : Traced} {start n v : Nat} {data : List UInt8}

theorem Touches.refl (s : Traced) : Touches A W s s :=
  ⟨⟨[], (List.append_nil _).symm, nofun⟩, fun _ _ => rfl⟩

theorem Touches.trans (h : Touches A W s t) (h' : Touches A W t u) : Touches A W s u := by
  obtain ⟨⟨new, htrace, hnew⟩, hkept⟩ := h
  obtain ⟨⟨new', htrace', hnew'⟩, hkept'⟩ := h'
  refine ⟨⟨new ++ new', by rw [htrace', htrace, List.append_assoc], fun a ha => ?_⟩, ?_⟩
  · exact (List.mem_append.mp ha).elim (hnew a) (hnew' a)
  · exact fun k hk => (hkept' k hk).trans (hkept k hk)

theorem Touches.mono (h : Touches A W s t) (hA : A ⊆ A') (hW : W ⊆ W') : Touches A' W' s t := by
  obtain ⟨⟨new, htrace, hnew⟩, hkept⟩ := h
  refine ⟨⟨new, htrace, fun a ha => (hnew a ha).trans hA⟩, fun k hk => hkept k ?_⟩
  exact fun hk' => hk (hW hk')

theorem Touches.trans_union (h : Touches A W s t) (h' : Touches A W' t u) :
    Touches A (W ∪ W') s u :=
  (h.mono subset_rfl Set.subset_union_left).trans (h'.mono subset_rfl Set.subset_union_right)

/-- Reads before a program add nothing to what it changes. -/
theorem Touches.after_reads (h : Touches A ∅ s t) (h' : Touches A W t u) : Touches A W s u :=
  (h.mono subset_rfl (Set.empty_subset W)).trans h'

theorem Touches.accesses {bytes : Bytes} (h : Touches A W ⟨bytes, []⟩ t) :
    ∀ access ∈ t.trace, access.region.addresses ⊆ A := by
  obtain ⟨new, htrace, hnew⟩ := h.accessed
  intro access haccess
  rw [htrace, List.nil_append] at haccess
  exact hnew access haccess

theorem Touches.mem_of_changed (h : Touches A W s t) {k : Nat} (hk : t.bytes k ≠ s.bytes k) :
    k ∈ W :=
  by_contra fun hout => hk (h.kept k hout)

theorem ensures_load (hA : (⟨start, n⟩ : Region).addresses ⊆ A) :
    Ensures (load start n) s fun v t =>
      v = word s.bytes start n ∧ t.bytes = s.bytes ∧ Touches A ∅ s t :=
  ⟨rfl, rfl, ⟨[.read ⟨start, n⟩], rfl, by simpa [Access.region] using hA⟩, fun _ _ => rfl⟩

theorem ensures_loadBytes (hA : (⟨start, n⟩ : Region).addresses ⊆ A) :
    Ensures (loadBytes start n) s fun data t =>
      data = (List.range n).map (fun i => s.bytes (start + i)) ∧ t.bytes = s.bytes ∧
        Touches A ∅ s t :=
  ⟨rfl, rfl, ⟨[.read ⟨start, n⟩], rfl, by simpa [Access.region] using hA⟩, fun _ _ => rfl⟩

theorem ensures_store (hA : (⟨start, n⟩ : Region).addresses ⊆ A)
    (hW : (⟨start, n⟩ : Region).addresses ⊆ W) :
    Ensures (store start n v) s fun _ t =>
      t.bytes = setWord s.bytes start n v ∧ Touches A W s t :=
  ⟨rfl, ⟨[.write ⟨start, n⟩], rfl, by simpa [Access.region] using hA⟩,
    fun _ hk => setWord_of_notMem fun hk' => hk (hW hk')⟩

theorem ensures_storeBytes (hA : (⟨start, data.length⟩ : Region).addresses ⊆ A)
    (hW : (⟨start, data.length⟩ : Region).addresses ⊆ W) :
    Ensures (storeBytes start data) s fun _ t =>
      t.bytes = setBytes s.bytes start data ∧ Touches A W s t :=
  ⟨rfl, ⟨[.write ⟨start, data.length⟩], rfl, by simpa [Access.region] using hA⟩,
    fun _ hk => setBytes_of_notMem fun hk' => hk (hW hk')⟩

/-- A compare-and-exchange that wins has found the expected word; one that loses has changed
nothing. -/
theorem ensures_compareExchangeWeak {expected desired : Nat} {spurious : Bool}
    (hA : (⟨start, n⟩ : Region).addresses ⊆ A) (hW : (⟨start, n⟩ : Region).addresses ⊆ W) :
    Ensures (compareExchangeWeak start n expected desired spurious) s fun r t =>
      r.2 = word s.bytes start n ∧
        if r.1 then r.2 = expected ∧ spurious = false ∧
          t.bytes = setWord s.bytes start n desired ∧ Touches A W s t
        else (r.2 = expected → spurious = true) ∧ t.bytes = s.bytes ∧ Touches A ∅ s t := by
  refine (ensures_load hA).bind fun found t ⟨hfound, hbytes, htouches⟩ => ?_
  by_cases h : found = expected ∧ spurious = false
  · rw [if_pos h]
    refine (ensures_store hA hW).bind fun _ u ⟨hstored, hstore⟩ => .pure ⟨hfound, ?_⟩
    refine ⟨h.1, h.2, hbytes ▸ hstored, htouches.after_reads hstore⟩
  · rw [if_neg h]
    refine .pure ⟨hfound, fun he => ?_, hbytes, htouches⟩
    exact Bool.not_eq_false _ ▸ not_and.mp h he

end Footprints

end Memory
