import Shmfx.Lib.ViewMemory
import Shmfx.Ring.Delivery

/-! `try_push` and `try_pop` with the memory orders of the source: loads of the atomic words may
return stale messages, and only acquiring loads of releasing stores order the accesses to the
records. -/
namespace Shmfx

open Word Window Lts ViewMemory

universe u

/-- The atomic words of a ring. -/
inductive RingWord
  | tail
  | head
  | lost
  | seq (i : Nat)
  deriving DecidableEq

def Ring.word (r : Ring) : RingWord → Nat
  | .tail => r.tail
  | .head => r.head
  | .lost => r.ringMeta.lostCount
  | .seq i => r.seq i

/-- The threads are the producers and, as `none`, the consumer; the plain data are the slots'
records, each taken as a whole. -/
abbrev RingMemory (P : Type u) := Memory RingWord Nat (Option P)

abbrev RingView := View RingWord Nat

/-- The ring as last stored, with the messages and views that say what can be loaded. -/
structure WeakRing (P : Type u) where
  config : RingConfig P
  memory : RingMemory P
  views : Option P → RingView

variable {P : Type u}

/-- The initialised ring, as every participant finds it. -/
def WeakRing.initial (r : Ring) : WeakRing P where
  config := .initial r
  memory := ⟨fun l t => if t = 0 then some ⟨r.word l, .bot⟩ else none, fun _ => []⟩
  views _ := .bot

/-- One access of `try_push` by `p` with the order the source gives it. A failed CAS is a relaxed
load. -/
inductive WeakPushStep (p : P) (r : Ring) (m : RingMemory P) (V : RingView) :
    PushPc → PushEvent → Ring → RingMemory P → RingView → PushPc → Prop
  | call (a : Push) : WeakPushStep p r m V .idle (.call a) r m V (.enter a)
  | enter {a : Push} (h : validMeta r.ringMeta = true) :
      WeakPushStep p r m V (.enter a) .tau r m V (.loadTail a)
  | reject {a : Push} (h : validMeta r.ringMeta = false) :
      WeakPushStep p r m V (.enter a) (.rejected a) r m V .idle
  | loadTail {a : Push} {v : Nat} {V' : RingView} (h : Loads m .relaxed V .tail v V') :
      WeakPushStep p r m V (.loadTail a) .tau r m V' (loopHead a v 0)
  | seqFree {a : Push} {pos retry s : Nat} {V' : RingView}
      (h : Loads m .acquire V (.seq (r.slot pos)) s V') (hd : diff64 s pos = 0) :
      WeakPushStep p r m V (.loadSeq a pos retry) .tau r m V' (.compareExchange a pos retry)
  | seqFull {a : Push} {pos retry s : Nat} {V' : RingView}
      (h : Loads m .acquire V (.seq (r.slot pos)) s V') (hd : diff64 s pos < 0) :
      WeakPushStep p r m V (.loadSeq a pos retry) (.full a pos) r m V' (.addLost a)
  | seqAhead {a : Push} {pos retry s : Nat} {V' : RingView}
      (h : Loads m .acquire V (.seq (r.slot pos)) s V') (hd : 0 < diff64 s pos) :
      WeakPushStep p r m V (.loadSeq a pos retry) .tau r m V' (.reloadTail a retry)
  | claim {a : Push} {pos retry : Nat} {m' : RingMemory P} {V' : RingView}
      (h : Updates m .acqRel V .tail (u64 (pos + 1)) pos m' V') :
      WeakPushStep p r m V (.compareExchange a pos retry) (.claim a pos)
        (r.setTail (u64 (pos + 1))) m' V' (.storeLen a pos)
  | casFail {a : Push} {pos retry v : Nat} {V' : RingView} (h : Loads m .relaxed V .tail v V') :
      WeakPushStep p r m V (.compareExchange a pos retry) .tau r m V' (loopHead a v (retry + 1))
  | reloadTail {a : Push} {retry v : Nat} {V' : RingView} (h : Loads m .relaxed V .tail v V') :
      WeakPushStep p r m V (.reloadTail a retry) .tau r m V' (loopHead a v (retry + 1))
  | addLost {a : Push} {v : Nat} {m' : RingMemory P} {V' : RingView}
      (h : Updates m .relaxed V .lost (u64 (v + 1)) v m' V') :
      WeakPushStep p r m V (.addLost a) (.dropped a) r.addLost m' V' .idle
  | storeLen {a : Push} {pos : Nat} :
      WeakPushStep p r m V (.storeLen a pos) .tau
        (r.storeLen (r.slot pos) (a.written r.ringMeta.maxPayload))
        (m.touch (some p) (r.slot pos) true) (m.mark V (r.slot pos)) (.storeType a pos)
  | storeType {a : Push} {pos : Nat} :
      WeakPushStep p r m V (.storeType a pos) .tau (r.storeType (r.slot pos) a.type)
        (m.touch (some p) (r.slot pos) true) (m.mark V (r.slot pos)) (.storeFlags a pos)
  | storeFlags {a : Push} {pos : Nat} :
      WeakPushStep p r m V (.storeFlags a pos) .tau
        (r.storeFlags (r.slot pos) (a.storedFlags r.ringMeta.maxPayload))
        (m.touch (some p) (r.slot pos) true) (m.mark V (r.slot pos)) (.storeUser a pos)
  | storeUser {a : Push} {pos : Nat} :
      WeakPushStep p r m V (.storeUser a pos) .tau (r.storeUser (r.slot pos) a.user)
        (m.touch (some p) (r.slot pos) true) (m.mark V (r.slot pos))
        (.copy a pos (Finset.range (a.written r.ringMeta.maxPayload)))
  | copyByte {a : Push} {pos j : Nat} {todo : Finset Nat} (h : j ∈ todo) :
      WeakPushStep p r m V (.copy a pos todo) .tau
        (r.storeByte (r.slot pos) j (a.payload.getD j 0))
        (m.touch (some p) (r.slot pos) true) (m.mark V (r.slot pos)) (.copy a pos (todo.erase j))
  | copyDone {a : Push} {pos : Nat} :
      WeakPushStep p r m V (.copy a pos ∅) .tau r m V (.publish a pos)
  | publish {a : Push} {pos : Nat} {m' : RingMemory P} {V' : RingView}
      (h : Stores m .release V (.seq (r.slot pos)) (u64 (pos + 1)) m' V') :
      WeakPushStep p r m V (.publish a pos) (.pushed a)
        (r.setSeq (r.slot pos) (u64 (pos + 1))) m' V' .idle

/-- One access of `try_pop`. -/
inductive WeakPopStep (r : Ring) (m : RingMemory P) (V : RingView) :
    PopPc → PopEvent → Ring → RingMemory P → RingView → PopPc → Prop
  | call (out : List UInt8) : WeakPopStep r m V .idle (.call out) r m V (.enter out)
  | enter {out : List UInt8} (h : validMeta r.ringMeta = true) :
      WeakPopStep r m V (.enter out) .tau r m V (.loadHead out)
  | reject {out : List UInt8} (h : validMeta r.ringMeta = false) :
      WeakPopStep r m V (.enter out) .empty r m V .idle
  | loadHead {out : List UInt8} {v : Nat} {V' : RingView} (h : Loads m .relaxed V .head v V') :
      WeakPopStep r m V (.loadHead out) .tau r m V' (.loadSeq out v)
  | seqReady {out : List UInt8} {pos : Nat} {V' : RingView}
      (h : Loads m .acquire V (.seq (r.slot pos)) (u64 (pos + 1)) V') :
      WeakPopStep r m V (.loadSeq out pos) .tau r m V' (.loadLen out pos)
  | seqOther {out : List UInt8} {pos s : Nat} {V' : RingView}
      (h : Loads m .acquire V (.seq (r.slot pos)) s V') (hs : s ≠ u64 (pos + 1)) :
      WeakPopStep r m V (.loadSeq out pos) .empty r m V' .idle
  | loadLen {out : List UInt8} {pos payloadSize : Nat}
      (h : payloadSize = min (r.record (r.slot pos)).len r.ringMeta.maxPayload) :
      WeakPopStep r m V (.loadLen out pos) .tau r
        (m.touch none (r.slot pos) false) (m.mark V (r.slot pos))
        (.copy out pos payloadSize (Finset.range (min out.length payloadSize)))
  | copyByte {out : List UInt8} {pos payloadSize j : Nat} {todo : Finset Nat} (h : j ∈ todo) :
      WeakPopStep r m V (.copy out pos payloadSize todo) .tau r
        (m.touch none (r.slot pos) false) (m.mark V (r.slot pos))
        (.copy (out.set j ((r.record (r.slot pos)).bytes j)) pos payloadSize (todo.erase j))
  | copyDone {out : List UInt8} {pos payloadSize : Nat} :
      WeakPopStep r m V (.copy out pos payloadSize ∅) .tau r m V (.loadType out pos payloadSize)
  | loadType {out : List UInt8} {pos payloadSize : Nat} :
      WeakPopStep r m V (.loadType out pos payloadSize) .tau r
        (m.touch none (r.slot pos) false) (m.mark V (r.slot pos))
        (.loadFlags out pos payloadSize (r.record (r.slot pos)).type)
  | loadFlags {out : List UInt8} {pos payloadSize : Nat} {type : UInt16} :
      WeakPopStep r m V (.loadFlags out pos payloadSize type) .tau r
        (m.touch none (r.slot pos) false) (m.mark V (r.slot pos))
        (.loadUser out pos payloadSize type (r.record (r.slot pos)).flags)
  | loadUser {out : List UInt8} {pos payloadSize : Nat} {type flags : UInt16} :
      WeakPopStep r m V (.loadUser out pos payloadSize type flags) .tau r
        (m.touch none (r.slot pos) false) (m.mark V (r.slot pos))
        (.releaseSlot out pos
          ⟨type, flags, (r.record (r.slot pos)).user, payloadSize, min out.length payloadSize⟩)
  | releaseSlot {out : List UInt8} {pos : Nat} {popped : PoppedRecord} {m' : RingMemory P}
      {V' : RingView}
      (h : Stores m .release V (.seq (r.slot pos)) (u64 (pos + r.ringMeta.recordMax)) m' V') :
      WeakPopStep r m V (.releaseSlot out pos popped) .tau
        (r.setSeq (r.slot pos) (u64 (pos + r.ringMeta.recordMax))) m' V'
        (.releaseHead out pos popped)
  | releaseHead {out : List UInt8} {pos : Nat} {popped : PoppedRecord} {m' : RingMemory P}
      {V' : RingView} (h : Stores m .release V .head (u64 (pos + 1)) m' V') :
      WeakPopStep r m V (.releaseHead out pos popped) (.popped popped out)
        (r.setHead (u64 (pos + 1))) m' V' .idle

variable [DecidableEq P]

def WeakRing.afterPush (c : WeakRing P) (p : P) (r : Ring) (m : RingMemory P) (V : RingView)
    (pc : PushPc) : WeakRing P :=
  ⟨⟨r, Function.update c.config.producers p pc, c.config.consumer⟩, m,
    Function.update c.views (some p) V⟩

def WeakRing.afterPop (c : WeakRing P) (r : Ring) (m : RingMemory P) (V : RingView)
    (pc : PopPc) : WeakRing P :=
  ⟨⟨r, c.config.producers, pc⟩, m, Function.update c.views none V⟩

/-- Any participant may take its next access at any time. -/
inductive WeakStep : WeakRing P → RingEvent P → WeakRing P → Prop
  | push {c : WeakRing P} {p : P} {e : PushEvent} {r : Ring} {m : RingMemory P} {V : RingView}
      {pc : PushPc}
      (h : WeakPushStep p c.config.ring c.memory (c.views (some p)) (c.config.producers p) e r m V
        pc) : WeakStep c (.push p e) (c.afterPush p r m V pc)
  | pop {c : WeakRing P} {e : PopEvent} {r : Ring} {m : RingMemory P} {V : RingView} {pc : PopPc}
      (h : WeakPopStep c.config.ring c.memory (c.views none) c.config.consumer e r m V pc) :
      WeakStep c (.pop e) (c.afterPop r m V pc)

/-- Everything stored last can be loaded at once by everybody. -/
def WeakRing.Current (c : WeakRing P) : Prop :=
  ViewMemory.Current c.config.ring.word c.memory c.views

section Interleavings

variable {c : WeakRing P} {p : P} {r : Ring} {log : List (RingEvent P)} {d : RingConfig P}

theorem Ring.word_setTail (r : Ring) (v : Nat) :
    (r.setTail v).word = Function.update r.word .tail v := by
  funext l
  cases l <;> rfl

theorem Ring.word_setHead (r : Ring) (v : Nat) :
    (r.setHead v).word = Function.update r.word .head v := by
  funext l
  cases l <;> rfl

theorem Ring.word_addLost (r : Ring) :
    r.addLost.word = Function.update r.word .lost (u64 (r.ringMeta.lostCount + 1)) := by
  funext l
  cases l <;> rfl

theorem Ring.word_setSeq (r : Ring) (i v : Nat) :
    (r.setSeq i v).word = Function.update r.word (.seq i) v := by
  funext l
  cases l with
  | seq j =>
    by_cases hj : j = i
    · subst hj
      simp [Ring.word, Ring.setSeq]
    · simp [Ring.word, Ring.setSeq, hj]
  | _ => rfl

theorem Ring.word_setRecord (r : Ring) (i : Nat) (cell : RingRecord) :
    (r.setRecord i cell).word = r.word := by
  funext l
  cases l <;> rfl

omit [DecidableEq P] in
theorem current_initial (r : Ring) : (.initial r : WeakRing P).Current := by
  refine ⟨fun _ => 0, fun l => ⟨.bot, rfl⟩, fun l t ht => if_neg ht.ne', fun _ _ => le_rfl, ?_⟩
  intro l t msg hmsg l'
  simp only [WeakRing.initial] at hmsg
  split_ifs at hmsg
  cases hmsg
  exact le_rfl

/-- Every access of `try_push` can be made to load what was stored last. -/
theorem weakPushStep_of_pushStep {e : PushEvent} {pc : PushPc} (h : c.Current)
    (hs : PushStep c.config.ring (c.config.producers p) e r pc) :
    ∃ mem V, WeakPushStep p c.config.ring c.memory (c.views (some p)) (c.config.producers p) e r
      mem V pc ∧ (c.afterPush p r mem V pc).Current := by
  have hquiet : ∀ pc, (c.afterPush p c.config.ring c.memory (c.views (some p)) pc).Current := by
    intro pc
    simpa [WeakRing.Current, WeakRing.afterPush] using h
  have htouch : ∀ {i : Nat} {r : Ring} (pc : PushPc), r.word = c.config.ring.word →
      (c.afterPush p r (c.memory.touch (some p) i true) (c.memory.mark (c.views (some p)) i)
        pc).Current := by
    intro i r pc hword
    have := ViewMemory.Current.touch h (some p) i true
    rwa [← hword] at this
  generalize c.config.producers p = pc₀ at hs
  cases hs with
  | call a => exact ⟨_, _, .call a, hquiet _⟩
  | enter hv => exact ⟨_, _, .enter hv, hquiet _⟩
  | reject hv => exact ⟨_, _, .reject hv, hquiet _⟩
  | loadTail =>
    obtain ⟨V, hl, hc⟩ := h.loads (some p) .relaxed .tail
    exact ⟨_, V, .loadTail hl, hc⟩
  | casFail =>
    obtain ⟨V, hl, hc⟩ := h.loads (some p) .relaxed .tail
    exact ⟨_, V, .casFail hl, hc⟩
  | reloadTail =>
    obtain ⟨V, hl, hc⟩ := h.loads (some p) .relaxed .tail
    exact ⟨_, V, .reloadTail hl, hc⟩
  | seqFree hd =>
    obtain ⟨V, hl, hc⟩ := h.loads (some p) .acquire (.seq _)
    exact ⟨_, V, .seqFree hl hd, hc⟩
  | seqFull hd =>
    obtain ⟨V, hl, hc⟩ := h.loads (some p) .acquire (.seq _)
    exact ⟨_, V, .seqFull hl hd, hc⟩
  | seqAhead hd =>
    obtain ⟨V, hl, hc⟩ := h.loads (some p) .acquire (.seq _)
    exact ⟨_, V, .seqAhead hl hd, hc⟩
  | @claim a pos retry ht =>
    obtain ⟨mem, V, hu, hc⟩ := h.updates (some p) .acqRel .tail (u64 (pos + 1))
    rw [← Ring.word_setTail] at hc
    exact ⟨mem, V, .claim (ht ▸ hu), hc⟩
  | addLost =>
    obtain ⟨mem, V, hu, hc⟩ :=
      h.updates (some p) .relaxed .lost (u64 (c.config.ring.ringMeta.lostCount + 1))
    rw [← Ring.word_addLost] at hc
    exact ⟨mem, V, .addLost hu, hc⟩
  | storeLen => exact ⟨_, _, .storeLen, htouch _ (Ring.word_setRecord ..)⟩
  | storeType => exact ⟨_, _, .storeType, htouch _ (Ring.word_setRecord ..)⟩
  | storeFlags => exact ⟨_, _, .storeFlags, htouch _ (Ring.word_setRecord ..)⟩
  | storeUser => exact ⟨_, _, .storeUser, htouch _ (Ring.word_setRecord ..)⟩
  | copyByte hj => exact ⟨_, _, .copyByte hj, htouch _ (Ring.word_setRecord ..)⟩
  | copyDone => exact ⟨_, _, .copyDone, hquiet _⟩
  | @publish a pos =>
    obtain ⟨mem, V, hst, hc⟩ := h.stores (some p) .release (.seq (c.config.ring.slot pos))
      (u64 (pos + 1))
    rw [← Ring.word_setSeq] at hc
    exact ⟨mem, V, .publish hst, hc⟩

theorem weakPopStep_of_popStep {e : PopEvent} {pc : PopPc} (h : c.Current)
    (hs : PopStep c.config.ring c.config.consumer e r pc) :
    ∃ mem V, WeakPopStep c.config.ring c.memory (c.views none) c.config.consumer e r mem V pc ∧
      (c.afterPop r mem V pc).Current := by
  have hquiet : ∀ pc, (c.afterPop c.config.ring c.memory (c.views none) pc).Current := by
    intro pc
    simpa [WeakRing.Current, WeakRing.afterPop] using h
  have htouch : ∀ (i : Nat) (pc : PopPc), (c.afterPop c.config.ring (c.memory.touch none i false)
      (c.memory.mark (c.views none) i) pc).Current :=
    fun i _ => ViewMemory.Current.touch h none i false
  generalize c.config.consumer = pc₀ at hs
  cases hs with
  | call out => exact ⟨_, _, .call out, hquiet _⟩
  | enter hv => exact ⟨_, _, .enter hv, hquiet _⟩
  | reject hv => exact ⟨_, _, .reject hv, hquiet _⟩
  | loadHead =>
    obtain ⟨V, hl, hc⟩ := h.loads none .relaxed .head
    exact ⟨_, V, .loadHead hl, hc⟩
  | @seqReady out pos hseq =>
    obtain ⟨V, hl, hc⟩ := h.loads none .acquire (.seq (c.config.ring.slot pos))
    exact ⟨_, V, .seqReady (hseq ▸ hl), hc⟩
  | seqOther hseq =>
    obtain ⟨V, hl, hc⟩ := h.loads none .acquire (.seq _)
    exact ⟨_, V, .seqOther hl hseq, hc⟩
  | loadLen hsize => exact ⟨_, _, .loadLen hsize, htouch _ _⟩
  | copyByte hj => exact ⟨_, _, .copyByte hj, htouch _ _⟩
  | copyDone => exact ⟨_, _, .copyDone, hquiet _⟩
  | loadType => exact ⟨_, _, .loadType, htouch _ _⟩
  | loadFlags => exact ⟨_, _, .loadFlags, htouch _ _⟩
  | loadUser => exact ⟨_, _, .loadUser, htouch _ _⟩
  | @releaseSlot out pos popped =>
    obtain ⟨mem, V, hst, hc⟩ := h.stores none .release (.seq (c.config.ring.slot pos))
      (u64 (pos + c.config.ring.ringMeta.recordMax))
    rw [← Ring.word_setSeq] at hc
    exact ⟨mem, V, .releaseSlot hst, hc⟩
  | @releaseHead out pos popped =>
    obtain ⟨mem, V, hst, hc⟩ := h.stores none .release .head (u64 (pos + 1))
    rw [← Ring.word_setHead] at hc
    exact ⟨mem, V, .releaseHead hst, hc⟩

/-- Every interleaving of accesses that take effect at once is among the runs. -/
theorem weak_of_atomic (hrun : Run RingStep (.initial r) log d) :
    ∃ c : WeakRing P, Run WeakStep (.initial r) log c ∧ c.config = d ∧ c.Current := by
  induction hrun with
  | nil => exact ⟨_, .nil, rfl, current_initial r⟩
  | snoc _ hs ih =>
    obtain ⟨c, hc, rfl, hcurrent⟩ := ih
    cases hs with
    | push hs =>
      obtain ⟨mem, V, hweak, hcurrent⟩ := weakPushStep_of_pushStep hcurrent hs
      exact ⟨_, hc.snoc (.push hweak), rfl, hcurrent⟩
    | pop hs =>
      obtain ⟨mem, V, hweak, hcurrent⟩ := weakPopStep_of_popStep hcurrent hs
      exact ⟨_, hc.snoc (.pop hweak), rfl, hcurrent⟩

end Interleavings

end Shmfx
