import Mathlib.Data.Finset.Basic
import Mathlib.Data.Finset.Range
import Shmfx.Lib.Lts
import Shmfx.Ring.Sequential

/-! The ring under any number of producers and one consumer, one shared access per step. -/
namespace Shmfx

open Word

universe u

/-- Where a producer stands inside `try_push`; `pos` and `retry` are its locals, and `todo` holds
the payload offsets its `memcpy` has not stored yet. -/
inductive PushPc
  | idle
  | enter (a : Push)
  | loadTail (a : Push)
  | loadSeq (a : Push) (pos retry : Nat)
  | compareExchange (a : Push) (pos retry : Nat)
  | reloadTail (a : Push) (retry : Nat)
  | addLost (a : Push)
  | storeLen (a : Push) (pos : Nat)
  | storeType (a : Push) (pos : Nat)
  | storeFlags (a : Push) (pos : Nat)
  | storeUser (a : Push) (pos : Nat)
  | copy (a : Push) (pos : Nat) (todo : Finset Nat)
  | publish (a : Push) (pos : Nat)

inductive PushEvent
  | tau
  | call (a : Push)
  | claim (a : Push) (pos : Nat)
  | full (a : Push) (pos : Nat)
  | pushed (a : Push)
  | dropped (a : Push)
  | rejected (a : Push)

def PushEvent.called : PushEvent → Option Push
  | .call a => some a
  | _ => none

/-- A finished call and whether it pushed its record. -/
def PushEvent.returned : PushEvent → Option (Push × Bool)
  | .pushed a => some (a, true)
  | .dropped a | .rejected a => some (a, false)
  | _ => none

def PushEvent.claimed : PushEvent → Option Push
  | .claim a _ => some a
  | _ => none

/-- The loop test: out of budget, the record is dropped without another look at the ring. -/
def loopHead (a : Push) (pos retry : Nat) : PushPc :=
  if retry < mpscCasRetryBudget then .loadSeq a pos retry else .addLost a

def Ring.storeLen (r : Ring) (i v : Nat) : Ring := r.setRecord i { r.record i with len := v }

def Ring.storeType (r : Ring) (i : Nat) (v : UInt16) : Ring :=
  r.setRecord i { r.record i with type := v }

def Ring.storeFlags (r : Ring) (i : Nat) (v : UInt16) : Ring :=
  r.setRecord i { r.record i with flags := v }

def Ring.storeUser (r : Ring) (i : Nat) (v : UInt64) : Ring :=
  r.setRecord i { r.record i with user := v }

def Ring.storeByte (r : Ring) (i j : Nat) (v : UInt8) : Ring :=
  r.setRecord i { r.record i with bytes := Function.update (r.record i).bytes j v }

/-- One atomic access of `try_push`. A weak CAS may also fail on an unmoved tail. -/
inductive PushStep (r : Ring) : PushPc → PushEvent → Ring → PushPc → Prop
  | call (a : Push) : PushStep r .idle (.call a) r (.enter a)
  | enter {a : Push} (h : validMeta r.ringMeta = true) :
      PushStep r (.enter a) .tau r (.loadTail a)
  | reject {a : Push} (h : validMeta r.ringMeta = false) :
      PushStep r (.enter a) (.rejected a) r .idle
  | loadTail {a : Push} : PushStep r (.loadTail a) .tau r (loopHead a r.tail 0)
  | seqFree {a : Push} {pos retry : Nat} (h : diff64 (r.seq (r.slot pos)) pos = 0) :
      PushStep r (.loadSeq a pos retry) .tau r (.compareExchange a pos retry)
  | seqFull {a : Push} {pos retry : Nat} (h : diff64 (r.seq (r.slot pos)) pos < 0) :
      PushStep r (.loadSeq a pos retry) (.full a pos) r (.addLost a)
  | seqAhead {a : Push} {pos retry : Nat} (h : 0 < diff64 (r.seq (r.slot pos)) pos) :
      PushStep r (.loadSeq a pos retry) .tau r (.reloadTail a retry)
  | claim {a : Push} {pos retry : Nat} (h : r.tail = pos) :
      PushStep r (.compareExchange a pos retry) (.claim a pos)
        (r.setTail (u64 (pos + 1))) (.storeLen a pos)
  | casFail {a : Push} {pos retry : Nat} :
      PushStep r (.compareExchange a pos retry) .tau r (loopHead a r.tail (retry + 1))
  | reloadTail {a : Push} {retry : Nat} :
      PushStep r (.reloadTail a retry) .tau r (loopHead a r.tail (retry + 1))
  | addLost {a : Push} : PushStep r (.addLost a) (.dropped a) r.addLost .idle
  | storeLen {a : Push} {pos : Nat} :
      PushStep r (.storeLen a pos) .tau
        (r.storeLen (r.slot pos) (a.written r.ringMeta.maxPayload)) (.storeType a pos)
  | storeType {a : Push} {pos : Nat} :
      PushStep r (.storeType a pos) .tau (r.storeType (r.slot pos) a.type) (.storeFlags a pos)
  | storeFlags {a : Push} {pos : Nat} :
      PushStep r (.storeFlags a pos) .tau
        (r.storeFlags (r.slot pos) (a.storedFlags r.ringMeta.maxPayload)) (.storeUser a pos)
  | storeUser {a : Push} {pos : Nat} :
      PushStep r (.storeUser a pos) .tau (r.storeUser (r.slot pos) a.user)
        (.copy a pos (Finset.range (a.written r.ringMeta.maxPayload)))
  | copyByte {a : Push} {pos j : Nat} {todo : Finset Nat} (h : j ∈ todo) :
      PushStep r (.copy a pos todo) .tau (r.storeByte (r.slot pos) j (a.payload.getD j 0))
        (.copy a pos (todo.erase j))
  | copyDone {a : Push} {pos : Nat} : PushStep r (.copy a pos ∅) .tau r (.publish a pos)
  | publish {a : Push} {pos : Nat} :
      PushStep r (.publish a pos) (.pushed a) (r.setSeq (r.slot pos) (u64 (pos + 1))) .idle

/-- Where the consumer stands inside `try_pop`; `out` is the caller's buffer as filled so far. -/
inductive PopPc
  | idle
  | enter (out : List UInt8)
  | loadHead (out : List UInt8)
  | loadSeq (out : List UInt8) (pos : Nat)
  | loadLen (out : List UInt8) (pos : Nat)
  | copy (out : List UInt8) (pos payloadSize : Nat) (todo : Finset Nat)
  | loadType (out : List UInt8) (pos payloadSize : Nat)
  | loadFlags (out : List UInt8) (pos payloadSize : Nat) (type : UInt16)
  | loadUser (out : List UInt8) (pos payloadSize : Nat) (type flags : UInt16)
  | releaseSlot (out : List UInt8) (pos : Nat) (popped : PoppedRecord)
  | releaseHead (out : List UInt8) (pos : Nat) (popped : PoppedRecord)

inductive PopEvent
  | tau
  | call (out : List UInt8)
  | popped (popped : PoppedRecord) (out : List UInt8)
  | empty

/-- What a finished `try_pop` returned. -/
def PopEvent.returned : PopEvent → Option (Option (PoppedRecord × List UInt8))
  | .popped x out => some (some (x, out))
  | .empty => some none
  | _ => none

/-- One atomic access of `try_pop`. -/
inductive PopStep (r : Ring) : PopPc → PopEvent → Ring → PopPc → Prop
  | call (out : List UInt8) : PopStep r .idle (.call out) r (.enter out)
  | enter {out : List UInt8} (h : validMeta r.ringMeta = true) :
      PopStep r (.enter out) .tau r (.loadHead out)
  | reject {out : List UInt8} (h : validMeta r.ringMeta = false) :
      PopStep r (.enter out) .empty r .idle
  | loadHead {out : List UInt8} : PopStep r (.loadHead out) .tau r (.loadSeq out r.head)
  | seqReady {out : List UInt8} {pos : Nat} (h : r.seq (r.slot pos) = u64 (pos + 1)) :
      PopStep r (.loadSeq out pos) .tau r (.loadLen out pos)
  | seqOther {out : List UInt8} {pos : Nat} (h : r.seq (r.slot pos) ≠ u64 (pos + 1)) :
      PopStep r (.loadSeq out pos) .empty r .idle
  | loadLen {out : List UInt8} {pos payloadSize : Nat}
      (h : payloadSize = min (r.record (r.slot pos)).len r.ringMeta.maxPayload) :
      PopStep r (.loadLen out pos) .tau r
        (.copy out pos payloadSize (Finset.range (min out.length payloadSize)))
  | copyByte {out : List UInt8} {pos payloadSize j : Nat} {todo : Finset Nat} (h : j ∈ todo) :
      PopStep r (.copy out pos payloadSize todo) .tau r
        (.copy (out.set j ((r.record (r.slot pos)).bytes j)) pos payloadSize (todo.erase j))
  | copyDone {out : List UInt8} {pos payloadSize : Nat} :
      PopStep r (.copy out pos payloadSize ∅) .tau r (.loadType out pos payloadSize)
  | loadType {out : List UInt8} {pos payloadSize : Nat} :
      PopStep r (.loadType out pos payloadSize) .tau r
        (.loadFlags out pos payloadSize (r.record (r.slot pos)).type)
  | loadFlags {out : List UInt8} {pos payloadSize : Nat} {type : UInt16} :
      PopStep r (.loadFlags out pos payloadSize type) .tau r
        (.loadUser out pos payloadSize type (r.record (r.slot pos)).flags)
  | loadUser {out : List UInt8} {pos payloadSize : Nat} {type flags : UInt16} :
      PopStep r (.loadUser out pos payloadSize type flags) .tau r
        (.releaseSlot out pos
          ⟨type, flags, (r.record (r.slot pos)).user, payloadSize, min out.length payloadSize⟩)
  | releaseSlot {out : List UInt8} {pos : Nat} {popped : PoppedRecord} :
      PopStep r (.releaseSlot out pos popped) .tau
        (r.setSeq (r.slot pos) (u64 (pos + r.ringMeta.recordMax))) (.releaseHead out pos popped)
  | releaseHead {out : List UInt8} {pos : Nat} {popped : PoppedRecord} :
      PopStep r (.releaseHead out pos popped) (.popped popped out)
        (r.setHead (u64 (pos + 1))) .idle

/-- The shared ring with every participant's position in its own call. -/
structure RingConfig (P : Type u) where
  ring : Ring
  producers : P → PushPc
  consumer : PopPc

def RingConfig.initial {P : Type u} (r : Ring) : RingConfig P := ⟨r, fun _ => .idle, .idle⟩

inductive RingEvent (P : Type u)
  | push (p : P) (e : PushEvent)
  | pop (e : PopEvent)

variable {P : Type u}

/-- Any participant may take its next access at any time. -/
inductive RingStep [DecidableEq P] : RingConfig P → RingEvent P → RingConfig P → Prop
  | push {c : RingConfig P} {p : P} {e : PushEvent} {r : Ring} {pc : PushPc}
      (h : PushStep c.ring (c.producers p) e r pc) :
      RingStep c (.push p e) ⟨r, Function.update c.producers p pc, c.consumer⟩
  | pop {c : RingConfig P} {e : PopEvent} {r : Ring} {pc : PopPc}
      (h : PopStep c.ring c.consumer e r pc) : RingStep c (.pop e) ⟨r, c.producers, pc⟩

/-- A successful CAS on `tail`: who claimed which position for which record. -/
structure Claimed (P : Type u) where
  producer : P
  push : Push
  pos : Nat

def RingEvent.claimed : RingEvent P → Option (Claimed P)
  | .push p (.claim a pos) => some ⟨p, a, pos⟩
  | _ => none

def RingEvent.pushed : RingEvent P → Option (P × Push)
  | .push p (.pushed a) => some (p, a)
  | _ => none

def RingEvent.dropped : RingEvent P → Option (P × Push)
  | .push p (.dropped a) => some (p, a)
  | _ => none

def RingEvent.popped : RingEvent P → Option (PoppedRecord × List UInt8)
  | .pop (.popped popped out) => some (popped, out)
  | _ => none

/-- Claims in the order of their CAS. -/
def claims (log : List (RingEvent P)) : List (Claimed P) := log.filterMap RingEvent.claimed

/-- Calls of `try_push` that returned success, in order of return. -/
def pushedCalls (log : List (RingEvent P)) : List (P × Push) := log.filterMap RingEvent.pushed

/-- Calls of `try_push` that returned `RingFull`, in order of return. -/
def droppedCalls (log : List (RingEvent P)) : List (P × Push) := log.filterMap RingEvent.dropped

/-- What the successful calls of `try_pop` returned, in order. -/
def poppedCalls (log : List (RingEvent P)) : List (PoppedRecord × List UInt8) :=
  log.filterMap RingEvent.popped

/-- An entry of a grown list is an old one or the new last. -/
theorem getElem?_snoc {α : Type*} {l : List α} {x y : α} {k : Nat}
    (h : (l ++ [x])[k]? = some y) : l[k]? = some y ∨ k = l.length ∧ x = y := by
  by_cases hk : k < l.length
  · rw [List.getElem?_append_left hk] at h
    exact .inl h
  · have hlt := (List.getElem?_eq_some_iff.mp h).1
    rw [List.length_append, List.length_singleton] at hlt
    obtain rfl : k = l.length := by omega
    rw [List.getElem?_concat_length] at h
    exact .inr ⟨rfl, Option.some.inj h⟩

@[simp] theorem claims_append (l l' : List (RingEvent P)) :
    claims (l ++ l') = claims l ++ claims l' := List.filterMap_append ..

@[simp] theorem poppedCalls_append (l l' : List (RingEvent P)) :
    poppedCalls (l ++ l') = poppedCalls l ++ poppedCalls l' := List.filterMap_append ..

@[simp] theorem poppedCalls_push (p : P) (e : PushEvent) :
    poppedCalls [RingEvent.push p e] = [] := rfl

@[simp] theorem claims_pop (e : PopEvent) : claims [(RingEvent.pop e : RingEvent P)] = [] := rfl

end Shmfx
