import Mathlib.Logic.Function.Basic
import Shmfx.Ring.Layout

/-! `MpscRing::try_push` and `try_pop` as whole calls, run without interference. -/
namespace Shmfx

open Word

/-- The arguments of one `try_push`. -/
structure Push where
  type : UInt16
  flags : UInt16
  user : UInt64
  payload : List UInt8
  deriving DecidableEq, Repr

structure PoppedRecord where
  type : UInt16
  flags : UInt16
  user : UInt64
  payloadSize : Nat
  copiedSize : Nat
  deriving DecidableEq, Repr

/-- Payload bytes a slot holds; `validMeta` keeps the subtraction from wrapping. -/
def RecordRingMeta.maxPayload (m : RecordRingMeta) : Nat := m.recordStride - recordHeaderBytes

/-- Payload bytes stored for a push. -/
def Push.written (a : Push) (maxPayload : Nat) : Nat := min a.payload.length maxPayload

def Push.storedFlags (a : Push) (maxPayload : Nat) : UInt16 :=
  if maxPayload < a.payload.length then a.flags ||| recordFlagTruncated else a.flags

/-- The slot index of a position. -/
def Ring.slot (r : Ring) (pos : Nat) : Nat := pos % r.ringMeta.recordMax

/-- How the claim loop ends. -/
inductive Claim
  | claimed (pos : Nat)
  | full
  | exhausted
  deriving DecidableEq, Repr

/-- The claim loop with `n` iterations of its budget left; the CAS fails only on a moved tail. -/
def claimLoop (r : Ring) (pos : Nat) : Nat → Claim
  | 0 => .exhausted
  | n + 1 =>
    let diff := diff64 (r.seq (r.slot pos)) pos
    if diff = 0 then
      if r.tail = pos then .claimed pos else claimLoop r r.tail n
    else if diff < 0 then .full
    else claimLoop r r.tail n

/-- The five stores and the copy that fill a claimed slot. -/
def RingRecord.fill (cell : RingRecord) (a : Push) (maxPayload : Nat) : RingRecord where
  len := a.written maxPayload
  type := a.type
  flags := a.storedFlags maxPayload
  user := a.user
  bytes i := if i < a.written maxPayload then a.payload.getD i 0 else cell.bytes i

def Ring.addLost (r : Ring) : Ring :=
  { r with ringMeta := { r.ringMeta with lostCount := u64 (r.ringMeta.lostCount + 1) } }

def Ring.setTail (r : Ring) (pos : Nat) : Ring := { r with tail := pos }

def Ring.setHead (r : Ring) (pos : Nat) : Ring := { r with head := pos }

def Ring.setSeq (r : Ring) (i v : Nat) : Ring := { r with seq := Function.update r.seq i v }

def Ring.setRecord (r : Ring) (i : Nat) (cell : RingRecord) : Ring :=
  { r with record := Function.update r.record i cell }

def tryPush (r : Ring) (a : Push) : Except ErrorCode Unit × Ring :=
  if validMeta r.ringMeta then
    match claimLoop r r.tail mpscCasRetryBudget with
    | .claimed pos =>
      let i := r.slot pos
      (.ok (), ((r.setTail (u64 (pos + 1))).setRecord i
        ((r.record i).fill a r.ringMeta.maxPayload)).setSeq i (u64 (pos + 1)))
    | .full | .exhausted => (.error .ringFull, r.addLost)
  else (.error .corruptedHeader, r)

/-- The bytes `memcpy` leaves in the caller's buffer. -/
def copyOut (out : List UInt8) (bytes : Nat → UInt8) (copied : Nat) : List UInt8 :=
  (List.range copied).map bytes ++ out.drop copied

/-- The metadata a pop reports for a record, given the size of the caller's buffer. -/
def RingRecord.popped (cell : RingRecord) (maxPayload outSize : Nat) : PoppedRecord where
  type := cell.type
  flags := cell.flags
  user := cell.user
  payloadSize := min cell.len maxPayload
  copiedSize := min outSize (min cell.len maxPayload)

def tryPop (r : Ring) (out : List UInt8) : Option (PoppedRecord × List UInt8) × Ring :=
  if validMeta r.ringMeta then
    let pos := r.head
    let i := r.slot pos
    if r.seq i = u64 (pos + 1) then
      let popped := (r.record i).popped r.ringMeta.maxPayload out.length
      (some (popped, copyOut out (r.record i).bytes popped.copiedSize),
        (r.setSeq i (u64 (pos + r.ringMeta.recordMax))).setHead (u64 (pos + 1)))
    else (none, r)
  else (none, r)

section Stores

variable (r : Ring) (i v : Nat) (cell : RingRecord)

@[simp] theorem Ring.addLost_head : r.addLost.head = r.head := rfl
@[simp] theorem Ring.addLost_tail : r.addLost.tail = r.tail := rfl
@[simp] theorem Ring.addLost_seq : r.addLost.seq = r.seq := rfl
@[simp] theorem Ring.addLost_record : r.addLost.record = r.record := rfl
@[simp] theorem Ring.setTail_ringMeta : (r.setTail v).ringMeta = r.ringMeta := rfl
@[simp] theorem Ring.setTail_head : (r.setTail v).head = r.head := rfl
@[simp] theorem Ring.setTail_tail : (r.setTail v).tail = v := rfl
@[simp] theorem Ring.setTail_seq : (r.setTail v).seq = r.seq := rfl
@[simp] theorem Ring.setTail_record : (r.setTail v).record = r.record := rfl
@[simp] theorem Ring.setHead_ringMeta : (r.setHead v).ringMeta = r.ringMeta := rfl
@[simp] theorem Ring.setHead_head : (r.setHead v).head = v := rfl
@[simp] theorem Ring.setHead_tail : (r.setHead v).tail = r.tail := rfl
@[simp] theorem Ring.setHead_seq : (r.setHead v).seq = r.seq := rfl
@[simp] theorem Ring.setHead_record : (r.setHead v).record = r.record := rfl
@[simp] theorem Ring.setSeq_ringMeta : (r.setSeq i v).ringMeta = r.ringMeta := rfl
@[simp] theorem Ring.setSeq_head : (r.setSeq i v).head = r.head := rfl
@[simp] theorem Ring.setSeq_tail : (r.setSeq i v).tail = r.tail := rfl
@[simp] theorem Ring.setSeq_seq : (r.setSeq i v).seq = Function.update r.seq i v := rfl
@[simp] theorem Ring.setSeq_record : (r.setSeq i v).record = r.record := rfl
@[simp] theorem Ring.setRecord_ringMeta : (r.setRecord i cell).ringMeta = r.ringMeta := rfl
@[simp] theorem Ring.setRecord_head : (r.setRecord i cell).head = r.head := rfl
@[simp] theorem Ring.setRecord_tail : (r.setRecord i cell).tail = r.tail := rfl
@[simp] theorem Ring.setRecord_seq : (r.setRecord i cell).seq = r.seq := rfl
@[simp] theorem Ring.setRecord_record :
    (r.setRecord i cell).record = Function.update r.record i cell := rfl
@[simp] theorem Ring.addLost_recordMax :
    r.addLost.ringMeta.recordMax = r.ringMeta.recordMax := rfl
@[simp] theorem Ring.addLost_maxPayload :
    r.addLost.ringMeta.maxPayload = r.ringMeta.maxPayload := rfl
@[simp] theorem validMeta_addLost : validMeta r.addLost.ringMeta = validMeta r.ringMeta := rfl

end Stores

end Shmfx
