import Shmfx.Logging.Logger
import Shmfx.Registry.Payload
import Shmfx.Ring.Backlog
import Shmfx.Security.Policy

/-! One `LogCenter` over any number of rings and loggers (`log_center.cpp`), one access per step. -/
namespace Shmfx

open Lts

universe u v

structure CenterOptions where
  drainBatch : UInt32
  scratchBytes : UInt32

structure LogRecord where
  source : Name
  level : LogLevel
  flags : UInt16
  timestampNs : UInt64
  payload : List UInt8
  deriving DecidableEq

/-- The record `drain_ring` hands to the sink for what `try_pop` left in its scratch buffer. -/
def logRecord (source : Name) (popped : PoppedRecord) (scratch : List UInt8) : LogRecord :=
  ⟨source, decodeLevel popped.type, popped.flags, popped.user, scratch.take popped.copiedSize⟩

structure AttachedRing (O : Type v) where
  name : Name
  ring : O
  removeAfterDrain : Bool

/-- Where the `LogCenter` stands: in `discover_once` with the entries still to look at, before
ring `i` of `drain_once`, or in the loop of `drain_ring` on it; `drained` sums up the rings before
`i` and `count` the records of this one. -/
inductive CenterPc
  | idle
  | discovering (entries : List RegistryEntry)
  | draining (i : Nat) (drained : UInt32)
  | popping (i : Nat) (drained count : UInt32) (scratch : List UInt8)

/-- Ring objects with their users, which of them are DEAD, which object a name is linked to, and
the `LogCenter`. -/
structure LogConfig (P : Type u) (O : Type v) where
  rings : O → RingConfig P
  dead : O → Bool
  linked : Name → Option O
  attached : List (AttachedRing O)
  center : CenterPc

inductive LogEvent (P : Type u) (O : Type v)
  | tau
  | push (o : O) (p : P) (e : PushEvent)
  | pop (o : O) (e : PopEvent)
  | sink (o : O) (popped : PoppedRecord) (scratch : List UInt8) (record : LogRecord)
  | die (o : O)
  | begun
  | visited (o : O) (dead : Bool)
  | drained (count : UInt32)

variable {P : Type u} {O : Type v}

def LogConfig.initial (rings : O → Ring) : LogConfig P O :=
  ⟨fun o => .initial (rings o), fun _ => false, fun _ => none, [], .idle⟩

namespace LogConfig

def setRing [DecidableEq O] (c : LogConfig P O) (o : O) (s : RingConfig P) : LogConfig P O :=
  { c with rings := Function.update c.rings o s }

def setCenter (c : LogConfig P O) (pc : CenterPc) : LogConfig P O := { c with center := pc }

def setAttached (c : LogConfig P O) (attached : List (AttachedRing O)) : LogConfig P O :=
  { c with attached := attached }

theorem rings_setRing_self [DecidableEq O] (c : LogConfig P O) (o : O) (s : RingConfig P) :
    (c.setRing o s).rings o = s :=
  Function.update_self ..

theorem rings_setRing_of_ne [DecidableEq O] (c : LogConfig P O) {o o' : O} (h : o ≠ o')
    (s : RingConfig P) : (c.setRing o' s).rings o = c.rings o :=
  Function.update_of_ne h ..

end LogConfig

/-- `drain_ring` marks a ring it finds DEAD. -/
def AttachedRing.mark (a : AttachedRing O) (dead : Bool) : AttachedRing O :=
  { a with removeAfterDrain := a.removeAfterDrain || dead }

/-- One access of a logger or of the `LogCenter`, or a change of the environment. Objects keep the
name they were created under, and nothing leaves the DEAD state. -/
inductive LogStep [DecidableEq P] [DecidableEq O] (options : CenterOptions) (nameOf : O → Name) :
    LogConfig P O → LogEvent P O → LogConfig P O → Prop
  | log {c : LogConfig P O} {o : O} {p : P} {s : RingConfig P} {call : LogCall} {now : UInt64}
      {a : Push} (hcall : call.pushed now = .ok a)
      (h : RingStep (c.rings o) (.push p (.call a)) s) :
      LogStep options nameOf c (.push o p (.call a)) (c.setRing o s)
  | push {c : LogConfig P O} {o : O} {p : P} {e : PushEvent} {s : RingConfig P}
      (he : e.called = none) (h : RingStep (c.rings o) (.push p e) s) :
      LogStep options nameOf c (.push o p e) (c.setRing o s)
  | die {c : LogConfig P O} (o : O) :
      LogStep options nameOf c (.die o) { c with dead := Function.update c.dead o true }
  | link {c : LogConfig P O} (name : Name) (object : Option O)
      (h : ∀ o, object = some o → nameOf o = name) :
      LogStep options nameOf c .tau { c with linked := Function.update c.linked name object }
  | discover {c : LogConfig P O} (entries : List RegistryEntry) (h : c.center = .idle) :
      LogStep options nameOf c .tau (c.setCenter (.discovering entries))
  | skip {c : LogConfig P O} {entry : RegistryEntry} {entries : List RegistryEntry}
      (h : c.center = .discovering (entry :: entries))
      (hskip : entry.segmentType ≠ SegmentType.recordRing.code ∨
        ∃ a ∈ c.attached, a.name = entryName entry) :
      LogStep options nameOf c .tau (c.setCenter (.discovering entries))
  | attach {c : LogConfig P O} {entry : RegistryEntry} {entries : List RegistryEntry} {o : O}
      (h : c.center = .discovering (entry :: entries))
      (htype : entry.segmentType = SegmentType.recordRing.code)
      (hnew : ∀ a ∈ c.attached, a.name ≠ entryName entry)
      (hlink : c.linked (entryName entry) = some o) (hdead : c.dead o = false) :
      LogStep options nameOf c .tau
        ((c.setAttached (c.attached ++ [⟨entryName entry, o, false⟩])).setCenter
          (.discovering entries))
  | attachFails {c : LogConfig P O} {entry : RegistryEntry} {entries : List RegistryEntry}
      (h : c.center = .discovering (entry :: entries))
      (htype : entry.segmentType = SegmentType.recordRing.code)
      (hnew : ∀ a ∈ c.attached, a.name ≠ entryName entry) :
      LogStep options nameOf c .tau (c.setCenter .idle)
  | discovered {c : LogConfig P O} (h : c.center = .discovering []) :
      LogStep options nameOf c .tau (c.setCenter .idle)
  | begin {c : LogConfig P O} (h : c.center = .idle) :
      LogStep options nameOf c .begun (c.setCenter (.draining 0 0))
  | visit {c : LogConfig P O} {i : Nat} {drained : UInt32} {a : AttachedRing O}
      (h : c.center = .draining i drained) (ha : c.attached[i]? = some a) :
      LogStep options nameOf c (.visited a.ring (c.dead a.ring))
        ((c.setAttached (c.attached.set i (a.mark (c.dead a.ring)))).setCenter
          (.popping i drained 0 (List.replicate options.scratchBytes.toNat 0)))
  | call {c : LogConfig P O} {i : Nat} {drained count : UInt32} {scratch : List UInt8}
      {a : AttachedRing O} {s : RingConfig P} (h : c.center = .popping i drained count scratch)
      (ha : c.attached[i]? = some a) (hcount : count < options.drainBatch)
      (hs : RingStep (c.rings a.ring) (.pop (.call scratch)) s) :
      LogStep options nameOf c (.pop a.ring (.call scratch)) (c.setRing a.ring s)
  | pop {c : LogConfig P O} {i : Nat} {drained count : UInt32} {scratch : List UInt8}
      {a : AttachedRing O} {s : RingConfig P} (h : c.center = .popping i drained count scratch)
      (ha : c.attached[i]? = some a) (hs : RingStep (c.rings a.ring) (.pop .tau) s) :
      LogStep options nameOf c (.pop a.ring .tau) (c.setRing a.ring s)
  | empty {c : LogConfig P O} {i : Nat} {drained count : UInt32} {scratch : List UInt8}
      {a : AttachedRing O} {s : RingConfig P} (h : c.center = .popping i drained count scratch)
      (ha : c.attached[i]? = some a) (hs : RingStep (c.rings a.ring) (.pop .empty) s) :
      LogStep options nameOf c (.pop a.ring .empty)
        ((c.setRing a.ring s).setCenter (.draining (i + 1) (drained + count)))
  | sink {c : LogConfig P O} {i : Nat} {drained count : UInt32} {scratch out : List UInt8}
      {a : AttachedRing O} {s : RingConfig P} {popped : PoppedRecord}
      (h : c.center = .popping i drained count scratch) (ha : c.attached[i]? = some a)
      (hs : RingStep (c.rings a.ring) (.pop (.popped popped out)) s) :
      LogStep options nameOf c (.sink a.ring popped out (logRecord a.name popped out))
        ((c.setRing a.ring s).setCenter (.popping i drained (count + 1) out))
  | batch {c : LogConfig P O} {i : Nat} {drained count : UInt32} {scratch : List UInt8}
      {a : AttachedRing O} (h : c.center = .popping i drained count scratch)
      (ha : c.attached[i]? = some a) (hcount : options.drainBatch ≤ count)
      (hidle : (c.rings a.ring).consumer = .idle) :
      LogStep options nameOf c .tau (c.setCenter (.draining (i + 1) (drained + count)))
  | finish {c : LogConfig P O} {i : Nat} {drained : UInt32}
      (h : c.center = .draining i drained) (hi : c.attached.length ≤ i) :
      LogStep options nameOf c (.drained drained)
        ((c.setAttached (c.attached.filter fun a => !a.removeAfterDrain)).setCenter .idle)

section Projections

variable [DecidableEq O]

def LogEvent.onRing (o : O) : LogEvent P O → Option (RingEvent P)
  | .push o' p e => if o' = o then some (.push p e) else none
  | .pop o' e => if o' = o then some (.pop e) else none
  | .sink o' popped scratch _ => if o' = o then some (.pop (.popped popped scratch)) else none
  | _ => none

/-- Every claim leaves room to count on its own ring. -/
def LeavesRoom (c : LogConfig P O) (e : LogEvent P O) : Prop :=
  ∀ o re, e.onRing o = some re → RoomToCount (c.rings o) re

/-- The accesses of one ring object. -/
def ringLog (o : O) (log : List (LogEvent P O)) : List (RingEvent P) :=
  log.filterMap (LogEvent.onRing o)

def LogEvent.sunk (o : O) : LogEvent P O → Option LogRecord
  | .sink o' _ _ record => if o' = o then some record else none
  | _ => none

/-- What the sink has received from one ring object. -/
def sinkFrom (o : O) (log : List (LogEvent P O)) : List LogRecord :=
  log.filterMap (LogEvent.sunk o)

omit [DecidableEq O] in
def LogEvent.tally (n : Nat) : LogEvent P O → Nat
  | .begun => 0
  | .sink .. => n + 1
  | _ => n

omit [DecidableEq O] in
/-- Sink calls since the last `drain_once` began. -/
def passCalls (log : List (LogEvent P O)) : Nat := log.foldl LogEvent.tally 0

omit [DecidableEq O] in
theorem passCalls_append (log es : List (LogEvent P O)) :
    passCalls (log ++ es) = es.foldl LogEvent.tally (passCalls log) :=
  List.foldl_append

omit [DecidableEq O] in
theorem passCalls_snoc (log : List (LogEvent P O)) (e : LogEvent P O) :
    passCalls (log ++ [e]) = e.tally (passCalls log) :=
  passCalls_append log [e]

theorem ringLog_append (o : O) (log es : List (LogEvent P O)) :
    ringLog o (log ++ es) = ringLog o log ++ ringLog o es :=
  List.filterMap_append

theorem sinkFrom_append (o : O) (log es : List (LogEvent P O)) :
    sinkFrom o (log ++ es) = sinkFrom o log ++ sinkFrom o es :=
  List.filterMap_append

theorem ringLog_snoc (o : O) (log : List (LogEvent P O)) (e : LogEvent P O) :
    ringLog o (log ++ [e]) = ringLog o log ++ (e.onRing o).toList := by
  cases h : e.onRing o <;> simp [ringLog, h]

theorem sinkFrom_snoc (o : O) (log : List (LogEvent P O)) (e : LogEvent P O) :
    sinkFrom o (log ++ [e]) = sinkFrom o log ++ (e.sunk o).toList := by
  cases h : e.sunk o <;> simp [sinkFrom, h]

end Projections

end Shmfx
