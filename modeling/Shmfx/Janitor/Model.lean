import Shmfx.Lib.Lts
import Shmfx.Registry.Map
import Shmfx.Segment.Create

/-! Names, shared-memory objects and the registry under any number of threads in `create`,
`attach`, handle destruction, `destroy` and `Registry::gc`. -/
namespace Shmfx

universe u

/-- `HEARTBEAT_DEAD_NS`: three seconds. -/
def heartbeatDeadNs : UInt64 := 3000000000

/-- `SEGMENT_ZOMBIE_NS`: an hour. -/
def segmentZombieNs : UInt64 := 3600000000000

/-- The running processes, each with its start time where `/proc` shows one. -/
abbrev ProcessTable := UInt32 → Option (Option UInt64)

/-- The last test of `owner_is_dead`: a beat was seen, and none for too long. -/
def heartbeatStale (last now : UInt64) : Bool :=
  if last = 0 ∨ now < last then false else now - last > heartbeatDeadNs

def ownerIsDead (processes : ProcessTable) (h : ShmHeader) (now : UInt64) : Bool :=
  if h.ownerPid = 0 then true
  else
    match processes h.ownerPid with
    | none => true
    | some started =>
      if h.ownerStartTime ≠ 0 ∧ started.any (· != h.ownerStartTime) then true
      else heartbeatStale h.heartbeatLastNs now

/-- How far the `create` of an object has come. -/
inductive CreatePhase
  | absent
  | creating
  | failed
  | returned
  deriving DecidableEq

/-- A shared-memory object, linked or not, with the progress of its `create`. -/
structure SegmentObject (P : Type u) where
  options : CreateOptions
  env : CreateEnv
  truncated : Bool
  done : Nat
  header : ShmHeader
  locked : Bool
  creator : Option P
  phase : CreatePhase
  /-- The entered owner has been dead at some moment. -/
  everDead : Bool
  /-- `destroy` has been called on the name since the object was created. -/
  destroyed : Bool

variable {P : Type u}

namespace SegmentObject

def size (s : SegmentObject P) : UInt64 := if s.truncated then s.options.totalSize else 0

/-- All stores of `headerStores` have been made. -/
def Written (s : SegmentObject P) : Prop := s.done = 20

/-- The next store of `create`. -/
def store (s : SegmentObject P) (f : ShmHeader → ShmHeader) : SegmentObject P :=
  { s with header := f s.header, done := s.done + 1 }

def setState (s : SegmentObject P) (state : SegmentState) : SegmentObject P :=
  { s with header := { s.header with state := state.code } }

def setRefs (s : SegmentObject P) (n : UInt32) : SegmentObject P :=
  { s with header := { s.header with refCount := n } }

def beat (s : SegmentObject P) (now : UInt64) : SegmentObject P :=
  { s with header := { s.header with heartbeatLastNs := now } }

/-- Keeps in mind whether the entered owner is dead. -/
def observe (processes : ProcessTable) (now : UInt64) (s : SegmentObject P) : SegmentObject P :=
  { s with
    everDead := s.everDead || (s.header.ownerPid != 0 && ownerIsDead processes s.header now) }

/-- Its `create` has returned, its owner has never been dead, and nobody has called `destroy` on
its name since it was created. -/
def Live (s : SegmentObject P) : Prop :=
  s.phase = .returned ∧ s.everDead = false ∧ s.destroyed = false

/-- The registry entry its `create` made, apart from `last_seen_ns`. -/
def entry (s : SegmentObject P) (seen : UInt64) : RegistryEntry :=
  { createEntry s.options s.env (writeHeader s.options s.env) with lastSeenNs := seen }

end SegmentObject

def blankObject : SegmentObject P where
  options := ⟨[], .raw, 0, 0, 0⟩
  env := ⟨0, none, 0, 0, 0, 0, ⟨none, none⟩, fun _ => .ok ()⟩
  truncated := false
  done := 0
  header := zeroHeader
  locked := false
  creator := none
  phase := .absent
  everDead := false
  destroyed := false

/-- What `shm_open` with `O_CREAT | O_EXCL` makes. -/
def newObject (options : CreateOptions) (env : CreateEnv) (p : P) : SegmentObject P :=
  { (blankObject : SegmentObject P) with
    options := options
    env := env
    creator := some p
    phase := .creating }

/-- Where `gc` stands on one entry of its snapshot. -/
inductive SweepPc
  | missing
  | opened (o : Nat)
  | broken (o : Nat)
  | mapped (o : Nat)
  | valid (o : Nat)
  | judged (o : Nat) (dead : Bool)
  | counted (o : Nat) (dead : Bool) (rc : UInt32)
  | locking (o : Nat)
  | locked (o : Nat)
  | rechecked (o : Nat)
  | condemned (o : Nat)
  | unlinking (o : Nat)
  | unregistering (o : Nat)
  | unlocking (o : Nat)
  | draining (o : Nat)
  | refreshing (o : Nat)
  | scanning (o : Nat)
  | zombieUnlinking (o : Nat)
  | zombieUnregistering (o : Nat)

/-- The call a thread is in, or the read-write handle it holds. -/
inductive CallPc
  | idle
  | crashed
  | admitted (options : CreateOptions)
  | creating (o : Nat)
  | failing (o : Nat)
  | undoing (o : Nat)
  | holding (o : Nat) (owner : Bool)
  | dropped (o : Nat) (owner last : Bool)
  | retiring (o : Nat)
  | retireUnlinking (o : Nat)
  | retireUnregistering (o : Nat)
  | attaching (name : Name) (o : Nat)
  | checked (o : Nat)
  | bumped (o : Nat)
  | rollingBack (o : Nat)
  | destroying (name : Name) (o : Nat)
  | gc (now : UInt64) (entries : List RegistryEntry)
  | sweep (now : UInt64) (entry : RegistryEntry) (entries : List RegistryEntry) (pc : SweepPc)

/-- The object whose control mutex the thread holds. -/
def CallPc.lockHeld : CallPc → Option Nat
  | .sweep _ _ _ (.locked o) | .sweep _ _ _ (.rechecked o) | .sweep _ _ _ (.condemned o)
  | .sweep _ _ _ (.unlinking o) | .sweep _ _ _ (.unregistering o)
  | .sweep _ _ _ (.unlocking o) => some o
  | _ => none

/-- The system: what each name is linked to, all objects ever made, the registry, the threads of
all processes, and what `kill`, `/proc` and the clock answer. -/
structure JanitorConfig (P : Type u) where
  names : Name → Option Nat
  objects : Nat → SegmentObject P
  next : Nat
  registry : EntryMap
  threads : P → CallPc
  processes : ProcessTable
  clock : UInt64

/-- Acts by name carry the object they were decided on. -/
inductive JanitorEvent
  | call
  | created (options : CreateOptions)
  | destroyed (name : Name)
  | opened (o : Nat)
  | registered (name : Name) (basis : Nat)
  | unlinked (name : Name) (basis : Nat)
  | unregistered (name : Name) (basis : Option Nat)

namespace JanitorConfig

/-- Nothing linked or registered yet. -/
def initial (processes : ProcessTable) (clock : UInt64) : JanitorConfig P :=
  ⟨fun _ => none, fun _ => blankObject, 0, fun _ => none, fun _ => .idle, processes, clock⟩

def nameOf (c : JanitorConfig P) (o : Nat) : Name := (c.objects o).options.name

def link (c : JanitorConfig P) (name : Name) (o : Nat) : JanitorConfig P :=
  { c with names := Function.update c.names name (some o) }

def unlink (c : JanitorConfig P) (name : Name) : JanitorConfig P :=
  { c with names := Function.update c.names name none }

def setRegistry (c : JanitorConfig P) (m : EntryMap) : JanitorConfig P := { c with registry := m }

def setObject (c : JanitorConfig P) (o : Nat) (s : SegmentObject P) : JanitorConfig P :=
  { c with objects := Function.update c.objects o s }

def setThread [DecidableEq P] (c : JanitorConfig P) (p : P) (pc : CallPc) : JanitorConfig P :=
  { c with threads := Function.update c.threads p pc }

/-- A new object under its name. -/
def make (c : JanitorConfig P) (s : SegmentObject P) : JanitorConfig P :=
  { (c.link s.options.name c.next).setObject c.next s with next := c.next + 1 }

/-- `destroy` counts for every object created under the name so far. -/
def markDestroyed (c : JanitorConfig P) (name : Name) : JanitorConfig P :=
  { c with
    objects := fun o =>
      if (c.objects o).phase ≠ .absent ∧ c.nameOf o = name then
        { c.objects o with destroyed := true }
      else c.objects o }

/-- The control mutex is robust: it does not stay locked by a thread that is gone. -/
def release (c : JanitorConfig P) : Option Nat → JanitorConfig P
  | some o => c.setObject o { c.objects o with locked := false }
  | none => c

def observe (c : JanitorConfig P) : JanitorConfig P :=
  { c with objects := fun o => (c.objects o).observe c.processes c.clock }

end JanitorConfig

/-- Entries `gc` passes over. -/
def Skipped (entry : RegistryEntry) : Prop :=
  entryName entry = [] ∨ entryName entry = registryName

/-- The branch `gc` takes on an entry once it has loaded the state. -/
def sweepBranch (now : UInt64) (entry : RegistryEntry) (o : Nat) (dead : Bool)
    (rc state : UInt32) : Option SweepPc :=
  if dead ∧ rc = 0 then some (.locking o)
  else if dead ∧ rc > 0 ∧ state = SegmentState.active.code then some (.draining o)
  else if state = SegmentState.draining.code ∧ entry.lastSeenNs ≠ 0 ∧ now > entry.lastSeenNs ∧
      now - entry.lastSeenNs > segmentZombieNs then
    some (.scanning o)
  else none

/-- Further on this entry, or on to the next. -/
def sweepTo (now : UInt64) (entry : RegistryEntry) (entries : List RegistryEntry) :
    Option SweepPc → CallPc
  | some pc => .sweep now entry entries pc
  | none => .gc now entries

/-- The steps of `gc` on an entry that only read. -/
inductive SweepRead (c : JanitorConfig P) (now : UInt64) (entry : RegistryEntry) :
    SweepPc → Option SweepPc → Prop
  | short {o : Nat} (h : (c.objects o).size < headerSize) :
      SweepRead c now entry (.opened o) (some (.broken o))
  | map {o : Nat} (h : headerSize ≤ (c.objects o).size) :
      SweepRead c now entry (.opened o) (some (.mapped o))
  | mapFailed {o : Nat} : SweepRead c now entry (.opened o) none
  | invalid {o : Nat} (h : janitorHeaderValid (c.objects o).header (c.objects o).size = false) :
      SweepRead c now entry (.mapped o) (some (.broken o))
  | valid {o : Nat} (h : janitorHeaderValid (c.objects o).header (c.objects o).size = true) :
      SweepRead c now entry (.mapped o) (some (.valid o))
  | judge {o : Nat} :
      SweepRead c now entry (.valid o)
        (some (.judged o (ownerIsDead c.processes (c.objects o).header now)))
  | count {o : Nat} {dead : Bool} :
      SweepRead c now entry (.judged o dead) (some (.counted o dead (c.objects o).header.refCount))
  | branch {o : Nat} {dead : Bool} {rc : UInt32} :
      SweepRead c now entry (.counted o dead rc)
        (sweepBranch now entry o dead rc (c.objects o).header.state)
  | lockFailed {o : Nat} : SweepRead c now entry (.locking o) none
  | recount {o : Nat} (h : (c.objects o).header.refCount = 0) :
      SweepRead c now entry (.locked o) (some (.rechecked o))
  | busy {o : Nat} (h : (c.objects o).header.refCount ≠ 0) :
      SweepRead c now entry (.locked o) (some (.unlocking o))
  | rejudge {o : Nat} (h : ownerIsDead c.processes (c.objects o).header now = true) :
      SweepRead c now entry (.rechecked o) (some (.condemned o))
  | alive {o : Nat} (h : ownerIsDead c.processes (c.objects o).header now = false) :
      SweepRead c now entry (.rechecked o) (some (.unlocking o))
  | stillMapped {o : Nat} : SweepRead c now entry (.scanning o) none
  | nowhereMapped {o : Nat} : SweepRead c now entry (.scanning o) (some (.zombieUnlinking o))
  | refreshFailed {o : Nat} : SweepRead c now entry (.refreshing o) none

/-- A thread about to call `shm_unlink`: the name, the object it means, and where it goes on. -/
inductive Unlinks (c : JanitorConfig P) : CallPc → Name → Nat → CallPc → Prop
  | createFailed {o : Nat} : Unlinks c (.failing o) (c.nameOf o) o .idle
  | createUndone {o : Nat} : Unlinks c (.undoing o) (c.nameOf o) o (.holding o true)
  | retired {o : Nat} :
      Unlinks c (.retireUnlinking o) (c.objects o).header.nameView o (.retireUnregistering o)
  | collected {now : UInt64} {entry : RegistryEntry} {entries : List RegistryEntry} {o : Nat} :
      Unlinks c (.sweep now entry entries (.unlinking o)) (entryName entry) o
        (.sweep now entry entries (.unregistering o))
  | zombie {now : UInt64} {entry : RegistryEntry} {entries : List RegistryEntry} {o : Nat} :
      Unlinks c (.sweep now entry entries (.zombieUnlinking o)) (entryName entry) o
        (.sweep now entry entries (.zombieUnregistering o))

/-- A thread about to call `unregister`. -/
inductive Unregisters (c : JanitorConfig P) : CallPc → Name → Option Nat → CallPc → Prop
  | retired {o : Nat} :
      Unregisters c (.retireUnregistering o) (c.objects o).header.nameView (some o) .idle
  | destroyed {name : Name} {o : Nat} : Unregisters c (.destroying name o) name (some o) .idle
  | missing {now : UInt64} {entry : RegistryEntry} {entries : List RegistryEntry} :
      Unregisters c (.sweep now entry entries .missing) (entryName entry) none (.gc now entries)
  | broken {now : UInt64} {entry : RegistryEntry} {entries : List RegistryEntry} {o : Nat} :
      Unregisters c (.sweep now entry entries (.broken o)) (entryName entry) (some o)
        (.gc now entries)
  | collected {now : UInt64} {entry : RegistryEntry} {entries : List RegistryEntry} {o : Nat} :
      Unregisters c (.sweep now entry entries (.unregistering o)) (entryName entry) (some o)
        (.sweep now entry entries (.unlocking o))
  | zombie {now : UInt64} {entry : RegistryEntry} {entries : List RegistryEntry} {o : Nat} :
      Unregisters c (.sweep now entry entries (.zombieUnregistering o)) (entryName entry) (some o)
        (.gc now entries)

/-- Steps after which only the thread itself is elsewhere. `attach` runs a `gc` pass first; as a
thread may do so at any time, its own steps start at `shm_open`. -/
inductive CallRead (c : JanitorConfig P) : CallPc → CallPc → Prop
  | createCheck {options : CreateOptions} {existing : List RegistryEntry} {parsed : ParsedName}
      (hparse : parseAndValidateName options.name = .ok parsed)
      (hlist : MapStep c.registry (.list [], .listed existing) c.registry)
      (hsec : validateCreateSecurity options existing = .ok ())
      (hlayout : checkLayout options = .ok ()) : CallRead c .idle (.admitted options)
  | createRejected {options : CreateOptions} : CallRead c (.admitted options) .idle
  | attachOpen {name : Name} {o : Nat} {parsed : ParsedName}
      (hparse : parseAndValidateName name = .ok parsed) (ho : c.names name = some o) :
      CallRead c .idle (.attaching name o)
  | attachRejected {name : Name} {o : Nat} : CallRead c (.attaching name o) .idle
  | attachCheck {name : Name} {o : Nat}
      (hv : validateHeader (c.objects o).header (c.objects o).size = .ok ())
      (hn : (c.objects o).header.nameView = name)
      (hs : (c.objects o).header.state ≠ SegmentState.dead.code) :
      CallRead c (.attaching name o) (.checked o)
  | attachReturn {o : Nat} (h : (c.objects o).header.state ≠ SegmentState.dead.code) :
      CallRead c (.bumped o) (.holding o false)
  | attachLate {o : Nat} (h : (c.objects o).header.state = SegmentState.dead.code) :
      CallRead c (.bumped o) (.rollingBack o)
  | resetKeep {o : Nat} {owner last : Bool}
      (h : ¬ (owner ∧ (c.objects o).header.nameView ≠ registryName ∧ last ∧
        (c.objects o).header.state = SegmentState.draining.code)) :
      CallRead c (.dropped o owner last) .idle
  | resetRetire {o : Nat} {owner last : Bool}
      (h : owner ∧ (c.objects o).header.nameView ≠ registryName ∧ last ∧
        (c.objects o).header.state = SegmentState.draining.code) :
      CallRead c (.dropped o owner last) (.retiring o)
  | gcList {entries : List RegistryEntry}
      (h : MapStep c.registry (.list [], .listed entries) c.registry) :
      CallRead c .idle (.gc c.clock entries)
  | gcSkip {now : UInt64} {entry : RegistryEntry} {entries : List RegistryEntry}
      (h : Skipped entry) : CallRead c (.gc now (entry :: entries)) (.gc now entries)
  | gcMissing {now : UInt64} {entry : RegistryEntry} {entries : List RegistryEntry}
      (h : ¬ Skipped entry) (hn : c.names (entryName entry) = none) :
      CallRead c (.gc now (entry :: entries)) (.sweep now entry entries .missing)
  | gcOpenFailed {now : UInt64} {entry : RegistryEntry} {entries : List RegistryEntry}
      (h : ¬ Skipped entry) : CallRead c (.gc now (entry :: entries)) (.gc now entries)
  | gcRead {now : UInt64} {entry : RegistryEntry} {entries : List RegistryEntry} {pc : SweepPc}
      {next : Option SweepPc} (h : SweepRead c now entry pc next) :
      CallRead c (.sweep now entry entries pc) (sweepTo now entry entries next)
  | gcReturn {now : UInt64} : CallRead c (.gc now []) .idle
  | unregisterFailed {pc next : CallPc} {name : Name} {basis : Option Nat}
      (h : Unregisters c pc name basis next) : CallRead c pc next

/-- Steps that change one object. -/
inductive ObjectStep (c : JanitorConfig P) (o : Nat) : CallPc → SegmentObject P → CallPc → Prop
  | createTruncate (h : (c.objects o).truncated = false) :
      ObjectStep c o (.creating o) { c.objects o with truncated := true } (.creating o)
  | createStore {f : ShmHeader → ShmHeader} (h : (c.objects o).truncated = true)
      (hf : (headerStores (c.objects o).options (c.objects o).env)[(c.objects o).done]? = some f) :
      ObjectStep c o (.creating o) (((c.objects o).store f).observe c.processes c.clock)
        (.creating o)
  | createFail (h : (c.objects o).done = 0 ∨ (c.objects o).Written) :
      ObjectStep c o (.creating o) { c.objects o with phase := .failed } (.failing o)
  | createRefused (h : (c.objects o).Written) (hn : c.nameOf o ≠ registryName) :
      ObjectStep c o (.creating o) { c.objects o with phase := .failed } (.undoing o)
  | attachBump :
      ObjectStep c o (.checked o) ((c.objects o).setRefs ((c.objects o).header.refCount + 1))
        (.bumped o)
  | attachRollback :
      ObjectStep c o (.rollingBack o) ((c.objects o).setRefs ((c.objects o).header.refCount - 1))
        .idle
  | resetDrop {owner : Bool} :
      ObjectStep c o (.holding o owner) ((c.objects o).setRefs ((c.objects o).header.refCount - 1))
        (.dropped o owner ((c.objects o).header.refCount == 1))
  | resetRetire : ObjectStep c o (.retiring o) ((c.objects o).setState .dead) (.retireUnlinking o)
  | gcLock {now : UInt64} {entry : RegistryEntry} {entries : List RegistryEntry}
      (h : (c.objects o).locked = false) :
      ObjectStep c o (.sweep now entry entries (.locking o)) { c.objects o with locked := true }
        (.sweep now entry entries (.locked o))
  | gcUnlock {now : UInt64} {entry : RegistryEntry} {entries : List RegistryEntry} :
      ObjectStep c o (.sweep now entry entries (.unlocking o)) { c.objects o with locked := false }
        (.gc now entries)
  | gcCondemn {now : UInt64} {entry : RegistryEntry} {entries : List RegistryEntry} :
      ObjectStep c o (.sweep now entry entries (.condemned o)) ((c.objects o).setState .dead)
        (.sweep now entry entries (.unlinking o))
  | gcDrain {now : UInt64} {entry : RegistryEntry} {entries : List RegistryEntry}
      (h : (c.objects o).header.state = SegmentState.active.code) :
      ObjectStep c o (.sweep now entry entries (.draining o)) ((c.objects o).setState .draining)
        (.sweep now entry entries (.refreshing o))
  | gcDrainLost {now : UInt64} {entry : RegistryEntry} {entries : List RegistryEntry}
      (h : (c.objects o).header.state ≠ SegmentState.active.code) :
      ObjectStep c o (.sweep now entry entries (.draining o)) (c.objects o)
        (.sweep now entry entries (.refreshing o))

/-- One access by one thread, the death of a thread, a beat of an owner, or a change of what the
system answers. -/
inductive JanitorStep [DecidableEq P] (c : JanitorConfig P) :
    JanitorEvent → JanitorConfig P → Prop
  | read {p : P} {pc : CallPc} (h : CallRead c (c.threads p) pc) :
      JanitorStep c .call (c.setThread p pc)
  | object {p : P} {o : Nat} {s : SegmentObject P} {pc : CallPc}
      (h : ObjectStep c o (c.threads p) s pc) :
      JanitorStep c .call ((c.setObject o s).setThread p pc)
  | gcOpen {p : P} {now : UInt64} {entry : RegistryEntry} {entries : List RegistryEntry} {o : Nat}
      (h : c.threads p = .gc now (entry :: entries)) (hs : ¬ Skipped entry)
      (ho : c.names (entryName entry) = some o) :
      JanitorStep c (.opened o) (c.setThread p (.sweep now entry entries (.opened o)))
  | createOpen {p : P} {options : CreateOptions} {env : CreateEnv}
      (h : c.threads p = .admitted options) (hn : c.names options.name = none)
      (hpid : env.pid ≠ 0) :
      JanitorStep c (.created options)
        ((c.make (newObject options env p)).setThread p (.creating c.next))
  | createRegister {p : P} {o : Nat} {m : EntryMap} (h : c.threads p = .creating o)
      (hw : (c.objects o).Written) (hn : c.nameOf o ≠ registryName)
      (hm : MapStep c.registry
        (.register (createEntry (c.objects o).options (c.objects o).env (c.objects o).header),
          .done none) m) :
      JanitorStep c (.registered (c.nameOf o) o)
        (((c.setRegistry m).setObject o { c.objects o with phase := .returned }).setThread p
          (.holding o true))
  | createReturn {p : P} {o : Nat} (h : c.threads p = .creating o) (hw : (c.objects o).Written)
      (hn : c.nameOf o = registryName) :
      JanitorStep c .call
        ((c.setObject o { c.objects o with phase := .returned }).setThread p (.holding o true))
  | unlink {p : P} {name : Name} {o : Nat} {pc : CallPc} (h : Unlinks c (c.threads p) name o pc) :
      JanitorStep c (.unlinked name o) ((c.unlink name).setThread p pc)
  | unregister {p : P} {name : Name} {basis : Option Nat} {pc : CallPc} {m : EntryMap}
      {error : Option ErrorCode} (h : Unregisters c (c.threads p) name basis pc)
      (hm : MapStep c.registry (.unregister name, .done error) m) :
      JanitorStep c (.unregistered name basis) ((c.setRegistry m).setThread p pc)
  | gcRefresh {p : P} {now : UInt64} {entry : RegistryEntry} {entries : List RegistryEntry}
      {o : Nat} {m : EntryMap} {error : Option ErrorCode}
      (h : c.threads p = .sweep now entry entries (.refreshing o))
      (hm : MapStep c.registry (.register { entry with lastSeenNs := now }, .done error) m) :
      JanitorStep c (.registered (entryName entry) o)
        ((c.setRegistry m).setThread p (.gc now entries))
  | destroy {p : P} {name : Name} {o : Nat} {parsed : ParsedName} (h : c.threads p = .idle)
      (hparse : parseAndValidateName name = .ok parsed) (ho : c.names name = some o) :
      JanitorStep c (.destroyed name)
        (((c.unlink name).markDestroyed name).setThread p
          (if name = registryName then .idle else .destroying name o))
  | crash {p : P} :
      JanitorStep c .call ((c.release (c.threads p).lockHeld).setThread p .crashed)
  | beat {o : Nat} {now : UInt64} (h : now ≤ c.clock) (hw : (c.objects o).Written) :
      JanitorStep c .call
        (c.setObject o (((c.objects o).beat now).observe c.processes c.clock))
  | tick {now : UInt64} (h : c.clock ≤ now) : JanitorStep c .call { c with clock := now }.observe
  | processes {processes : ProcessTable} :
      JanitorStep c .call { c with processes := processes }.observe

/-- Every live segment is linked under its name, and its registry entry is its own. -/
def LiveKept (c : JanitorConfig P) : Prop :=
  ∀ o, (c.objects o).Live → c.names (c.nameOf o) = some o ∧
    (c.nameOf o ≠ registryName → ∃ seen, c.registry (c.nameOf o) = some ((c.objects o).entry seen))

/-- Takes the name or its entry away, `destroy` apart. -/
def JanitorEvent.Removes (name : Name) : JanitorEvent → Prop
  | .unlinked name' _ | .unregistered name' _ => name' = name
  | _ => False

/-- The name denotes no object but the one the act was decided on. -/
def StillDenotes (c : JanitorConfig P) (name : Name) (basis : Option Nat) : Prop :=
  ∀ o, c.names name = some o → basis = some o

/-- A pass opens no object whose header is still being written by a live owner, acts by name hit
the object they were decided on, and sizes do not wrap. -/
def ActsOnDecided (c : JanitorConfig P) : JanitorEvent → Prop
  | .opened o => (c.objects o).Written ∨ (c.objects o).everDead = true
  | .created options => options.metaSize.toNat + 256 < 2 ^ 64
  | .registered name o | .unlinked name o => StillDenotes c name (some o)
  | .unregistered name basis => StillDenotes c name basis
  | .call | .destroyed _ => True

end Shmfx
