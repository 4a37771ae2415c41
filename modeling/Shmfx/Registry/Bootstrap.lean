import Mathlib.Tactic.IntervalCases
import Shmfx.Lib.Lts
import Shmfx.Registry.Map
import Shmfx.Security.Policy
import Shmfx.Security.Signing

/-! The first `Registry::instance()` calls: one process builds the registry segment, the others
attach to it. -/
namespace Shmfx

open Lts

universe u v

/-- `kRegistryTotalSize`: the header and a payload of 256 bytes before the slots of 128 each. -/
def registryTotalSize : UInt64 := headerSize + (256 + 128 * UInt64.ofNat maxRegistryEntries)

/-- A shared-memory object that may hold the registry. -/
structure RegistryObject where
  size : UInt64
  header : ShmHeader
  payload : RegistryPayload

/-- What an exclusive open leaves. -/
def emptyObject : RegistryObject := ⟨0, zeroHeader, zeroPayload⟩

/-- The header stores of `create_registry_raw`, in program order. -/
def registryHeaderStores (pid : UInt32) : List (ShmHeader → ShmHeader) :=
  [fun h => { h with magic := shmfxMagic },
    fun h => { h with versionMajor := versionMajor },
    fun h => { h with versionMinor := versionMinor },
    fun h => { h with segmentType := SegmentType.registry.code },
    fun h => { h with flags := robustMutex },
    fun h => { h with totalSize := registryTotalSize },
    fun h => { h with payloadSize := registryTotalSize - headerSize },
    fun h => { h with metaOffset := headerSize.toUInt32 },
    fun h => { h with metaSize := 0 },
    fun h => { h with payloadOffset := headerSize.toUInt32 },
    fun h => { h with creatorPid := pid },
    fun h => { h with name := copyName registryName },
    fun h => { h with ownerPid := h.creatorPid },
    fun h => { h with state := SegmentState.active.code },
    fun h => { h with refCount := 1 },
    fun h => { h with controlMutex := .robust }]

/-- `create_registry_raw` after its open: `ftruncate`, `mmap`, `memset`, the header. -/
def registryStores (pid : UInt32) : List (RegistryObject → RegistryObject) :=
  (fun o => { o with size := registryTotalSize }) :: id ::
    (fun o => { o with header := zeroHeader, payload := zeroPayload }) ::
    (registryHeaderStores pid).map fun store o => { o with header := store o.header }

/-- The number of those accesses; the last one initialises the mutex. -/
def registryBuilt : Nat := 19

/-- The object after `k` accesses that nobody disturbed. -/
def objectAfter (pid : UInt32) (k : Nat) : RegistryObject :=
  ((registryStores pid).take k).foldl (fun o store => store o) emptyObject

/-- Where a process stands in its first `Registry::instance()`, and the handle it ends with. -/
inductive InstancePc (O : Type v)
  | start
  | creating (o : O) (k : Nat)
  | lost
  | opened (o : O)
  | mapped (o : O) (size : UInt64)
  | validated (o : O)
  | named (o : O)
  | verified (o : O)
  | checked (o : O)
  | bumped (o : O)
  | rollingBack (o : O)
  | ready (o : O)
  | invalid

/-- A bound on the accesses still to come. -/
def InstancePc.remaining {O : Type v} : InstancePc O → Nat
  | .start => registryBuilt + 2
  | .creating _ k => registryBuilt + 1 - k
  | .lost => 9
  | .opened _ => 8
  | .mapped .. => 7
  | .validated _ => 6
  | .named _ => 5
  | .verified _ => 4
  | .checked _ => 3
  | .bumped _ => 2
  | .rollingBack _ => 1
  | .ready _ | .invalid => 0

/-- The objects, the one under the registry's name, and every process. -/
structure InstanceConfig (P : Type u) (O : Type v) where
  linked : Option O
  objects : O → RegistryObject
  procs : P → InstancePc O

inductive InstanceEvent (P : Type u)
  | create (p : P)
  | lost (p : P)
  | attach (p : P)
  | ready (p : P)
  | failed (p : P)
  | called (p : P) (call : RegistryCall)

def InstanceEvent.actor {P : Type u} : InstanceEvent P → P
  | .create p | .lost p | .attach p | .ready p | .failed p | .called p _ => p

variable {P : Type u} {O : Type v}

def InstanceConfig.initial : InstanceConfig P O := ⟨none, fun _ => emptyObject, fun _ => .start⟩

section Steps

variable [DecidableEq P] [DecidableEq O]

def InstanceConfig.setProc (c : InstanceConfig P O) (p : P) (pc : InstancePc O) :
    InstanceConfig P O :=
  { c with procs := Function.update c.procs p pc }

def InstanceConfig.setObject (c : InstanceConfig P O) (o : O) (object : RegistryObject) :
    InstanceConfig P O :=
  { c with objects := Function.update c.objects o object }

def RegistryObject.setRefs (object : RegistryObject) (n : UInt32) : RegistryObject :=
  { object with header := { object.header with refCount := n } }

/-- One access. `attach` neither runs the janitor nor asks for a signature on the registry's own
name; a ready process calls the registry as it likes. -/
inductive InstanceStep (pid : P → UInt32) (keys : P → KeySource) :
    InstanceConfig P O → InstanceEvent P → InstanceConfig P O → Prop
  | createOpen {c : InstanceConfig P O} {p : P} (o : O) (h : c.procs p = .start)
      (hl : c.linked = none) :
      InstanceStep pid keys c (.create p)
        (({ c with linked := some o }.setObject o emptyObject).setProc p (.creating o 0))
  | createStore {c : InstanceConfig P O} {p : P} {o : O} {k : Nat}
      {store : RegistryObject → RegistryObject} (h : c.procs p = .creating o k)
      (hs : (registryStores (pid p))[k]? = some store) :
      InstanceStep pid keys c (.create p)
        ((c.setObject o (store (c.objects o))).setProc p (.creating o (k + 1)))
  | createReturn {c : InstanceConfig P O} {p : P} {o : O}
      (h : c.procs p = .creating o registryBuilt) :
      InstanceStep pid keys c (.ready p) (c.setProc p (.ready o))
  | lose {c : InstanceConfig P O} {p : P} {o : O} (h : c.procs p = .start)
      (hl : c.linked = some o) : InstanceStep pid keys c (.lost p) (c.setProc p .lost)
  | attachOpen {c : InstanceConfig P O} {p : P} {o : O} (h : c.procs p = .lost)
      (hl : c.linked = some o) : InstanceStep pid keys c (.attach p) (c.setProc p (.opened o))
  | attachMissing {c : InstanceConfig P O} {p : P} (h : c.procs p = .lost)
      (hl : c.linked = none) : InstanceStep pid keys c (.failed p) (c.setProc p .invalid)
  | attachStat {c : InstanceConfig P O} {p : P} {o : O} (h : c.procs p = .opened o)
      (hs : headerSize ≤ (c.objects o).size) :
      InstanceStep pid keys c (.attach p) (c.setProc p (.mapped o (c.objects o).size))
  | attachShort {c : InstanceConfig P O} {p : P} {o : O} (h : c.procs p = .opened o)
      (hs : (c.objects o).size < headerSize) :
      InstanceStep pid keys c (.failed p) (c.setProc p .invalid)
  | attachValidate {c : InstanceConfig P O} {p : P} {o : O} {size : UInt64}
      (h : c.procs p = .mapped o size) (hv : validateHeader (c.objects o).header size = .ok ()) :
      InstanceStep pid keys c (.attach p) (c.setProc p (.validated o))
  | attachInvalid {c : InstanceConfig P O} {p : P} {o : O} {size : UInt64} {e : ErrorCode}
      (h : c.procs p = .mapped o size) (hv : validateHeader (c.objects o).header size = .error e) :
      InstanceStep pid keys c (.failed p) (c.setProc p .invalid)
  | attachName {c : InstanceConfig P O} {p : P} {o : O} (h : c.procs p = .validated o)
      (hn : (c.objects o).header.nameView = registryName) :
      InstanceStep pid keys c (.attach p) (c.setProc p (.named o))
  | attachMisnamed {c : InstanceConfig P O} {p : P} {o : O} (h : c.procs p = .validated o)
      (hn : (c.objects o).header.nameView ≠ registryName) :
      InstanceStep pid keys c (.failed p) (c.setProc p .invalid)
  | attachVerify {c : InstanceConfig P O} {p : P} {o : O} (h : c.procs p = .named o)
      (hv : verifyHeaderHmac (keys p) (c.objects o).header = .ok ()) :
      InstanceStep pid keys c (.attach p) (c.setProc p (.verified o))
  | attachForged {c : InstanceConfig P O} {p : P} {o : O} {e : ErrorCode} (h : c.procs p = .named o)
      (hv : verifyHeaderHmac (keys p) (c.objects o).header = .error e) :
      InstanceStep pid keys c (.failed p) (c.setProc p .invalid)
  | attachCheck {c : InstanceConfig P O} {p : P} {o : O} (h : c.procs p = .verified o)
      (hs : (c.objects o).header.state ≠ SegmentState.dead.code) :
      InstanceStep pid keys c (.attach p) (c.setProc p (.checked o))
  | attachDead {c : InstanceConfig P O} {p : P} {o : O} (h : c.procs p = .verified o)
      (hs : (c.objects o).header.state = SegmentState.dead.code) :
      InstanceStep pid keys c (.failed p) (c.setProc p .invalid)
  | attachBump {c : InstanceConfig P O} {p : P} {o : O} (h : c.procs p = .checked o) :
      InstanceStep pid keys c (.attach p)
        ((c.setObject o ((c.objects o).setRefs ((c.objects o).header.refCount + 1))).setProc p
          (.bumped o))
  | attachReturn {c : InstanceConfig P O} {p : P} {o : O} (h : c.procs p = .bumped o)
      (hs : (c.objects o).header.state ≠ SegmentState.dead.code) :
      InstanceStep pid keys c (.ready p) (c.setProc p (.ready o))
  | attachRecheckDead {c : InstanceConfig P O} {p : P} {o : O} (h : c.procs p = .bumped o)
      (hs : (c.objects o).header.state = SegmentState.dead.code) :
      InstanceStep pid keys c (.attach p) (c.setProc p (.rollingBack o))
  | attachRollBack {c : InstanceConfig P O} {p : P} {o : O} (h : c.procs p = .rollingBack o) :
      InstanceStep pid keys c (.failed p)
        ((c.setObject o ((c.objects o).setRefs ((c.objects o).header.refCount - 1))).setProc p
          .invalid)
  | call {c : InstanceConfig P O} {p : P} {o : O} (call : RegistryCall)
      (h : c.procs p = .ready o) :
      InstanceStep pid keys c (.called p call)
        (c.setObject o { c.objects o with payload := (registryCall (c.objects o).payload call).2 })

/-- An exclusive open is lost only to a creator that has initialised the mutex. -/
def LosesInitialized (c : InstanceConfig P O) : InstanceEvent P → Prop
  | .lost _ => ∀ o, c.linked = some o → (c.objects o).header.controlMutex = .robust
  | _ => True

/-- Nobody is left without a handle, all handles are on the linked object, whose mutex is there
before any call, and whoever has started has a next access until it is ready. -/
structure Agreed (pid : P → UInt32) (keys : P → KeySource) (c : InstanceConfig P O) : Prop where
  valid : ∀ p, c.procs p ≠ .invalid
  same : ∀ p o, c.procs p = .ready o → c.linked = some o
  initialized : ∀ p call d, InstanceStep pid keys c (.called p call) d →
    ∃ o, c.procs p = .ready o ∧ (c.objects o).header.controlMutex = .robust
  advances : ∀ p, (∃ o, c.procs p = .ready o) ∨ c.procs p = .start ∨
    ∃ e d, InstanceStep pid keys c e d ∧ e.actor = p
  bounded : ∀ e d, InstanceStep pid keys c e d → (∃ p call, e = .called p call) ∨
    (d.procs e.actor).remaining < (c.procs e.actor).remaining

section Proofs

variable {pid : P → UInt32} {keys : P → KeySource} {c d : InstanceConfig P O}
  {e : InstanceEvent P} {as : List (InstanceEvent P)} {o : O} {k : Nat}

omit [DecidableEq O] in
theorem procs_setProc (c : InstanceConfig P O) (p : P) (pc : InstancePc O) :
    (c.setProc p pc).procs p = pc :=
  Function.update_self ..

omit [DecidableEq P] in
theorem objects_setObject (c : InstanceConfig P O) (o : O) (object : RegistryObject) :
    (c.setObject o object).objects o = object :=
  Function.update_self ..

theorem length_registryStores (n : UInt32) : (registryStores n).length = registryBuilt := rfl

theorem registryStore_index {n : UInt32} {store : RegistryObject → RegistryObject}
    (hs : (registryStores n)[k]? = some store) : k < registryBuilt := by
  rw [← length_registryStores n]
  exact (List.getElem?_eq_some_iff.mp hs).1

theorem objectAfter_succ {n : UInt32} {store : RegistryObject → RegistryObject}
    (hs : (registryStores n)[k]? = some store) :
    objectAfter n (k + 1) = store (objectAfter n k) := by
  rw [objectAfter, List.take_add_one, hs, List.foldl_append]
  rfl

/-- The mutex is the last thing to be initialised. -/
theorem objectAfter_mutex {n : UInt32} (hk : k < registryBuilt) :
    (objectAfter n k).header.controlMutex = .zeroed := by
  rw [registryBuilt] at hk
  interval_cases k <;> rfl

/-- The registry once it is built; attaches count their handles. -/
def Built (n : UInt32) (object : RegistryObject) : Prop :=
  object.size = registryTotalSize ∧
    ∃ refs, object.header = { (objectAfter n registryBuilt).header with refCount := refs }

theorem built_objectAfter (n : UInt32) : Built n (objectAfter n registryBuilt) :=
  ⟨rfl, 1, rfl⟩

theorem Built.setRefs {n : UInt32} {object : RegistryObject} (h : Built n object)
    (refs : UInt32) : Built n (object.setRefs refs) := by
  obtain ⟨hs, _, hh⟩ := h
  refine ⟨hs, refs, ?_⟩
  rw [RegistryObject.setRefs, hh]

/-- Every check of `attach` passes on the object. -/
structure Admits (object : RegistryObject) : Prop where
  size : headerSize ≤ object.size
  validated : validateHeader object.header object.size = .ok ()
  name : object.header.nameView = registryName
  hmac : ∀ keys, verifyHeaderHmac keys object.header = .ok ()
  state : object.header.state ≠ SegmentState.dead.code

/-- Neither the counter nor the mutex matters to the checks. -/
theorem admits_of_header {n refs : UInt32} {mutex : ControlMutex} {object : RegistryObject}
    (hs : object.size = registryTotalSize)
    (hh : object.header = { (objectAfter n registryBuilt).header with
      refCount := refs, controlMutex := mutex }) : Admits object := by
  have hflags : object.header.flags &&& hmacEnabled = 0 := by
    rw [hh]
    exact (by decide : robustMutex &&& hmacEnabled = 0)
  have hname : object.header.name = copyName registryName := by
    rw [hh]
    rfl
  refine ⟨?_, ?_, ?_, ?_, ?_⟩
  · rw [hs]
    decide
  · rw [hs, hh]
    exact validateHeader_ok_iff.mpr
      ⟨rfl, rfl, rfl, (by decide : 256 ≤ registryTotalSize.toNat),
        (by decide : 256 ≤ headerSize.toUInt32.toNat),
        (by decide : headerSize.toUInt32.toNat + 0 ≤ registryTotalSize.toNat),
        (by decide : headerSize.toUInt32.toNat + 0 ≤ headerSize.toUInt32.toNat),
        (by decide : (headerSize.toUInt32.toNat + (registryTotalSize - headerSize).toNat) % 2 ^ 64
          ≤ registryTotalSize.toNat)⟩
  · rw [ShmHeader.nameView, hname]
    exact fixedNameView_copyName (by decide) (by decide)
  · intro keys
    have hzero : hasHmacBytes object.header = false := hasHmacBytes_zero (by rw [hh]; rfl)
    exact if_pos ⟨hflags, hzero⟩
  · rw [hh]
    exact (by decide : SegmentState.active.code ≠ SegmentState.dead.code)

theorem Built.admits {n : UInt32} {object : RegistryObject} (h : Built n object) :
    Admits object := by
  obtain ⟨hs, refs, hh⟩ := h
  exact admits_of_header hs hh

theorem Built.mutex {n : UInt32} {object : RegistryObject} (h : Built n object) :
    object.header.controlMutex = .robust := by
  obtain ⟨-, refs, hh⟩ := h
  rw [hh]
  rfl

/-- A process that works on the built registry `o` and no check fails. -/
def OnRegistry (o : O) : InstancePc O → Prop
  | .start | .lost => True
  | .creating o' k => o' = o ∧ k = registryBuilt
  | .mapped o' size => o' = o ∧ size = registryTotalSize
  | .opened o' | .validated o' | .named o' | .verified o' | .checked o' | .bumped o'
  | .ready o' => o' = o
  | .rollingBack _ | .invalid => False

/-- Before the exclusive open, up to the mutex, and from then on. -/
inductive Phase (pid : P → UInt32) (c : InstanceConfig P O) : Prop
  | untouched (hl : c.linked = none) (hp : ∀ p, c.procs p = .start)
  | building {p : P} {o : O} {k : Nat} (hl : c.linked = some o) (hp : c.procs p = .creating o k)
      (hk : k < registryBuilt) (hq : ∀ q, q ≠ p → c.procs q = .start)
      (ho : c.objects o = objectAfter (pid p) k)
  | built {o : O} {n : UInt32} (hl : c.linked = some o) (ho : Built n (c.objects o))
      (hp : ∀ p, OnRegistry o (c.procs p))

omit [DecidableEq O] in
theorem onRegistry_setProc {p : P} {pc : InstancePc O}
    (hq : ∀ q, q ≠ p → OnRegistry o (c.procs q)) (hpc : OnRegistry o pc) (q : P) :
    OnRegistry o ((c.setProc p pc).procs q) := by
  by_cases hqp : q = p
  · subst hqp
    simpa [InstanceConfig.setProc] using hpc
  · simpa [InstanceConfig.setProc, hqp] using hq q hqp

theorem noRegistry_step (hs : InstanceStep pid keys c e d) (hl : c.linked = none)
    (hp : ∀ p, c.procs p = .start) : Phase pid d := by
  cases hs with
  | @createOpen p o =>
    refine .building (p := p) (o := o) (k := 0) rfl (procs_setProc ..) (by decide) ?_
      (objects_setObject ..)
    intro q hq
    exact (Function.update_of_ne hq ..).trans (hp q)
  | lose _ hl' => cases hl.symm.trans hl'
  | createStore h | createReturn h | attachOpen h | attachMissing h | attachStat h | attachShort h
  | attachValidate h | attachInvalid h | attachName h | attachMisnamed h | attachVerify h
  | attachForged h | attachCheck h | attachDead h | attachBump h | attachReturn h
  | attachRecheckDead h | attachRollBack h | call _ h => cases (hp _).symm.trans h

omit [DecidableEq O] in
theorem building_pc {p : P} (hp : c.procs p = .creating o k)
    (hq : ∀ q, q ≠ p → c.procs q = .start) (q : P) :
    c.procs q = .start ∨ q = p ∧ c.procs q = .creating o k := by
  by_cases hqp : q = p
  · exact .inr ⟨hqp, hqp ▸ hp⟩
  · exact .inl (hq q hqp)

theorem buildingRegistry_step {p : P} (hs : InstanceStep pid keys c e d)
    (hok : LosesInitialized c e) (hl : c.linked = some o) (hp : c.procs p = .creating o k)
    (hk : k < registryBuilt) (hq : ∀ q, q ≠ p → c.procs q = .start)
    (ho : c.objects o = objectAfter (pid p) k) : Phase pid d := by
  have hpc := building_pc hp hq
  cases hs with
  | createOpen _ _ hl' => cases hl.symm.trans hl'
  | lose =>
    have hrobust := hok o hl
    rw [ho, objectAfter_mutex hk] at hrobust
    cases hrobust
  | @createStore q o' k' store h hs =>
    rcases hpc q with h' | ⟨rfl, h'⟩
    · cases h'.symm.trans h
    · cases h'.symm.trans h
      have hafter :
          (c.setObject o (store (c.objects o))).objects o = objectAfter (pid q) (k + 1) := by
        rw [objects_setObject, objectAfter_succ hs, ho]
      by_cases hlast : k + 1 < registryBuilt
      · refine .building hl (procs_setProc ..) hlast ?_ hafter
        intro r hr
        exact (Function.update_of_ne hr ..).trans (hq r hr)
      · have hend : k + 1 = registryBuilt := by omega
        rw [hend] at hafter
        refine .built (n := pid q) hl ?_ (onRegistry_setProc ?_ ⟨rfl, hend⟩)
        · exact hafter ▸ built_objectAfter (pid q)
        · intro r hr
          have hstart : c.procs r = .start := hq r hr
          exact hstart ▸ trivial
  | createReturn h =>
    rcases hpc _ with h' | ⟨-, h'⟩
    · cases h'.symm.trans h
    · cases h'.symm.trans h
      exact absurd hk (Nat.lt_irrefl _)
  | attachOpen h | attachMissing h | attachStat h | attachShort h | attachValidate h
  | attachInvalid h | attachName h | attachMisnamed h | attachVerify h | attachForged h
  | attachCheck h | attachDead h | attachBump h | attachReturn h | attachRecheckDead h
  | attachRollBack h | call _ h =>
    rcases hpc _ with h' | ⟨-, h'⟩
    · cases h'.symm.trans h
    · cases h'.symm.trans h

theorem builtRegistry_step {n : UInt32} (hs : InstanceStep pid keys c e d) (hl : c.linked = some o)
    (ho : Built n (c.objects o)) (hp : ∀ p, OnRegistry o (c.procs p)) : Phase pid d := by
  have hadmits := ho.admits
  have hpc {p : P} {pc : InstancePc O} (h : c.procs p = pc) : OnRegistry o pc := h ▸ hp p
  have hset {p : P} {pc : InstancePc O} (h : OnRegistry o pc) : Phase pid (c.setProc p pc) :=
    .built hl ho (onRegistry_setProc (fun q _ => hp q) h)
  have hobject {object : RegistryObject} (h : Built n object) :
      Built n ((c.setObject o object).objects o) := by
    rwa [objects_setObject]
  cases hs with
  | createOpen _ _ hl' => cases hl.symm.trans hl'
  | createStore h hs =>
    obtain ⟨-, rfl⟩ := hpc h
    exact absurd (registryStore_index hs) (Nat.lt_irrefl _)
  | createReturn h => exact hset (hpc h).1
  | lose => exact hset trivial
  | attachOpen _ hl' => exact hset (Option.some.inj (hl'.symm.trans hl))
  | attachMissing _ hl' => cases hl.symm.trans hl'
  | attachStat h =>
    obtain rfl := hpc h
    exact hset ⟨rfl, ho.1⟩
  | attachShort h hs =>
    obtain rfl := hpc h
    exact absurd hs (UInt64.not_lt.mpr hadmits.size)
  | attachValidate h => exact hset (hpc h).1
  | attachName h | attachVerify h | attachCheck h | attachReturn h =>
    obtain rfl := hpc h
    exact hset rfl
  | attachInvalid h hv =>
    obtain ⟨rfl, rfl⟩ := hpc h
    rw [← ho.1, hadmits.validated] at hv
    cases hv
  | attachMisnamed h hn =>
    obtain rfl := hpc h
    exact absurd hadmits.name hn
  | attachForged h hv =>
    obtain rfl := hpc h
    rw [hadmits.hmac] at hv
    cases hv
  | attachDead h hs | attachRecheckDead h hs =>
    obtain rfl := hpc h
    exact absurd hs hadmits.state
  | attachBump h =>
    obtain rfl := hpc h
    exact .built hl (hobject (ho.setRefs _)) (onRegistry_setProc (fun q _ => hp q) rfl)
  | attachRollBack h => exact (hpc h).elim
  | call _ h =>
    obtain rfl := hpc h
    exact .built hl (hobject ⟨ho.1, ho.2⟩) hp

theorem phase_run (hr : Run (Guarded LosesInitialized (InstanceStep pid keys)) .initial as c) :
    Phase pid c := by
  induction hr with
  | nil => exact .untouched rfl fun _ => rfl
  | snoc _ hs ih =>
    cases ih with
    | untouched hl hp => exact noRegistry_step hs.2 hl hp
    | building hl hp hk hq ho => exact buildingRegistry_step hs.2 hs.1 hl hp hk hq ho
    | built hl ho hp => exact builtRegistry_step hs.2 hl ho hp

/-- Up to its handle a process has a next access, whatever the others do. -/
theorem advances_built {n : UInt32} {p : P} (hl : c.linked = some o) (ho : Built n (c.objects o))
    (hp : OnRegistry o (c.procs p)) : (∃ o, c.procs p = .ready o) ∨ c.procs p = .start ∨
      ∃ e d, InstanceStep pid keys c e d ∧ e.actor = p := by
  have hadmits := ho.admits
  have hat {pc : InstancePc O} (h : c.procs p = pc) : OnRegistry o pc := h ▸ hp
  cases hpc : c.procs p with
  | start => exact .inr (.inl rfl)
  | ready o => exact .inl ⟨o, rfl⟩
  | lost => exact .inr (.inr ⟨_, _, .attachOpen hpc hl, rfl⟩)
  | creating o' k =>
    obtain ⟨-, rfl⟩ := hat hpc
    exact .inr (.inr ⟨_, _, .createReturn hpc, rfl⟩)
  | mapped o' size =>
    obtain ⟨rfl, rfl⟩ := hat hpc
    exact .inr (.inr ⟨_, _, .attachValidate hpc (ho.1 ▸ hadmits.validated), rfl⟩)
  | opened o' =>
    obtain rfl := hat hpc
    exact .inr (.inr ⟨_, _, .attachStat hpc hadmits.size, rfl⟩)
  | validated o' =>
    obtain rfl := hat hpc
    exact .inr (.inr ⟨_, _, .attachName hpc hadmits.name, rfl⟩)
  | named o' =>
    obtain rfl := hat hpc
    exact .inr (.inr ⟨_, _, .attachVerify hpc (hadmits.hmac _), rfl⟩)
  | verified o' =>
    obtain rfl := hat hpc
    exact .inr (.inr ⟨_, _, .attachCheck hpc hadmits.state, rfl⟩)
  | checked o' => exact .inr (.inr ⟨_, _, .attachBump hpc, rfl⟩)
  | bumped o' =>
    obtain rfl := hat hpc
    exact .inr (.inr ⟨_, _, .attachReturn hpc hadmits.state, rfl⟩)
  | rollingBack | invalid => exact (hat hpc).elim

omit [DecidableEq O] in
theorem remaining_setProc {p : P} {pc pc' : InstancePc O} (h : c.procs p = pc)
    (hlt : pc'.remaining < pc.remaining) :
    ((c.setProc p pc').procs p).remaining < (c.procs p).remaining := by
  rwa [procs_setProc, h]

/-- `instance()` is straight-line code. -/
theorem remaining_step (hs : InstanceStep pid keys c e d) : (∃ p call, e = .called p call) ∨
    (d.procs e.actor).remaining < (c.procs e.actor).remaining := by
  cases hs with
  | call => exact .inl ⟨_, _, rfl⟩
  | createStore h hs =>
    have hlt := registryStore_index hs
    refine .inr (remaining_setProc (c := c.setObject _ _) h ?_)
    simp only [InstancePc.remaining]
    omega
  | @createOpen _ o h =>
    have hc : ({ c with linked := some o }.setObject o emptyObject).procs = c.procs := rfl
    exact .inr (remaining_setProc (hc ▸ h) (by simp [InstancePc.remaining]))
  | attachBump h | attachRollBack h =>
    exact .inr (remaining_setProc (c := c.setObject _ _) h (by simp [InstancePc.remaining]))
  | createReturn h | lose h | attachOpen h | attachMissing h | attachStat h | attachShort h
  | attachValidate h | attachInvalid h | attachName h | attachMisnamed h | attachVerify h
  | attachForged h | attachCheck h | attachDead h | attachReturn h | attachRecheckDead h =>
    exact .inr (remaining_setProc h (by simp [InstancePc.remaining, registryBuilt]))

omit [DecidableEq O] in
theorem Phase.valid (h : Phase pid c) (p : P) : c.procs p ≠ .invalid := by
  intro hp
  cases h with
  | untouched _ hstart => cases (hstart p).symm.trans hp
  | building _ hc _ hq =>
    rcases building_pc hc hq p with h | ⟨-, h⟩
    · cases h.symm.trans hp
    · cases h.symm.trans hp
  | @built o _ _ _ ha =>
    have h := ha p
    rw [hp] at h
    exact h

omit [DecidableEq O] in
/-- A handle is on the linked object, whose mutex is initialised. -/
theorem Phase.ready {p : P} (h : Phase pid c) (hp : c.procs p = .ready o) :
    c.linked = some o ∧ (c.objects o).header.controlMutex = .robust := by
  cases h with
  | untouched _ hstart => cases (hstart p).symm.trans hp
  | building _ hc _ hq =>
    rcases building_pc hc hq p with h | ⟨-, h⟩
    · cases h.symm.trans hp
    · cases h.symm.trans hp
  | @built o' _ hl ho ha =>
    have h := ha p
    rw [hp] at h
    obtain rfl : o = o' := h
    exact ⟨hl, ho.mutex⟩

theorem Phase.advances (h : Phase pid c) (p : P) : (∃ o, c.procs p = .ready o) ∨
    c.procs p = .start ∨ ∃ e d, InstanceStep pid keys c e d ∧ e.actor = p := by
  cases h with
  | untouched _ hstart => exact .inr (.inl (hstart p))
  | @building q o k _ hc hk hq =>
    rcases building_pc hc hq p with h | ⟨rfl, h⟩
    · exact .inr (.inl h)
    · obtain ⟨store, hs⟩ : ∃ store, (registryStores (pid p))[k]? = some store :=
        ⟨_, List.getElem?_eq_getElem hk⟩
      exact .inr (.inr ⟨_, _, .createStore h hs, rfl⟩)
  | built hl ho ha => exact advances_built hl ho (ha p)

/-- Whoever loses the exclusive open to a finished creator shares the registry with it. -/
theorem bootstrap_agrees
    (hr : Run (Guarded LosesInitialized (InstanceStep pid keys)) .initial as c) :
    Agreed pid keys c := by
  have hphase := phase_run hr
  refine ⟨hphase.valid, fun _ _ h => (hphase.ready h).1, ?_, hphase.advances,
    fun _ _ => remaining_step⟩
  intro p call d hs
  cases hs with
  | call _ h => exact ⟨_, h, (hphase.ready h).2⟩

omit [DecidableEq O] in
theorem setProc_setProc (c : InstanceConfig P O) (p : P) (pc pc' : InstancePc O) :
    (c.setProc p pc).setProc p pc' = c.setProc p pc' := by
  simp [InstanceConfig.setProc]

/-- A creator that nobody disturbs makes its accesses one after another. -/
theorem building_run (pid : P → UInt32) (keys : P → KeySource) (p : P) (o : O) {k : Nat}
    (hk : k ≤ registryBuilt) :
    ∃ as, ∃ c : InstanceConfig P O,
      Run (Guarded LosesInitialized (InstanceStep pid keys)) .initial as c ∧
      c.linked = some o ∧ c.objects o = objectAfter (pid p) k ∧ c.procs p = .creating o k ∧
      ∀ q, q ≠ p → c.procs q = .start := by
  induction k with
  | zero =>
    have hopen : Guarded LosesInitialized (InstanceStep pid keys) .initial (.create p)
        (({ (.initial : InstanceConfig P O) with linked := some o }.setObject o emptyObject).setProc
          p (.creating o 0)) := ⟨trivial, .createOpen o rfl rfl⟩
    refine ⟨_, _, .single hopen, rfl, objects_setObject .., procs_setProc .., ?_⟩
    exact fun q hq => Function.update_of_ne hq ..
  | succ k ih =>
    obtain ⟨as, c, hr, hl, ho, hp, hq⟩ := ih (Nat.le_of_succ_le hk)
    obtain ⟨store, hs⟩ : ∃ store, (registryStores (pid p))[k]? = some store :=
      ⟨_, List.getElem?_eq_getElem hk⟩
    have hstore : Guarded LosesInitialized (InstanceStep pid keys) c (.create p)
        ((c.setObject o (store (c.objects o))).setProc p (.creating o (k + 1))) :=
      ⟨trivial, .createStore hp hs⟩
    refine ⟨_, _, hr.snoc hstore, hl, ?_, procs_setProc .., ?_⟩
    · rw [objectAfter_succ hs, ← ho]
      exact objects_setObject ..
    · intro q hqp
      exact (Function.update_of_ne hqp ..).trans (hq q hqp)

/-- On a header that passes the checks an attach ends with a handle, mutex or not, and leaves the
others where they are. -/
theorem attachRegistry_run (pid : P → UInt32) (keys : P → KeySource)
    (ok : InstanceConfig P O → InstanceEvent P → Prop) {q : P} (hlost : ok c (.lost q))
    (hok : ∀ c, ok c (.attach q) ∧ ok c (.ready q)) (hq : c.procs q = .start)
    (hl : c.linked = some o) (ha : Admits (c.objects o)) :
    ∃ bs d, Run (Guarded ok (InstanceStep pid keys)) c (.lost q :: bs) d ∧
      d.procs q = .ready o ∧ (∀ p, p ≠ q → d.procs p = c.procs p) ∧
      (d.objects o).header.controlMutex = (c.objects o).header.controlMutex := by
  have hlose : Guarded ok (InstanceStep pid keys) c (.lost q) (c.setProc q .lost) :=
    ⟨hlost, .lose hq hl⟩
  have hopen : InstanceStep pid keys (c.setProc q .lost) (.attach q) (c.setProc q (.opened o)) := by
    rw [← setProc_setProc c q .lost (.opened o)]
    exact .attachOpen (procs_setProc ..) hl
  have hstat : InstanceStep pid keys (c.setProc q (.opened o)) (.attach q)
      (c.setProc q (.mapped o (c.objects o).size)) := by
    rw [← setProc_setProc c q (.opened o) (.mapped o _)]
    exact .attachStat (procs_setProc ..) ha.size
  have hvalid : InstanceStep pid keys (c.setProc q (.mapped o (c.objects o).size)) (.attach q)
      (c.setProc q (.validated o)) := by
    rw [← setProc_setProc c q (.mapped o (c.objects o).size) (.validated o)]
    exact .attachValidate (procs_setProc ..) ha.validated
  have hname : InstanceStep pid keys (c.setProc q (.validated o)) (.attach q)
      (c.setProc q (.named o)) := by
    rw [← setProc_setProc c q (.validated o) (.named o)]
    exact .attachName (procs_setProc ..) ha.name
  have hverify : InstanceStep pid keys (c.setProc q (.named o)) (.attach q)
      (c.setProc q (.verified o)) := by
    rw [← setProc_setProc c q (.named o) (.verified o)]
    exact .attachVerify (procs_setProc ..) (ha.hmac _)
  have hcheck : InstanceStep pid keys (c.setProc q (.verified o)) (.attach q)
      (c.setProc q (.checked o)) := by
    rw [← setProc_setProc c q (.verified o) (.checked o)]
    exact .attachCheck (procs_setProc ..) ha.state
  let bumped := ((c.setProc q (.checked o)).setObject o
    ((c.objects o).setRefs ((c.objects o).header.refCount + 1))).setProc q (.bumped o)
  have hobject : bumped.objects o =
      (c.objects o).setRefs ((c.objects o).header.refCount + 1) := objects_setObject ..
  have hbump : InstanceStep pid keys (c.setProc q (.checked o)) (.attach q) bumped :=
    .attachBump (procs_setProc ..)
  have hreturn : InstanceStep pid keys bumped (.ready q) (bumped.setProc q (.ready o)) :=
    .attachReturn (procs_setProc ..) ((congrArg (·.header.state) hobject).trans_ne ha.state)
  have hattached : Run (Guarded ok (InstanceStep pid keys)) (c.setProc q .lost) _ _ :=
    (((((((Run.single ⟨(hok _).1, hopen⟩).snoc ⟨(hok _).1, hstat⟩).snoc ⟨(hok _).1, hvalid⟩).snoc
      ⟨(hok _).1, hname⟩).snoc ⟨(hok _).1, hverify⟩).snoc ⟨(hok _).1, hcheck⟩).snoc
      ⟨(hok _).1, hbump⟩).snoc ⟨(hok _).2, hreturn⟩
  refine ⟨_, _, .cons hlose hattached, procs_setProc .., ?_, ?_⟩
  · intro p hp
    calc
      (bumped.setProc q (.ready o)).procs p = bumped.procs p := Function.update_of_ne hp ..
      _ = (c.setProc q (.checked o)).procs p := Function.update_of_ne hp ..
      _ = c.procs p := Function.update_of_ne hp ..
  · exact congrArg (·.header.controlMutex) hobject

/-- Two processes: one builds the registry, the other loses the exclusive open to it once the mutex
is there, attaches, and lists the registry before the first has returned. -/
theorem bootstrap_agrees_attached :
    ∃ as, ∃ c : InstanceConfig Bool Unit,
      Run (Guarded LosesInitialized (InstanceStep (fun _ => 7) fun _ => ⟨none, none⟩))
        .initial as c ∧ .lost false ∈ as ∧ .called false (.list []) ∈ as ∧
      c.procs false = .ready () ∧ c.procs true = .ready () ∧
      Agreed (fun _ => 7) (fun _ => ⟨none, none⟩) c := by
  obtain ⟨as, c, hr, hl, ho, hp, hq⟩ :=
    building_run (fun _ => 7) (fun _ => ⟨none, none⟩) true () (Nat.le_refl registryBuilt)
  have hbuilt : Built 7 (c.objects ()) := by
    rw [ho]
    exact built_objectAfter 7
  have hlost : LosesInitialized c (.lost false) := fun _ _ => hbuilt.mutex
  obtain ⟨bs, d, hattached, hready, hkept, -⟩ :=
    attachRegistry_run (fun _ => 7) (fun _ => ⟨none, none⟩) LosesInitialized hlost
      (fun _ => ⟨trivial, trivial⟩) (hq false nofun) hl hbuilt.admits
  have hrun := hr.append hattached
  have hcalled := hrun.snoc ⟨(by trivial), .call (.list []) hready⟩
  have hreturned := hcalled.snoc (a := .ready true)
    ⟨(by trivial), .createReturn ((hkept true nofun).trans hp)⟩
  have hother : false ≠ true := nofun
  refine ⟨_, _, hreturned, ?_, ?_, ?_, procs_setProc .., bootstrap_agrees hreturned⟩
  · simp
  · simp
  · exact (Function.update_of_ne hother (.ready ()) d.procs).trans hready

/-- A loser that comes too early is left without a handle; one that comes between the name and
the mutex calls the registry before its mutex is there. -/
theorem bootstrap_races :
    (∃ as, ∃ c : InstanceConfig Bool Unit,
      Run (InstanceStep (fun _ => 7) fun _ => ⟨none, none⟩) .initial as c ∧
      c.procs false = .invalid) ∧
    ∃ as, ∃ c : InstanceConfig Bool Unit, ∃ d,
      Run (InstanceStep (fun _ => 7) fun _ => ⟨none, none⟩) .initial as c ∧
      c.procs false = .ready () ∧
      InstanceStep (fun _ => 7) (fun _ => ⟨none, none⟩) c (.called false (.list [])) d ∧
      (c.objects ()).header.controlMutex = .zeroed := by
  refine ⟨?_, ?_⟩
  · obtain ⟨as, c, hr, hl, ho, -, hq⟩ :=
      building_run (fun _ => 7) (fun _ => ⟨none, none⟩) true () (Nat.zero_le registryBuilt)
    have hshort : (c.objects ()).size < headerSize := by
      rw [ho]
      decide
    exact ⟨_, _, ((hr.unguard.snoc (.lose (hq false nofun) hl)).snoc
      (.attachOpen (procs_setProc ..) hl)).snoc (.attachShort (procs_setProc ..) hshort),
      procs_setProc ..⟩
  · obtain ⟨as, c, hr, hl, ho, -, hq⟩ :=
      building_run (fun _ => 7) (fun _ => ⟨none, none⟩) true () (k := 18) (by decide)
    have ha : Admits (c.objects ()) := by
      rw [ho]
      have hh : (objectAfter 7 18).header = { (objectAfter 7 registryBuilt).header with
          refCount := 1, controlMutex := .zeroed } := rfl
      exact admits_of_header rfl hh
    obtain ⟨bs, d, hrun, hready, -, hmutex⟩ :=
      attachRegistry_run (fun _ => 7) (fun _ => ⟨none, none⟩) (fun _ _ => True) trivial
        (fun _ => ⟨trivial, trivial⟩) (hq false nofun) hl ha
    refine ⟨_, d, _, hr.unguard.append hrun.unguard, hready, .call _ hready, ?_⟩
    rw [hmutex, ho]
    rfl

end Proofs

end Steps

end Shmfx
