import Shmfx.Janitor.Linked
import Shmfx.Lib.Rollback
import Shmfx.Segment.Handles

/-! `Registry::gc`, `ShmManager::attach` and `ShmHandle::reset` with every descriptor and mapping
they open and give back. -/
namespace Shmfx

open Lts Rollback

/-- The shared objects, and of one process its open descriptors, its mappings and the headers its
heartbeat worker knows. -/
structure Process (A : Type) where
  store : LinkedStore
  fds : Int → Option Nat
  mapped : A → Option Nat
  heartbeat : List A

/-- What the system answers: to `gc`, to `attach`, and the descriptor and address it has free. -/
structure ProcessEnv (A : Type) extends AttachEnv where
  fd : Int
  base : A

namespace Process

variable {A : Type}

def setStore (store : LinkedStore) (p : Process A) : Process A := { p with store := store }

def shmUnlink (name : Name) (p : Process A) : Process A := p.setStore (p.store.unlink name)

def unregister (name : Name) (p : Process A) : Process A :=
  p.setStore (p.store.setRegistry (p.store.registry.unregister name).2)

def registerSegment (entry : RegistryEntry) (p : Process A) : Process A :=
  p.setStore (p.store.setRegistry (p.store.registry.registerSegment entry).2)

def openFd (fd : Int) (o : Nat) (p : Process A) : Process A :=
  { p with fds := Function.update p.fds fd (some o) }

def close (fd : Int) (p : Process A) : Process A :=
  { p with fds := Function.update p.fds fd none }

/-- `st_size` of the object behind a descriptor. -/
def sizeOf (fd : Int) (p : Process A) : UInt64 :=
  ((p.fds fd).map fun o => (p.store.objects o).size).getD 0

/-- The header mapped at an address. -/
def headerAt (base : A) (p : Process A) : ShmHeader :=
  ((p.mapped base).map fun o => (p.store.objects o).header).getD zeroHeader

/-- A store to the header mapped at an address. -/
def storeHeader (base : A) (f : ShmHeader → ShmHeader) (p : Process A) : Process A :=
  match p.mapped base with
  | none => p
  | some o =>
    p.setStore (p.store.setObject o
      { p.store.objects o with header := f (p.store.objects o).header })

def unregisterHeartbeatOwner [DecidableEq A] (base : A) (p : Process A) : Process A :=
  { p with heartbeat := p.heartbeat.filter (· ≠ base) }

section Calls

variable [DecidableEq A]

def mmap (base : A) (fd : Int) (p : Process A) : Process A :=
  { p with mapped := Function.update p.mapped base (p.fds fd) }

def munmap (base : A) (p : Process A) : Process A :=
  { p with mapped := Function.update p.mapped base none }

/-- The two calls most exits make. -/
def quit (env : ProcessEnv A) (p : Process A) : Process A := (p.munmap env.base).close env.fd

/-- What `gc` does to a segment it has mapped and whose header is valid. -/
def gcMapped (env : ProcessEnv A) (entry : RegistryEntry) (p : Process A) : Process A :=
  let name := entryName entry
  let dead := ownerIsDead env.gc.processes (p.headerAt env.base) env.gc.now
  let rc := (p.headerAt env.base).refCount
  let state := (p.headerAt env.base).state
  if dead ∧ rc = 0 then
    let p :=
      if env.gc.locks name then
        if (p.headerAt env.base).refCount = 0 ∧
            ownerIsDead env.gc.processes (p.headerAt env.base) env.gc.now then
          ((p.storeHeader env.base fun h => { h with state := SegmentState.dead.code }).shmUnlink
            name).unregister name
        else p
      else p
    p.quit env
  else if dead ∧ rc > 0 ∧ state = SegmentState.active.code then
    -- the compare-exchange finds the state that was just loaded
    let p := p.storeHeader env.base fun h => { h with state := SegmentState.draining.code }
    (p.registerSegment { entry with lastSeenNs := env.gc.now }).quit env
  else if state = SegmentState.draining.code ∧ entry.lastSeenNs ≠ 0 ∧
      env.gc.now > entry.lastSeenNs ∧ env.gc.now - entry.lastSeenNs > segmentZombieNs then
    let p := p.quit env
    if env.gc.mapped name then p else (p.shmUnlink name).unregister name
  else p.quit env

/-- One turn of the loop in `gc`. -/
def gcTurn (env : ProcessEnv A) (p : Process A) (entry : RegistryEntry) : Process A :=
  let name := entryName entry
  if name = [] ∨ name = registryName then p
  else if env.gc.openFails name then p
  else
    match p.store.names name with
    | none => p.unregister name
    | some o =>
      let p := p.openFd env.fd o
      if p.sizeOf env.fd < headerSize then (p.close env.fd).unregister name
      else if env.gc.mapFails name then p.close env.fd
      else
        let size := p.sizeOf env.fd
        let p := p.mmap env.base env.fd
        if janitorHeaderValid (p.headerAt env.base) size = false then
          (p.quit env).unregister name
        else p.gcMapped env entry

/-- `Registry::gc`. -/
def gcCall (env : ProcessEnv A) (p : Process A) : Process A :=
  (p.store.registry.list []).foldl (gcTurn env) p

/-- What `reset` does to the header of a segment it may write to. -/
def dropReference (owner : Bool) (name : Name) (base : A) (p : Process A) : Process A :=
  let previous := (p.headerAt base).refCount
  let p := p.storeHeader base fun h => { h with refCount := h.refCount - 1 }
  let state := (p.headerAt base).state
  if owner ∧ name ≠ registryName ∧ previous = 1 ∧ state = SegmentState.draining.code then
    ((p.storeHeader base fun h => { h with state := SegmentState.dead.code }).shmUnlink
      name).unregister name
  else p

/-- `ShmHandle::reset`. -/
def resetHandle (h : ShmHandle A) (p : Process A) : Process A :=
  let p :=
    match h.base with
    | none => p
    | some base =>
      let name := (p.headerAt base).nameView
      let p := if h.owner then p.unregisterHeartbeatOwner base else p
      let p :=
        match h.mode with
        | .readOnly => p
        | .readWrite => p.dropReference h.owner name base
      p.munmap base
  if h.fd ≥ 0 then p.close h.fd else p

/-- `shm_open` of an object that should exist. -/
def shmOpen (env : ProcessEnv A) (name : Name) : Call (Process A) ErrorCode Unit := fun p =>
  match p.store.names name with
  | none => (.error .notFound, p)
  | some o =>
    match env.openError with
    | some e => (.error e, p)
    | none => (.ok (), p.openFd env.fd o)

def checkSize (env : ProcessEnv A) : Call (Process A) ErrorCode UInt64 := fun p =>
  if p.sizeOf env.fd < headerSize then (.error env.shortError, p)
  else (.ok (p.sizeOf env.fd), p)

def mapSegment (env : ProcessEnv A) : Call (Process A) ErrorCode Unit := do
  attempt (failWith env.mapError)
  act (mmap env.base env.fd)

/-- The checks of `attach` on the mapped header. -/
def headerChecks (env : AttachEnv) (name : Name) (registry : RegistryPayload) (header : ShmHeader)
    (size : UInt64) : Except ErrorCode Unit := do
  validateHeader header size
  rejectIf (header.nameView ≠ name) .corruptedHeader
  rejectIf (registryExpectsHmac registry name ∧ header.flags &&& hmacEnabled = 0) .corruptedHeader
  verifyHeaderHmac env.keys header
  rejectIf (header.state = SegmentState.dead.code) .segmentDead

def checkHeader (env : ProcessEnv A) (name : Name) (size : UInt64) :
    Call (Process A) ErrorCode Unit := fun p =>
  (headerChecks env.toAttachEnv name p.store.registry (p.headerAt env.base) size, p)

/-- The increment of a read-write `attach` and its second look at the state. -/
def countHandle (env : ProcessEnv A) : AttachMode → Call (Process A) ErrorCode Unit
  | .readOnly => pure ()
  | .readWrite => do
    act (storeHeader env.base fun h => { h with refCount := h.refCount + 1 })
    orUndo
      (fun p => (rejectIf ((p.headerAt env.base).state = SegmentState.dead.code) .segmentDead, p))
      (storeHeader env.base fun h => { h with refCount := h.refCount - 1 })

/-- `ShmManager::attach` behind its `gc`. -/
def attachLinked (env : ProcessEnv A) (name : Name) (mode : AttachMode) :
    Call (Process A) ErrorCode (ShmHandle A) := do
  shmOpen env name
  let size ← orUndo (checkSize env) (close env.fd)
  orUndo (mapSegment env) (close env.fd)
  orUndo (checkHeader env name size) (quit env)
  orUndo (countHandle env mode) (quit env)
  return { base := some env.base, size := size.toNat, fd := env.fd, mode := mode }

/-- `ShmManager::attach`. -/
def attachCall (env : ProcessEnv A) (name : Name) (mode : AttachMode) :
    Call (Process A) ErrorCode (ShmHandle A) := do
  let _ ← attempt (parseAndValidateName name)
  act fun p => if name = registryName then p else p.gcCall env
  attachLinked env name mode

end Calls

section Opened

variable {p : Process A} {env : ProcessEnv A} {s t : LinkedStore} {o : Nat} {name : Name}
  {entry : RegistryEntry}

@[simp] theorem setStore_setStore : (p.setStore s).setStore t = p.setStore t := rfl

@[simp] theorem setStore_self : p.setStore p.store = p := rfl

@[simp] theorem store_setStore : (p.setStore s).store = s := rfl

@[simp] theorem fds_setStore : (p.setStore s).fds = p.fds := rfl

@[simp] theorem mapped_setStore : (p.setStore s).mapped = p.mapped := rfl

@[simp] theorem shmUnlink_setStore : (p.setStore s).shmUnlink name = p.setStore (s.unlink name) :=
  rfl

@[simp] theorem unregister_setStore :
    (p.setStore s).unregister name = p.setStore (s.perform (.unregister name)) := rfl

@[simp] theorem registerSegment_setStore :
    (p.setStore s).registerSegment entry = p.setStore (s.perform (.refresh entry)) := rfl

theorem sizeOf_openFd : (p.openFd env.fd o).sizeOf env.fd = (p.store.objects o).size := by
  simp [sizeOf, openFd]

/-- Giving up what was not in use changes nothing. -/
theorem update_of_free {α β : Type} [DecidableEq α] {f : α → Option β} {a : α} (h : f a = none) :
    Function.update f a none = f := by
  rw [← h, Function.update_eq_self]

theorem close_openFd (hfd : p.fds env.fd = none) :
    ((p.openFd env.fd o).setStore s).close env.fd = p.setStore s := by
  simp only [close, setStore, openFd, Function.update_idem, update_of_free hfd]

theorem headerAt_mapped {a : A} (h : p.mapped a = some o) :
    p.headerAt a = (p.store.objects o).header := by
  rw [headerAt, h]
  rfl

theorem storeHeader_mapped {a : A} (h : p.mapped a = some o) (f : ShmHeader → ShmHeader) :
    p.storeHeader a f = p.setStore
      (p.store.setObject o { p.store.objects o with header := f (p.store.objects o).header }) := by
  rw [storeHeader, h]

variable [DecidableEq A]

/-- The object is open and mapped. -/
def opened (env : ProcessEnv A) (o : Nat) (p : Process A) : Process A :=
  (p.openFd env.fd o).mmap env.base env.fd

@[simp] theorem fds_opened : (p.opened env o).fds = Function.update p.fds env.fd (some o) := rfl

@[simp] theorem mapped_opened :
    (p.opened env o).mapped = Function.update p.mapped env.base (some o) := by
  simp [opened, mmap, openFd]

theorem mapped_opened_base : (p.opened env o).mapped env.base = some o := by
  simp

theorem headerAt_opened :
    ((p.opened env o).setStore s).headerAt env.base = (s.objects o).header :=
  headerAt_mapped mapped_opened_base

theorem storeHeader_opened (f : ShmHeader → ShmHeader) :
    ((p.opened env o).setStore s).storeHeader env.base f =
      (p.opened env o).setStore
        (s.setObject o { s.objects o with header := f (s.objects o).header }) :=
  storeHeader_mapped (p := (p.opened env o).setStore s) mapped_opened_base f

/-- What was opened and mapped is given back. -/
theorem quit_opened (hfd : p.fds env.fd = none) (hbase : p.mapped env.base = none) :
    ((p.opened env o).setStore s).quit env = p.setStore s := by
  simp only [quit, opened, munmap, mmap, close, setStore, openFd, Function.update_idem,
    update_of_free hfd, update_of_free hbase]

end Opened

section Gc

variable [DecidableEq A] {p : Process A} {env : ProcessEnv A} {o : Nat} {entry : RegistryEntry}

theorem setState_opened {name : Name} (hn : p.store.names name = some o) (state : SegmentState) :
    (p.opened env o).storeHeader env.base (fun h => { h with state := state.code }) =
      (p.opened env o).setStore (p.store.perform (.setState name state)) := by
  rw [LinkedStore.perform, hn]
  exact storeHeader_opened (s := p.store) _

/-- On a mapped segment `gc` does what it decides, and gives back what it has opened. -/
theorem gcMapped_opened (hfd : p.fds env.fd = none) (hbase : p.mapped env.base = none)
    (hn : p.store.names (entryName entry) = some o) :
    (p.opened env o).gcMapped env entry =
      p.setStore (((judge env.gc entry (p.store.objects o)).actions env.gc entry).foldl
        LinkedStore.perform p.store) := by
  have hheader : (p.opened env o).headerAt env.base = (p.store.objects o).header :=
    headerAt_opened (s := p.store)
  have hquit (s : LinkedStore) : ((p.opened env o).setStore s).quit env = p.setStore s :=
    quit_opened hfd hbase
  have hkept : (p.opened env o).quit env = p.setStore p.store := hquit p.store
  unfold gcMapped judge sweepBranch
  simp only [hheader, setState_opened hn]
  by_cases hdead : ownerIsDead env.gc.processes (p.store.objects o).header env.gc.now = true ∧
      (p.store.objects o).header.refCount = 0
  · rw [if_pos hdead, if_pos hdead]
    dsimp only
    by_cases hlock : env.gc.locks (entryName entry) = true
    · rw [if_pos hlock, if_pos hlock, if_pos ⟨hdead.2, hdead.1⟩]
      exact hquit _
    · rw [if_neg hlock, if_neg hlock]
      exact hkept
  · rw [if_neg hdead, if_neg hdead]
    by_cases horphan : ownerIsDead env.gc.processes (p.store.objects o).header env.gc.now = true ∧
        (p.store.objects o).header.refCount > 0 ∧
        (p.store.objects o).header.state = SegmentState.active.code
    · rw [if_pos horphan, if_pos horphan]
      exact hquit _
    · rw [if_neg horphan, if_neg horphan]
      by_cases hzombie : (p.store.objects o).header.state = SegmentState.draining.code ∧
          entry.lastSeenNs ≠ 0 ∧ env.gc.now > entry.lastSeenNs ∧
          env.gc.now - entry.lastSeenNs > segmentZombieNs
      · rw [if_pos hzombie, if_pos hzombie, hkept]
        dsimp only
        by_cases hmapped : env.gc.mapped (entryName entry) = true
        · rw [if_pos hmapped, if_pos hmapped]
          rfl
        · rw [if_neg hmapped, if_neg hmapped]
          rfl
      · rw [if_neg hzombie, if_neg hzombie]
        exact hkept

theorem gcTurn_eq (hfd : p.fds env.fd = none) (hbase : p.mapped env.base = none) :
    p.gcTurn env entry = p.setStore
      (((verdict env.gc entry (p.store.view.names (entryName entry))).actions env.gc entry).foldl
        LinkedStore.perform p.store) := by
  unfold gcTurn verdict LinkedStore.view
  dsimp only
  by_cases hskip : entryName entry = [] ∨ entryName entry = registryName
  · rw [if_pos hskip, if_pos hskip]
    rfl
  rw [if_neg hskip, if_neg hskip]
  by_cases hopen : env.gc.openFails (entryName entry) = true
  · rw [if_pos hopen, if_pos hopen]
    rfl
  rw [if_neg hopen, if_neg hopen]
  cases hn : p.store.names (entryName entry) with
  | none => rfl
  | some o =>
    have hheader : ((p.openFd env.fd o).mmap env.base env.fd).headerAt env.base =
        (p.store.objects o).header := headerAt_opened (s := p.store)
    dsimp only [Option.map_some]
    rw [sizeOf_openFd, hheader]
    by_cases hshort : (p.store.objects o).size < headerSize
    · rw [if_pos hshort, if_pos hshort]
      exact congrArg (unregister (entryName entry)) (close_openFd hfd)
    rw [if_neg hshort, if_neg hshort]
    by_cases hmap : env.gc.mapFails (entryName entry) = true
    · rw [if_pos hmap, if_pos hmap]
      exact close_openFd hfd
    rw [if_neg hmap, if_neg hmap]
    by_cases hvalid : janitorHeaderValid (p.store.objects o).header (p.store.objects o).size =
        false
    · rw [if_pos hvalid, if_pos hvalid]
      exact congrArg (unregister (entryName entry)) (quit_opened hfd hbase)
    · rw [if_neg hvalid, if_neg hvalid]
      exact gcMapped_opened hfd hbase hn

theorem foldl_gcTurn (hfd : p.fds env.fd = none) (hbase : p.mapped env.base = none)
    (entries : List RegistryEntry) (s : LinkedStore) :
    entries.foldl (gcTurn env) (p.setStore s) =
      p.setStore ((gcLog env.gc s.view entries).foldl LinkedStore.perform s) := by
  induction entries generalizing s with
  | nil => rfl
  | cons entry entries ih =>
    have hturn : (p.setStore s).gcTurn env entry = p.setStore
        (((verdict env.gc entry (s.view.names (entryName entry))).actions env.gc entry).foldl
          LinkedStore.perform s) := gcTurn_eq hfd hbase
    rw [List.foldl_cons, hturn, ih, LinkedStore.view_foldl_perform, ← gcEntry_eq_actions, gcLog,
      List.foldl_append]

/-- Whatever `gc` meets, it leaves the descriptors and the mappings of its process as they were, and
the shared objects as the pass by identity does. -/
theorem gc_gives_back (hfd : p.fds env.fd = none) (hbase : p.mapped env.base = none) :
    p.gcCall env = { p with store := p.store.gc env.gc } :=
  foldl_gcTurn hfd hbase _ p.store

end Gc

section Attach

variable [DecidableEq A] {p : Process A} {env : ProcessEnv A} {o : Nat} {name : Name}
  {mode : AttachMode} {s : LinkedStore}

omit [DecidableEq A] in
theorem view_linked (hn : s.names name = some o) : s.view.names name = some (s.objects o) := by
  simp [LinkedStore.view, hn]

omit [DecidableEq A] in
theorem attachChecks_linked (hn : s.names name = some o) :
    attachChecks env.toAttachEnv name s.view = do
      failWith env.openError
      rejectIf ((s.objects o).size < headerSize) env.shortError
      failWith env.mapError
      headerChecks env.toAttachEnv name s.registry (s.objects o).header (s.objects o).size
      return s.objects o := by
  simp only [attachChecks, view_linked hn, headerChecks, bind_assoc]
  rfl

omit [DecidableEq A] in
theorem headerChecks_state {registry : RegistryPayload} {header : ShmHeader} {size : UInt64}
    {u : Unit} (h : headerChecks env.toAttachEnv name registry header size = .ok u) :
    header.state ≠ SegmentState.dead.code := by
  obtain ⟨_, -, h⟩ := bind_eq_ok h
  obtain ⟨_, -, h⟩ := bind_eq_ok h
  obtain ⟨_, -, h⟩ := bind_eq_ok h
  obtain ⟨_, -, h⟩ := bind_eq_ok h
  exact rejectIf_ok.mp h

omit [DecidableEq A] in
theorem size_setRefs (n : UInt32) : ((s.setRefs o n).objects o).size = (s.objects o).size := by
  simp [LinkedStore.setRefs, LinkedStore.setObject]

/-- The store after an `attach` of the object `o`. -/
def counted (mode : AttachMode) (o : Nat) (s : LinkedStore) : LinkedStore :=
  match mode with
  | .readOnly => s
  | .readWrite => s.setRefs o ((s.objects o).header.refCount + 1)

theorem countHandle_opened (hstate : (s.objects o).header.state ≠ SegmentState.dead.code) :
    countHandle env mode ((p.opened env o).setStore s) =
      (.ok (), (p.opened env o).setStore (counted mode o s)) := by
  cases mode with
  | readOnly => rfl
  | readWrite =>
    have hstore : ((p.opened env o).setStore s).storeHeader env.base
        (fun h => { h with refCount := h.refCount + 1 }) =
          (p.opened env o).setStore (counted .readWrite o s) := storeHeader_opened _
    have hkept : ((counted .readWrite o s).objects o).header.state ≠ SegmentState.dead.code := by
      simpa [counted, LinkedStore.setRefs, LinkedStore.setObject] using hstate
    refine (bind_of_ok (a := ()) rfl).trans (orUndo_of_ok ?_)
    rw [hstore, headerAt_opened, rejectIf, if_neg hkept]

/-- On a linked object every check that fails gives back what was opened, and the handle has what
`attach` found. -/
theorem attachLinked_linked (hfd : p.fds env.fd = none) (hbase : p.mapped env.base = none)
    (hn : p.store.names name = some o) :
    attachLinked env name mode p =
      match attachChecks env.toAttachEnv name p.store.view with
      | .error e => (.error e, p)
      | .ok object =>
        (.ok { base := some env.base, size := object.size.toNat, fd := env.fd, mode := mode },
          (p.opened env o).setStore (counted mode o p.store)) := by
  have hclose : (p.openFd env.fd o).close env.fd = p := close_openFd (s := p.store) hfd
  have hquit : (p.opened env o).quit env = p := quit_opened (s := p.store) hfd hbase
  have hheader : (p.opened env o).headerAt env.base = (p.store.objects o).header :=
    headerAt_opened (s := p.store)
  rw [attachChecks_linked hn]
  unfold attachLinked
  cases hopen : env.openError with
  | some e =>
    refine bind_of_error ?_
    rw [shmOpen, hn, hopen]
  | none =>
    rw [bind_of_ok (t := p.openFd env.fd o) (a := ()) (by rw [shmOpen, hn, hopen])]
    by_cases hshort : (p.store.objects o).size < headerSize
    · have hsize : checkSize env (p.openFd env.fd o) =
          (.error env.shortError, p.openFd env.fd o) := by
        rw [checkSize, sizeOf_openFd, if_pos hshort]
      simp only [rejectIf, if_pos hshort]
      rw [bind_of_error (orUndo_of_error hsize), hclose]
      rfl
    · have hsize : checkSize env (p.openFd env.fd o) =
          (.ok (p.store.objects o).size, p.openFd env.fd o) := by
        rw [checkSize, sizeOf_openFd, if_neg hshort]
      simp only [rejectIf, if_neg hshort]
      rw [bind_of_ok (orUndo_of_ok hsize)]
      cases hmap : env.mapError with
      | some e =>
        have hmmap : mapSegment env (p.openFd env.fd o) = (.error e, p.openFd env.fd o) := by
          rw [mapSegment, hmap]
          rfl
        rw [bind_of_error (orUndo_of_error hmmap), hclose]
        rfl
      | none =>
        have hmmap : mapSegment env (p.openFd env.fd o) = (.ok (), p.opened env o) := by
          rw [mapSegment, hmap]
          rfl
        rw [bind_of_ok (orUndo_of_ok hmmap)]
        have hlook : checkHeader env name (p.store.objects o).size (p.opened env o) =
            (headerChecks env.toAttachEnv name p.store.registry (p.store.objects o).header
              (p.store.objects o).size, p.opened env o) := by
          rw [checkHeader, hheader]
          rfl
        cases hchecks : headerChecks env.toAttachEnv name p.store.registry
            (p.store.objects o).header (p.store.objects o).size with
        | error e =>
          rw [hchecks] at hlook
          rw [bind_of_error (orUndo_of_error hlook), hquit]
          rfl
        | ok u =>
          rw [hchecks] at hlook
          have hcount : countHandle env mode (p.opened env o) =
              (.ok (), (p.opened env o).setStore (counted mode o p.store)) :=
            countHandle_opened (headerChecks_state hchecks)
          rw [bind_of_ok (orUndo_of_ok hlook), bind_of_ok (orUndo_of_ok hcount)]
          rfl

/-- `attach` ends as it does on the shared objects; a failed call leaves no descriptor and no
mapping behind. -/
theorem attachCall_eq (hfd : p.fds env.fd = none) (hbase : p.mapped env.base = none) :
    attachCall env name mode p =
      match p.store.attach env.toAttachEnv name mode with
      | (.error e, s) => (.error e, p.setStore s)
      | (.ok o, s) =>
        (.ok { base := some env.base, size := (s.objects o).size.toNat, fd := env.fd, mode },
          (p.opened env o).setStore s) := by
  unfold attachCall LinkedStore.attach
  cases hparse : parseAndValidateName name with
  | error e => rfl
  | ok parsed =>
    have hswept : (if name = registryName then p else p.gcCall env) =
        p.setStore (if name = registryName then p.store else p.store.gc env.gc) := by
      split_ifs
      · rfl
      · exact gc_gives_back hfd hbase
    change attachLinked env name mode (if name = registryName then p else p.gcCall env) = _
    rw [hswept]
    dsimp only
    generalize (if name = registryName then p.store else p.store.gc env.gc) = swept
    cases hn : swept.names name with
    | none =>
      have hmissing : attachChecks env.toAttachEnv name swept.view = .error .notFound := by
        simp only [attachChecks, LinkedStore.view_names_eq_none.mpr hn]
        rfl
      rw [hmissing]
      refine bind_of_error ?_
      simp only [shmOpen, store_setStore, hn]
    | some o =>
      rw [attachLinked_linked (p := p.setStore swept) hfd hbase hn, store_setStore]
      cases hchecks : attachChecks env.toAttachEnv name swept.view with
      | error e => rfl
      | ok object =>
        obtain rfl : object = swept.objects o := by
          have hfound := (attachChecks_ok hchecks).1
          rw [view_linked hn] at hfound
          exact (Option.some.inj hfound).symm
        cases mode with
        | readOnly => rfl
        | readWrite =>
          dsimp only
          rw [size_setRefs]
          rfl

end Attach

section Reset

variable [DecidableEq A] {p : Process A} {h : ShmHandle A} {a : A} {o : Nat}

/-- What `reset` does to the shared objects. -/
def dropped (mode : AttachMode) (owner : Bool) (o : Nat) (s : LinkedStore) : LinkedStore :=
  match mode with
  | .readOnly => s
  | .readWrite => s.release o owner

omit [DecidableEq A] in
theorem dropReference_mapped (hmapped : p.mapped a = some o) (owner : Bool) :
    p.dropReference owner (p.store.objects o).header.nameView a =
      p.setStore (p.store.release o owner) := by
  have hdropped : p.storeHeader a (fun h => { h with refCount := h.refCount - 1 }) =
      p.setStore (p.store.setRefs o ((p.store.objects o).header.refCount - 1)) :=
    storeHeader_mapped hmapped _
  unfold dropReference LinkedStore.release
  rw [hdropped, headerAt_mapped hmapped]
  dsimp only
  generalize hs : p.store.setRefs o ((p.store.objects o).header.refCount - 1) = s
  have hstate : ((p.setStore s).headerAt a).state = (p.store.objects o).header.state := by
    rw [headerAt_mapped (p := p.setStore s) hmapped, ← hs]
    simp [LinkedStore.setRefs, LinkedStore.setObject]
  rw [hstate]
  split_ifs with hretire
  · rw [storeHeader_mapped (p := p.setStore s) hmapped]
    rfl
  · rfl

theorem resetHandle_eq (hbase : h.base = some a) (hmapped : p.mapped a = some o) (hfd : 0 ≤ h.fd) :
    p.resetHandle h =
      { store := dropped h.mode h.owner o p.store
        fds := Function.update p.fds h.fd none
        mapped := Function.update p.mapped a none
        heartbeat := if h.owner then p.heartbeat.filter (· ≠ a) else p.heartbeat } := by
  have hquiet : (if h.owner = true then p.unregisterHeartbeatOwner a else p) =
      { p with heartbeat := if h.owner then p.heartbeat.filter (· ≠ a) else p.heartbeat } := by
    split_ifs <;> rfl
  unfold resetHandle
  rw [hbase]
  dsimp only
  rw [if_pos hfd, hquiet, headerAt_mapped hmapped]
  generalize (if h.owner = true then p.heartbeat.filter (· ≠ a) else p.heartbeat) = beats
  cases h.mode with
  | readOnly => rfl
  | readWrite =>
    exact congrArg (fun q => (munmap a q).close h.fd)
      (dropReference_mapped (p := { p with heartbeat := beats }) hmapped h.owner)

end Reset

end Process

end Shmfx
