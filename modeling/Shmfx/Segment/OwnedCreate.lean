import Shmfx.Segment.FailedCreate
import Shmfx.Segment.Resources

/-! `ShmManager::create` with the descriptor and the mapping it opens, through every exit it
takes. -/
namespace Shmfx

open Rollback

/-- What `create` computes behind its checks. -/
def createdObject (options : CreateOptions) (env : CreateEnv) (p : RegistryPayload) :
    Except ErrorCode (ShmHeader × RegistryPayload) := do
  env.os .shmOpen
  env.os .applyPermissions
  env.os .ftruncate
  env.os .mmap
  createdMapped options env p

namespace LinkedStore

/-- What is left of an object that was made and lost its name again: no name leads to it. -/
def leave (object : SegmentMemory) (s : LinkedStore) : LinkedStore :=
  { s with
    objects := Function.update s.objects s.next object
    next := s.next + 1
    made := fun h => Nat.lt_succ_of_lt (s.made h) }

section Made

variable {s : LinkedStore} {name : Name} (object object' : SegmentMemory)

theorem unlink_link (hfree : s.names name = none) :
    (s.link name object).unlink name = s.leave object := by
  have hnames : Function.update (Function.update s.names name (some s.next)) name none =
      s.names := by
    rw [Function.update_idem, ← hfree, Function.update_eq_self]
  simp only [unlink, link, leave, hnames]

@[simp] theorem setObject_link :
    (s.link name object).setObject s.next object' = s.link name object' := by
  simp only [setObject, link, Function.update_idem]

@[simp] theorem objects_link : (s.link name object).objects s.next = object :=
  Function.update_self ..

theorem setObject_leave : (s.leave object).setObject s.next object' = s.leave object' := by
  simp only [setObject, leave, Function.update_idem]

theorem objects_leave : (s.leave object).objects s.next = object := Function.update_self ..

/-- Dropping the owner's handle on an object that is not draining only counts. -/
theorem release_leave (owner : Bool) (hstate : object.header.state ≠ SegmentState.draining.code) :
    ∃ object', (s.leave object).release s.next owner = s.leave object' := by
  refine ⟨{ object with header := { object.header with
    refCount := object.header.refCount - 1 } }, ?_⟩
  have hkept : ¬ (owner = true ∧ object.header.nameView ≠ registryName ∧
      object.header.refCount = 1 ∧ object.header.state = SegmentState.draining.code) :=
    fun h => hstate h.2.2.2
  simp only [release, objects_leave, if_neg hkept, setRefs, setObject_leave]

/-- `create` is decided by its checks, by whether the name is free, and by what the system
answers. -/
theorem create_eq (options : CreateOptions) (env : CreateEnv) :
    s.create options env =
      match (do
        let _ ← parseAndValidateName options.name
        validateCreateSecurity options (s.registry.list [])
        checkLayout options
        if s.names options.name = none then createdObject options env s.registry
        else .error .alreadyExists) with
      | .error e => (.error e, s)
      | .ok (header, registry) =>
        (.ok s.next, (s.link options.name ⟨options.totalSize, header⟩).setRegistry registry) := by
  unfold create
  by_cases hfree : s.names options.name = none
  · simp only [hfree, ne_eq, not_true_eq_false, and_false, if_false, if_true]
    rfl
  · simp only [hfree, ne_eq, not_false_eq_true, and_true, if_false]
    rfl

end Made

end LinkedStore

namespace Process

variable {A : Type}

def listRegistry : Call (Process A) ErrorCode (List RegistryEntry) := fun p =>
  (.ok (p.store.registry.list []), p)

/-- `shm_open` of a new object; `O_EXCL` refuses a name that is linked. -/
def shmCreate (env : ProcessEnv A) (name : Name) (answer : Except ErrorCode Unit) :
    Call (Process A) ErrorCode Unit := fun p =>
  match p.store.names name with
  | some _ => (.error .alreadyExists, p)
  | none =>
    match answer with
    | .error e => (.error e, p)
    | .ok _ =>
      (.ok (), (p.setStore (p.store.link name ⟨0, zeroHeader⟩)).openFd env.fd p.store.next)

def ftruncate (fd : Int) (size : UInt64) (p : Process A) : Process A :=
  match p.fds fd with
  | none => p
  | some o => p.setStore (p.store.setObject o { p.store.objects o with size := size })

/-- Signing in place; a failure leaves the header as it is. -/
def signMapped (env : ProcessEnv A) (keys : KeySource) : Call (Process A) ErrorCode Unit := fun p =>
  match signHeaderIfEnabled keys (p.headerAt env.base) with
  | .error e => (.error e, p)
  | .ok h => (.ok (), p.storeHeader env.base fun _ => h)

/-- The registration of a new segment; the registry itself gets no entry. -/
def registerMapped (env : ProcessEnv A) (options : CreateOptions) (cenv : CreateEnv) :
    Call (Process A) ErrorCode Unit := fun p =>
  if options.name = registryName then (.ok (), p)
  else
    let registered :=
      p.store.registry.registerSegment (createEntry options cenv (p.headerAt env.base))
    (registered.1, p.setStore (p.store.setRegistry registered.2))

/-- The handle `create` returns. -/
def ownedHandle (env : ProcessEnv A) (options : CreateOptions) : ShmHandle A where
  base := some env.base
  size := options.totalSize.toNat
  fd := env.fd
  mode := .readWrite
  owner := true

variable [DecidableEq A]

/-- `register_heartbeat_owner`, without the worker's thread. -/
def registerHeartbeatOwner (base : A) (beatNs : UInt64) (p : Process A) : Process A :=
  let p := p.storeHeader base fun h =>
    { h with heartbeatCounter := h.heartbeatCounter + 1, heartbeatLastNs := beatNs }
  { p with heartbeat := if base ∈ p.heartbeat then p.heartbeat else p.heartbeat ++ [base] }

/-- `create` on the mapped object. When the registration fails, the handle goes out of scope. -/
def createMapped (env : ProcessEnv A) (options : CreateOptions) (cenv : CreateEnv) :
    Call (Process A) ErrorCode (ShmHandle A) := do
  act (storeHeader env.base fun _ => writeHeader options cenv)
  orUndo (signMapped env cenv.keys) fun p => (p.quit env).shmUnlink options.name
  orUndo (attempt (cenv.os .initControlMutex)) fun p => (p.quit env).shmUnlink options.name
  act (storeHeader env.base fun h => { h with controlMutex := .robust })
  act (registerHeartbeatOwner env.base cenv.beatNs)
  orUndo (registerMapped env options cenv) fun p =>
    (p.shmUnlink options.name).resetHandle (ownedHandle env options)
  return ownedHandle env options

/-- `create` behind its checks. -/
def createObject (env : ProcessEnv A) (options : CreateOptions) (cenv : CreateEnv) :
    Call (Process A) ErrorCode (ShmHandle A) := do
  shmCreate env options.name (cenv.os .shmOpen)
  orUndo (attempt (cenv.os .applyPermissions)) fun p => (p.close env.fd).shmUnlink options.name
  orUndo (attempt (cenv.os .ftruncate)) fun p => (p.close env.fd).shmUnlink options.name
  act (ftruncate env.fd options.totalSize)
  orUndo (attempt (cenv.os .mmap)) fun p => (p.close env.fd).shmUnlink options.name
  act (mmap env.base env.fd)
  createMapped env options cenv

/-- `ShmManager::create`. -/
def createCall (env : ProcessEnv A) (options : CreateOptions) (cenv : CreateEnv) :
    Call (Process A) ErrorCode (ShmHandle A) := do
  let _ ← attempt (parseAndValidateName options.name)
  let entries ← listRegistry
  attempt (validateCreateSecurity options entries)
  attempt (checkLayout options)
  createObject env options cenv

section Proofs

variable {p : Process A} {env : ProcessEnv A} {options : CreateOptions} {cenv : CreateEnv}
  {name : Name} {object : SegmentMemory} {s : LinkedStore}

/-- A new object under the name, open. -/
def drafted (env : ProcessEnv A) (name : Name) (object : SegmentMemory) (p : Process A) :
    Process A :=
  (p.openFd env.fd p.store.next).setStore (p.store.link name object)

/-- The same, mapped as well. -/
def built (env : ProcessEnv A) (name : Name) (object : SegmentMemory) (p : Process A) : Process A :=
  (p.opened env p.store.next).setStore (p.store.link name object)

omit [DecidableEq A] in
theorem drafted_undone (hfd : p.fds env.fd = none) (hfree : p.store.names name = none) :
    ((p.drafted env name object).close env.fd).shmUnlink name =
      p.setStore (p.store.leave object) := by
  rw [drafted, close_openFd hfd, shmUnlink_setStore, LinkedStore.unlink_link object hfree]

theorem built_undone (hfd : p.fds env.fd = none) (hbase : p.mapped env.base = none)
    (hfree : p.store.names name = none) :
    ((p.built env name object).quit env).shmUnlink name = p.setStore (p.store.leave object) := by
  rw [built, quit_opened hfd hbase, shmUnlink_setStore, LinkedStore.unlink_link object hfree]

omit [DecidableEq A] in
theorem ftruncate_drafted (size : UInt64) :
    (p.drafted env name object).ftruncate env.fd size =
      p.drafted env name { object with size := size } := by
  have hopen : (p.drafted env name object).fds env.fd = some p.store.next := by
    simp [drafted, openFd]
  rw [ftruncate, hopen]
  simp [drafted]

theorem mmap_drafted :
    (p.drafted env name object).mmap env.base env.fd = p.built env name object := rfl

theorem headerAt_built : (p.built env name object).headerAt env.base = object.header := by
  rw [built, headerAt_opened, LinkedStore.objects_link]

theorem storeHeader_built (f : ShmHeader → ShmHeader) :
    (p.built env name object).storeHeader env.base f =
      p.built env name { object with header := f object.header } := by
  rw [built, storeHeader_opened, LinkedStore.objects_link, LinkedStore.setObject_link]
  rfl

/-- Mapped, and known to the heartbeat worker. -/
def enlisted (env : ProcessEnv A) (name : Name) (object : SegmentMemory) (p : Process A) :
    Process A :=
  { p.built env name object with heartbeat := p.heartbeat ++ [env.base] }

theorem registerHeartbeatOwner_built (beatNs : UInt64) (hbeat : env.base ∉ p.heartbeat) :
    (p.built env name object).registerHeartbeatOwner env.base beatNs =
      p.enlisted env name { object with header := { object.header with
          heartbeatCounter := object.header.heartbeatCounter + 1
          heartbeatLastNs := beatNs } } := by
  unfold registerHeartbeatOwner
  rw [storeHeader_built]
  exact congrArg (Process.mk _ _ _) (if_neg hbeat)

theorem headerAt_enlisted : (p.enlisted env name object).headerAt env.base = object.header :=
  headerAt_built

/-- The handle of a segment that could not be registered takes everything back. -/
theorem enlisted_undone (object : SegmentMemory) (hfd : p.fds env.fd = none)
    (hbase : p.mapped env.base = none) (hnonneg : 0 ≤ env.fd) (hbeat : env.base ∉ p.heartbeat)
    (hfree : p.store.names options.name = none)
    (hstate : object.header.state ≠ SegmentState.draining.code) :
    ∃ made, ((p.enlisted env options.name object).shmUnlink options.name).resetHandle
      (ownedHandle env options) = p.setStore (p.store.leave made) := by
  obtain ⟨made, hmade⟩ := LinkedStore.release_leave (s := p.store) object true hstate
  have hopen : ((p.enlisted env options.name object).shmUnlink options.name).mapped env.base =
      some p.store.next := mapped_opened_base
  refine ⟨made, (resetHandle_eq rfl hopen hnonneg).trans ?_⟩
  have hstore : ((p.store.link options.name object).unlink options.name).release p.store.next
      true = p.store.leave made := by
    rw [LinkedStore.unlink_link object hfree, hmade]
  have hfds : Function.update (p.opened env p.store.next).fds env.fd none = p.fds := by
    rw [fds_opened, Function.update_idem, update_of_free hfd]
  have hmapped : Function.update (p.opened env p.store.next).mapped env.base none = p.mapped := by
    rw [mapped_opened, Function.update_idem, update_of_free hbase]
  have hheart : (p.heartbeat ++ [env.base]).filter (· ≠ env.base) = p.heartbeat := by
    rw [List.filter_append, List.filter_eq_self.mpr]
    · simp
    · intro a ha
      simpa using ne_of_mem_of_not_mem ha hbeat
  exact congr (congr (congr (congrArg Process.mk hstore) hfds) hmapped) hheart

/-- What the process has after a `create` that returned. -/
def owning (env : ProcessEnv A) (s : LinkedStore) (p : Process A) : Process A :=
  { (p.opened env p.store.next).setStore s with heartbeat := p.heartbeat ++ [env.base] }

section Calls

variable (hfd : p.fds env.fd = none) (hbase : p.mapped env.base = none) (hnonneg : 0 ≤ env.fd)
  (hbeat : env.base ∉ p.heartbeat) (hfree : p.store.names options.name = none)

include hfd hbase hnonneg hbeat hfree

/-- The registration of the finished segment. -/
theorem registerMapped_leaves {signed : ShmHeader}
    (hsign : signHeaderIfEnabled cenv.keys (writeHeader options cenv) = .ok signed)
    {size : UInt64} :
    Leaves (do
        orUndo (registerMapped env options cenv) fun p =>
          (p.shmUnlink options.name).resetHandle (ownedHandle env options)
        return ownedHandle env options)
      (p.enlisted env options.name ⟨size, finishHeader cenv signed⟩)
      (fun h t => h = ownedHandle env options ∧ ∃ registry,
        registerCreated options cenv (finishHeader cenv signed) p.store.registry = .ok registry ∧
        t = p.owning env
          ((p.store.link options.name ⟨size, finishHeader cenv signed⟩).setRegistry registry))
      fun e t =>
        registerCreated options cenv (finishHeader cenv signed) p.store.registry = .error e ∧
        ∃ made, t = p.setStore (p.store.leave made) := by
  have hstate : (finishHeader cenv signed).state ≠ SegmentState.draining.code := by
    have hactive : (finishHeader cenv signed).state = SegmentState.active.code := by
      rw [signHeader_eq hsign]
      rfl
    rw [hactive]
    decide
  obtain ⟨made, hundone⟩ := enlisted_undone ⟨size, finishHeader cenv signed⟩ hfd hbase hnonneg
    hbeat hfree hstate
  unfold registerCreated
  by_cases hname : options.name = registryName
  · refine .bind_ok (a := ()) (orUndo_of_ok (by rw [registerMapped, if_pos hname])) (.pure ?_)
    exact ⟨rfl, p.store.registry, if_pos hname, rfl⟩
  · have hcall : registerMapped env options cenv
        (p.enlisted env options.name ⟨size, finishHeader cenv signed⟩) =
          ((p.store.registry.registerSegment
              (createEntry options cenv (finishHeader cenv signed))).1,
            p.owning env ((p.store.link options.name ⟨size, finishHeader cenv signed⟩).setRegistry
              (p.store.registry.registerSegment
                (createEntry options cenv (finishHeader cenv signed))).2)) := by
      rw [registerMapped, if_neg hname, headerAt_enlisted]
      rfl
    rw [if_neg hname]
    cases hr : p.store.registry.registerSegment
        (createEntry options cenv (finishHeader cenv signed)) with
    | mk r registry =>
      rw [hr] at hcall
      cases r with
      | ok u => exact .bind_ok (orUndo_of_ok hcall) (.pure ⟨rfl, registry, rfl, rfl⟩)
      | error e =>
        obtain rfl : registry = p.store.registry := by
          have hsame := registerSegment_error (congrArg Prod.fst hr)
          rwa [hr] at hsame
        exact .of_error (bind_of_error (orUndo_of_error hcall)) ⟨rfl, made, hundone⟩

/-- From the mapping on `create` ends as it does on the shared objects, or takes everything back. -/
theorem createMapped_owned {size : UInt64} {header₀ : ShmHeader} :
    Leaves (createMapped env options cenv) (p.built env options.name ⟨size, header₀⟩)
      (fun h t => h = ownedHandle env options ∧ ∃ header registry,
        createdMapped options cenv p.store.registry = .ok (header, registry) ∧
        t = p.owning env ((p.store.link options.name ⟨size, header⟩).setRegistry registry))
      fun e t => createdMapped options cenv p.store.registry = .error e ∧
        ∃ made, t = p.setStore (p.store.leave made) := by
  have hgone (object : SegmentMemory) :
      ((p.built env options.name object).quit env).shmUnlink options.name =
        p.setStore (p.store.leave object) := built_undone hfd hbase hfree
  unfold createdMapped
  refine Leaves.act_bind ?_
  rw [storeHeader_built]
  cases hsign : signHeaderIfEnabled cenv.keys (writeHeader options cenv) with
  | error e =>
    have hrefused : signMapped env cenv.keys
        (p.built env options.name ⟨size, writeHeader options cenv⟩) =
          (.error e, p.built env options.name ⟨size, writeHeader options cenv⟩) := by
      rw [signMapped, headerAt_built, hsign]
    exact .of_error (bind_of_error (orUndo_of_error hrefused)) ⟨rfl, _, hgone _⟩
  | ok signed =>
    have hsigned : signMapped env cenv.keys
        (p.built env options.name ⟨size, writeHeader options cenv⟩) =
          (.ok (), p.built env options.name ⟨size, signed⟩) := by
      rw [signMapped, headerAt_built, hsign]
      exact congrArg (Prod.mk _) (storeHeader_built _)
    refine .bind_ok (orUndo_of_ok hsigned) ?_
    cases hmutex : cenv.os .initControlMutex with
    | error e =>
      exact .of_error (bind_of_error (orUndo_of_error rfl)) ⟨rfl, _, hgone _⟩
    | ok u =>
      refine .bind_ok (orUndo_of_ok rfl) (Leaves.act_bind (Leaves.act_bind ?_))
      rw [storeHeader_built, registerHeartbeatOwner_built _ hbeat]
      -- The registration is the last thing `create` does with its header.
      have hlast {r : Except ErrorCode RegistryPayload}
          (h : registerCreated options cenv (finishHeader cenv signed) p.store.registry = r) :=
        congrArg (fun r => r >>= fun q => Except.ok (finishHeader cenv signed, q)) h
      refine (registerMapped_leaves hfd hbase hnonneg hbeat hfree hsign).mono ?_ ?_
      · rintro h t ⟨hh, registry, hr, ht⟩
        exact ⟨hh, _, registry, hlast hr, ht⟩
      · rintro e t ⟨hr, ht⟩
        exact ⟨hlast hr, ht⟩

/-- On a free name the object is made and mapped, or given up again. -/
theorem createObject_owned :
    Leaves (createObject env options cenv) p
      (fun h t => h = ownedHandle env options ∧ ∃ header registry,
        createdObject options cenv p.store.registry = .ok (header, registry) ∧
        t = p.owning env
          ((p.store.link options.name ⟨options.totalSize, header⟩).setRegistry registry))
      fun e t => createdObject options cenv p.store.registry = .error e ∧
        ∃ made : Option SegmentMemory, t = p.setStore (made.elim p.store p.store.leave) := by
  have hgone (object : SegmentMemory) :
      ((p.drafted env options.name object).close env.fd).shmUnlink options.name =
        p.setStore (p.store.leave object) := drafted_undone hfd hfree
  unfold createdObject
  cases hopen : cenv.os .shmOpen with
  | error e =>
    refine .of_error (t := p) (bind_of_error ?_) ⟨rfl, none, rfl⟩
    simp only [shmCreate, hfree]
    rw [hopen]
  | ok u =>
    have hdraft : shmCreate env options.name (cenv.os .shmOpen) p =
        (.ok (), p.drafted env options.name ⟨0, zeroHeader⟩) := by
      simp only [shmCreate, hfree]
      rw [hopen]
      rfl
    refine .bind_ok hdraft ?_
    cases hperms : cenv.os .applyPermissions with
    | error e =>
      exact .of_error (bind_of_error (orUndo_of_error rfl)) ⟨rfl, some _, hgone _⟩
    | ok u =>
      refine .bind_ok (orUndo_of_ok rfl) ?_
      cases hsize : cenv.os .ftruncate with
      | error e =>
        exact .of_error (bind_of_error (orUndo_of_error rfl)) ⟨rfl, some _, hgone _⟩
      | ok u =>
        refine .bind_ok (orUndo_of_ok rfl) (Leaves.act_bind ?_)
        rw [ftruncate_drafted]
        cases hmap : cenv.os .mmap with
        | error e =>
          exact .of_error (bind_of_error (orUndo_of_error rfl)) ⟨rfl, some _, hgone _⟩
        | ok u =>
          refine .bind_ok (orUndo_of_ok rfl) (Leaves.act_bind ?_)
          rw [mmap_drafted]
          refine (createMapped_owned hfd hbase hnonneg hbeat hfree).mono (fun _ _ h => h) ?_
          rintro e t ⟨he, made, ht⟩
          exact ⟨he, some made, ht⟩

omit hfree in
/-- `create` ends as it does on the shared objects. A failed call leaves the process as it was and
at most an object that no name leads to. -/
theorem createCall_owned :
    Leaves (createCall env options cenv) p
      (fun h t => h = ownedHandle env options ∧
        ∃ s, p.store.create options cenv = (.ok p.store.next, s) ∧ t = p.owning env s)
      fun e t => p.store.create options cenv = (.error e, p.store) ∧
        ∃ made : Option SegmentMemory, t = p.setStore (made.elim p.store p.store.leave) := by
  rw [LinkedStore.create_eq]
  refine Leaves.attempt_bind (fun e h => ?_) fun _ hparse => ?_
  · rw [h]
    exact ⟨rfl, none, rfl⟩
  rw [hparse]
  refine Leaves.bind_ok (a := p.store.registry.list []) (t := p) rfl ?_
  refine Leaves.attempt_bind (fun e h => ?_) fun _ hsec => ?_
  · rw [h]
    exact ⟨rfl, none, rfl⟩
  rw [hsec]
  refine Leaves.attempt_bind (fun e h => ?_) fun _ hlayout => ?_
  · rw [h]
    exact ⟨rfl, none, rfl⟩
  rw [hlayout]
  cases hname : p.store.names options.name with
  | some o =>
    refine .of_error (t := p) (bind_of_error ?_) ⟨rfl, none, rfl⟩
    simp only [shmCreate, hname]
  | none =>
    refine (createObject_owned hfd hbase hnonneg hbeat hname).mono ?_ ?_
    · rintro h t ⟨hh, header, registry, hr, ht⟩
      refine ⟨hh, _, ?_, ht⟩
      show (match createdObject options cenv p.store.registry with
        | .error e => _
        | .ok (header, registry) => _) = _
      rw [hr]
    · rintro e t ⟨hr, ht⟩
      refine ⟨?_, ht⟩
      show (match createdObject options cenv p.store.registry with
        | .error e => _
        | .ok (header, registry) => _) = _
      rw [hr]

end Calls

end Proofs

end Process

end Shmfx
