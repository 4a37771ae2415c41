import Mathlib.Logic.Function.Basic
import Shmfx.Lib.Rollback
import Shmfx.Registry.AnyImage
import Shmfx.Segment.Create

/-! `ShmManager::create` with every effect it has and every exit it takes: what a failed call leaves
behind. -/
namespace Shmfx

open Rollback

/-- The contents of a shared-memory object; `rest` are its bytes behind the header. -/
structure ShmObject where
  size : UInt64
  header : ShmHeader
  rest : Nat → UInt8

/-- The registry's control mutex between calls: as it should be, left by a dead owner, or beyond
locking. -/
inductive ControlLock
  | consistent
  | abandoned
  | lost
  deriving DecidableEq

/-- The linked objects, the registry, and of the calling process its mappings and the headers its
heartbeat worker knows. -/
structure World (A : Type) where
  names : Name → Option Nat
  objects : Nat → ShmObject
  next : Nat
  registry : RegistryPayload
  lock : ControlLock
  mapped : A → Option Nat
  heartbeat : List A
  /-- Linked objects have been made. -/
  made : ∀ {name o}, names name = some o → o < next

/-- What the system answers: where `mmap` puts the object, and whether `pthread_mutex_consistent`
succeeds. -/
structure WorldEnv (A : Type) extends CreateEnv where
  base : A
  marked : Bool

namespace World

variable {A : Type}

/-- The linked objects with their contents. -/
def linked (w : World A) (name : Name) : Option ShmObject := (w.names name).map w.objects

def setObject (o : Nat) (object : ShmObject) (w : World A) : World A :=
  { w with objects := Function.update w.objects o object }

def shmUnlink (name : Name) (w : World A) : World A :=
  { w with
    names := Function.update w.names name none
    made := by
      intro name' o h
      rw [Function.update_apply] at h
      split_ifs at h
      exact w.made h }

/-- A new object, empty, under a name. -/
def link (name : Name) (w : World A) : World A :=
  { w with
    names := Function.update w.names name (some w.next)
    objects := Function.update w.objects w.next ⟨0, zeroHeader, fun _ => 0⟩
    next := w.next + 1
    made := by
      intro name' o h
      rw [Function.update_apply] at h
      split_ifs at h
      · cases h
        exact Nat.lt_succ_self _
      · exact Nat.lt_succ_of_lt (w.made h) }

section Mappings

variable [DecidableEq A]

def munmap (base : A) (w : World A) : World A :=
  { w with mapped := Function.update w.mapped base none }

/-- A store to the header mapped at `base`. -/
def store (base : A) (f : ShmHeader → ShmHeader) (w : World A) : World A :=
  match w.mapped base with
  | none => w
  | some o => w.setObject o { w.objects o with header := f (w.objects o).header }

def headerAt (base : A) (w : World A) : ShmHeader :=
  ((w.mapped base).map fun o => (w.objects o).header).getD zeroHeader

/-- `register_heartbeat_owner`, without the worker's thread. -/
def registerHeartbeatOwner (base : A) (beatNs : UInt64) (w : World A) : World A :=
  let w := w.store base fun h =>
    { h with heartbeatCounter := h.heartbeatCounter + 1, heartbeatLastNs := beatNs }
  { w with heartbeat := if base ∈ w.heartbeat then w.heartbeat else w.heartbeat ++ [base] }

def unregisterHeartbeatOwner (base : A) (w : World A) : World A :=
  { w with heartbeat := w.heartbeat.filter (· ≠ base) }

end Mappings

end World

section Calls

variable {A : Type}

/-- `lock_registry_control`. -/
def lockRegistryControl (marked : Bool) : Call (World A) ErrorCode Unit := fun w =>
  match w.lock with
  | .consistent => (.ok (), w)
  | .abandoned =>
    let recovered := w.registry.recoverRegistryInvariant
    if marked then (.ok (), { w with registry := recovered, lock := .consistent })
    else (.error .priorOwnerDead, { w with registry := recovered, lock := .lost })
  | .lost => (.error .priorOwnerDead, w)

/-- The entry that one turn of `Registry::list` reads, if any. -/
def readSlot (marked : Bool) (i : SlotIndex) (w : World A) : Option RegistryEntry × World A :=
  if w.registry.bitIsSet i then
    match snapshotSlot (w.registry.slots i) with
    | some snap => (some snap, w)
    | none =>
      match lockRegistryControl marked w with
      | (.error _, w) => (none, w)
      | (.ok _, w) => (some (w.registry.slots i), w)
  else (none, w)

def listLoop (marked : Bool) (start : Name) :
    List SlotIndex → World A → List RegistryEntry × World A
  | [], w => ([], w)
  | i :: is, w =>
    let read := readSlot marked i w
    let rest := listLoop marked start is read.2
    ((read.1.filter (startsWith start)).toList ++ rest.1, rest.2)

/-- `Registry::list`, which cannot fail. -/
def listRegistry (marked : Bool) (start : Name) :
    Call (World A) ErrorCode (List RegistryEntry) := fun w =>
  let r := listLoop marked start (List.finRange maxRegistryEntries) w
  (.ok r.1, r.2)

def registerLocked (entry : RegistryEntry) : Call (World A) ErrorCode Unit := fun w =>
  ((w.registry.registerSegment entry).1,
    { w with registry := (w.registry.registerSegment entry).2 })

/-- `Registry::register_segment` with its lock. -/
def registerSegmentCall (marked : Bool) (entry : RegistryEntry) :
    Call (World A) ErrorCode Unit := do
  lockRegistryControl marked
  registerLocked entry

def unregisterLocked (name : Name) : Call (World A) ErrorCode Unit := fun w =>
  ((w.registry.unregister name).1, { w with registry := (w.registry.unregister name).2 })

def unregisterCall (marked : Bool) (name : Name) : Call (World A) ErrorCode Unit := do
  lockRegistryControl marked
  unregisterLocked name

variable [DecidableEq A]

/-- `ShmHandle::reset` of the handle `create` makes: an owner, attached for writing. -/
def resetOwner (marked : Bool) (base : A) (w : World A) : World A :=
  let name := (w.headerAt base).nameView
  let w := w.unregisterHeartbeatOwner base
  let previous := (w.headerAt base).refCount
  let w := w.store base fun h => { h with refCount := h.refCount - 1 }
  let state := (w.headerAt base).state
  let w :=
    if name ≠ registryName ∧ previous = 1 ∧ state = SegmentState.draining.code then
      let w := (w.store base fun h => { h with state := SegmentState.dead.code }).shmUnlink name
      (unregisterCall marked name w).2
    else w
  w.munmap base

/-- `shm_open` with `O_CREAT | O_EXCL`: a linked name is refused. -/
def shmOpen (env : WorldEnv A) (name : Name) : Call (World A) ErrorCode Nat := fun w =>
  match w.names name with
  | some _ => (.error .alreadyExists, w)
  | none =>
    match env.os .shmOpen with
    | .error e => (.error e, w)
    | .ok _ => (.ok w.next, w.link name)

def ftruncate (env : WorldEnv A) (o : Nat) (size : UInt64) : Call (World A) ErrorCode Unit := do
  attempt (env.os .ftruncate)
  act fun w => w.setObject o { w.objects o with size := size }

def mmap (env : WorldEnv A) (o : Nat) : Call (World A) ErrorCode Unit := do
  attempt (env.os .mmap)
  act fun w => { w with mapped := Function.update w.mapped env.base (some o) }

/-- Signing in place; a failure leaves the header as it is. -/
def signMapped (env : WorldEnv A) : Call (World A) ErrorCode Unit := fun w =>
  match signHeaderIfEnabled env.keys (w.headerAt env.base) with
  | .error e => (.error e, w)
  | .ok h => (.ok (), w.store env.base fun _ => h)

def initControlMutex (env : WorldEnv A) : Call (World A) ErrorCode Unit := do
  attempt (env.os .initControlMutex)
  act fun w => w.store env.base fun h => { h with controlMutex := .robust }

/-- The last part of `create`; the registry segment itself gets no entry. -/
def registerMapped (options : CreateOptions) (env : WorldEnv A) :
    Call (World A) ErrorCode Unit := fun w =>
  if options.name = registryName then (.ok (), w)
  else registerSegmentCall env.marked
    (createEntry options env.toCreateEnv (w.headerAt env.base)) w

/-- `create` on the mapped object, with what each exit undoes. -/
def createMapped (options : CreateOptions) (env : WorldEnv A) : Call (World A) ErrorCode A := do
  act (World.store env.base fun _ => writeHeader options env.toCreateEnv)
  orUndo (signMapped env) fun w => (w.munmap env.base).shmUnlink options.name
  orUndo (initControlMutex env) fun w => (w.munmap env.base).shmUnlink options.name
  act (World.registerHeartbeatOwner env.base env.beatNs)
  orUndo (registerMapped options env) fun w =>
    resetOwner env.marked env.base (w.shmUnlink options.name)
  return env.base

/-- `ShmManager::create`. -/
def createCall (options : CreateOptions) (env : WorldEnv A) : Call (World A) ErrorCode A := do
  let _ ← attempt (parseAndValidateName options.name)
  let entries ← listRegistry env.marked []
  attempt (validateCreateSecurity options entries)
  attempt (checkLayout options)
  let o ← shmOpen env options.name
  orUndo (attempt (env.os .applyPermissions)) (World.shmUnlink options.name)
  orUndo (ftruncate env o options.totalSize) (World.shmUnlink options.name)
  orUndo (mmap env o) (World.shmUnlink options.name)
  createMapped options env

end Calls

/-- The entries of a payload: what stands in a slot that is occupied and not being written. -/
def Registered (p : RegistryPayload) (e : RegistryEntry) : Prop :=
  ∃ i, p.bitIsSet i = true ∧ (p.slots i).seqStorage &&& 1 = 0 ∧ entryName (p.slots i) ≠ [] ∧
    (p.slots i).content = e

/-- Nothing that others can see is different. -/
structure NoTrace {A : Type} (w t : World A) : Prop where
  linked : t.linked = w.linked
  registered : ∀ e, Registered t.registry e ↔ Registered w.registry e
  untouched : w.lock ≠ .abandoned → t.registry = w.registry
  heartbeat : t.heartbeat = w.heartbeat
  mapped : t.mapped = w.mapped

section Proofs

variable {A : Type} {w t u : World A} {o : Nat} {name : Name} {names : Name → Option Nat}
  {mapped : A → Option Nat} {heartbeat : List A} {marked : Bool} {p : RegistryPayload}
  {entry : RegistryEntry}

/-- The registry is as it was, but for a recovery it was waiting for. -/
def RegistryKept (w t : World A) : Prop :=
  t.registry = w.registry ∧ t.lock = w.lock ∨
    w.lock = .abandoned ∧ t.lock ≠ .abandoned ∧ t.registry = w.registry.recoverRegistryInvariant

theorem RegistryKept.trans (h : RegistryKept w t) (h' : RegistryKept t u) : RegistryKept w u := by
  rcases h with ⟨hp, hl⟩ | ⟨hl, hl', hp⟩
  · rcases h' with ⟨hp', hl'⟩ | ⟨hl', hl'', hp'⟩
    · exact .inl ⟨hp'.trans hp, hl'.trans hl⟩
    · exact .inr ⟨hl ▸ hl', hl'', hp ▸ hp'⟩
  · rcases h' with ⟨hp', hl''⟩ | ⟨hl'', -, -⟩
    · exact .inr ⟨hl, hl'' ▸ hl', hp'.trans hp⟩
    · exact absurd hl'' hl'

/-- Only the registry may be different, and only as above. -/
structure Looked (w t : World A) : Prop where
  same : t = { w with registry := t.registry, lock := t.lock }
  kept : RegistryKept w t

theorem Looked.refl (w : World A) : Looked w w := ⟨rfl, .inl ⟨rfl, rfl⟩⟩

theorem Looked.trans (h : Looked w t) (h' : Looked t u) : Looked w u := by
  refine ⟨?_, h.kept.trans h'.kept⟩
  have hu := h'.same
  rw [h.same] at hu
  exact hu

theorem lockRegistryControl_looked (marked : Bool) (w : World A) :
    Looked w (lockRegistryControl marked w).2 := by
  unfold lockRegistryControl
  generalize hp : w.registry.recoverRegistryInvariant = recovered
  split
  · exact .refl w
  · rename_i hl
    dsimp only
    split
    · exact ⟨rfl, .inr ⟨hl, nofun, hp.symm⟩⟩
    · exact ⟨rfl, .inr ⟨hl, nofun, hp.symm⟩⟩
  · exact .refl w

theorem readSlot_looked (marked : Bool) (i : SlotIndex) (w : World A) :
    Looked w (readSlot marked i w).2 := by
  unfold readSlot
  split
  · split
    · exact .refl w
    · have hlock := lockRegistryControl_looked marked w
      split
      · rename_i hw
        rwa [hw] at hlock
      · rename_i hw
        rwa [hw] at hlock
  · exact .refl w

theorem listLoop_looked (marked : Bool) (start : Name) (is : List SlotIndex) (w : World A) :
    Looked w (listLoop marked start is w).2 := by
  induction is generalizing w with
  | nil => exact .refl w
  | cons i is ih => exact (readSlot_looked marked i w).trans (ih _)

theorem listRegistry_leaves (marked : Bool) (start : Name) (w : World A) :
    Leaves (listRegistry marked start) w (fun _ t => Looked w t) fun _ _ => False := by
  refine ⟨fun entries t h => ?_, nofun⟩
  have hlook := listLoop_looked marked start (List.finRange maxRegistryEntries) w
  unfold listRegistry at h
  rw [← (Prod.mk.inj h).2]
  exact hlook

/-- A registration that fails has stored nothing. -/
theorem registerSegment_error {e : ErrorCode} (h : (p.registerSegment entry).1 = .error e) :
    (p.registerSegment entry).2 = p := by
  unfold RegistryPayload.registerSegment at h ⊢
  split at h
  · cases h
  · rfl
  · cases h

theorem registerSegmentCall_leaves (marked : Bool) (entry : RegistryEntry) (w : World A) :
    Leaves (registerSegmentCall marked entry) w
      (fun _ t => t.objects = w.objects ∧ t.names = w.names) fun _ t => Looked w t := by
  refine Leaves.bind (R := fun _ t => Looked w t) ?_ fun _ t ht => ?_
  · have hlock := lockRegistryControl_looked marked w
    refine ⟨fun _ t h => ?_, fun _ t h => ?_⟩
    · rwa [h] at hlock
    · rwa [h] at hlock
  · cases hr : t.registry.registerSegment entry with
    | mk r q =>
      have hcall : registerLocked entry t = (r, { t with registry := q }) := by
        unfold registerLocked
        rw [hr]
      refine ⟨fun _ u h => ?_, fun e u h => ?_⟩
      · cases hcall.symm.trans h
        rw [ht.same]
        exact ⟨rfl, rfl⟩
      · cases hcall.symm.trans h
        have hq : q = t.registry := by
          have hkept := registerSegment_error (p := t.registry) (by rw [hr])
          rwa [hr] at hkept
        rw [hq]
        exact ht

/-- `w`, with the registry kept, an object `o` that was not there, and the given names, mappings and
headers. -/
structure Draft (w t : World A) (o : Nat) (names : Name → Option Nat) (mapped : A → Option Nat)
    (heartbeat : List A) : Prop where
  fresh : ∀ name, w.names name ≠ some o
  objects : ∀ o', o' ≠ o → t.objects o' = w.objects o'
  kept : RegistryKept w t
  names : t.names = names
  mapped : t.mapped = mapped
  heartbeat : t.heartbeat = heartbeat

/-- A recovery keeps the entries. -/
theorem registered_recovered (p : RegistryPayload) (e : RegistryEntry) :
    Registered p.recoverRegistryInvariant e ↔ Registered p e := by
  have hsound : ∀ {q : RegistryPayload} {i : SlotIndex}, q.bitIsSet i = true →
      (q.slots i).seqStorage &&& 1 = 0 → entryName (q.slots i) ≠ [] → q.damaged i = false := by
    intro q i hbit heven hname
    exact damaged_eq_false.mpr ⟨heven, fun _ => name_ne_zero_iff.mpr hname, fun _ => hbit⟩
  constructor
  · rintro ⟨i, hbit, heven, hname, hcontent⟩
    cases hd : p.damaged i with
    | true =>
      rw [recovered_cleared hd] at hbit
      cases hbit
    | false =>
      obtain ⟨hslot, hset⟩ := recovered_kept hd
      rw [hslot] at heven hname hcontent
      exact ⟨i, hset ▸ hbit, heven, hname, hcontent⟩
  · rintro ⟨i, hbit, heven, hname, hcontent⟩
    obtain ⟨hslot, hset⟩ := recovered_kept (hsound hbit heven hname)
    generalize p.recoverRegistryInvariant = q at hslot hset ⊢
    rw [← hslot] at heven hname hcontent
    exact ⟨i, hset.trans hbit, heven, hname, hcontent⟩

variable {base : A} {f : ShmHeader → ShmHeader}

theorem store_eq (h : t.mapped base = some o) :
    t.store base f = t.setObject o { t.objects o with header := f (t.objects o).header } := by
  unfold World.store
  rw [h]

theorem headerAt_eq (h : t.mapped base = some o) : t.headerAt base = (t.objects o).header := by
  unfold World.headerAt
  rw [h]
  rfl

@[simp] theorem World.objects_setObject (t : World A) (o : Nat) (object : ShmObject) :
    (t.setObject o object).objects o = object :=
  Function.update_self ..

theorem header_store (h : t.mapped base = some o) :
    ((t.store base f).objects o).header = f (t.objects o).header := by
  rw [store_eq h, World.objects_setObject]

theorem mapped_store : (t.store base f).mapped = t.mapped := by
  unfold World.store
  split <;> rfl

section Owner

variable [DecidableEq A]

/-- The destructor of a handle on a segment that is not DRAINING unlinks nothing. -/
theorem resetOwner_active (h : t.mapped base = some o)
    (hs : (t.objects o).header.state = SegmentState.active.code) :
    resetOwner marked base t = ((t.unregisterHeartbeatOwner base).store base fun h =>
      { h with refCount := h.refCount - 1 }).munmap base := by
  have hmapped : (t.unregisterHeartbeatOwner base).mapped base = some o := h
  have hstate : (((t.unregisterHeartbeatOwner base).store base fun h =>
      { h with refCount := h.refCount - 1 }).headerAt base).state = SegmentState.active.code := by
    rw [headerAt_eq (o := o) (by rw [mapped_store, hmapped]), header_store hmapped]
    exact hs
  unfold resetOwner
  dsimp only
  rw [hstate, if_neg fun hc => absurd hc.2.2 (by decide)]

end Owner

namespace Draft

theorem looked (h : Draft w t o names mapped heartbeat) (hl : Looked t u) :
    Draft w u o names mapped heartbeat := by
  have hkept := h.kept.trans hl.kept
  rw [hl.same] at hkept ⊢
  exact ⟨h.fresh, h.objects, hkept, h.names, h.mapped, h.heartbeat⟩

theorem setObject (h : Draft w t o names mapped heartbeat) (object : ShmObject) :
    Draft w (t.setObject o object) o names mapped heartbeat := by
  refine { h with objects := fun o' ho' => ?_ }
  rw [← h.objects o' ho']
  exact Function.update_of_ne ho' ..

theorem shmUnlink (h : Draft w t o (Function.update w.names name (some o)) mapped heartbeat)
    (hname : w.names name = none) :
    Draft w (t.shmUnlink name) o w.names mapped heartbeat := by
  refine { h with names := ?_ }
  show Function.update t.names name none = w.names
  rw [h.names, Function.update_idem, ← hname, Function.update_eq_self]

/-- What is left once the name is gone is an object nobody can find. -/
theorem noTrace (h : Draft w t o w.names w.mapped w.heartbeat) : NoTrace w t := by
  refine ⟨?_, fun e => ?_, fun hlock => ?_, h.heartbeat, h.mapped⟩
  · funext name
    unfold World.linked
    rw [h.names]
    cases hn : w.names name with
    | none => rfl
    | some o' =>
      have hne : o' ≠ o := by
        rintro rfl
        exact h.fresh name hn
      exact congrArg some (h.objects o' hne)
  · rcases h.kept with ⟨hp, -⟩ | ⟨-, -, hp⟩
    · rw [hp]
    · rw [hp, registered_recovered]
  · rcases h.kept with ⟨hp, -⟩ | ⟨hl, -, -⟩
    · exact hp
    · exact absurd hl hlock

theorem store (h : Draft w t o names mapped heartbeat) (hbase : mapped base = some o)
    (f : ShmHeader → ShmHeader) : Draft w (t.store base f) o names mapped heartbeat := by
  rw [store_eq (h.mapped ▸ hbase)]
  exact h.setObject _

variable [DecidableEq A]

theorem map (h : Draft w t o names w.mapped heartbeat) :
    Draft w { t with mapped := Function.update t.mapped base (some o) } o names
      (Function.update w.mapped base (some o)) heartbeat :=
  { h with mapped := by rw [h.mapped] }

theorem munmap (h : Draft w t o names (Function.update w.mapped base (some o)) heartbeat)
    (hbase : w.mapped base = none) : Draft w (t.munmap base) o names w.mapped heartbeat := by
  refine { h with mapped := ?_ }
  show Function.update t.mapped base none = w.mapped
  rw [h.mapped, Function.update_idem, ← hbase, Function.update_eq_self]

theorem enlist (h : Draft w t o names mapped w.heartbeat) (hbase : mapped base = some o)
    (hfresh : base ∉ w.heartbeat) (beatNs : UInt64) :
    Draft w (t.registerHeartbeatOwner base beatNs) o names mapped (w.heartbeat ++ [base]) := by
  have hstored := h.store hbase fun h =>
    { h with heartbeatCounter := h.heartbeatCounter + 1, heartbeatLastNs := beatNs }
  refine { hstored with heartbeat := ?_ }
  unfold World.registerHeartbeatOwner
  dsimp only
  rw [hstored.heartbeat, if_neg hfresh]

theorem delist (h : Draft w t o names mapped (w.heartbeat ++ [base]))
    (hfresh : base ∉ w.heartbeat) :
    Draft w (t.unregisterHeartbeatOwner base) o names mapped w.heartbeat := by
  refine { h with heartbeat := ?_ }
  show t.heartbeat.filter (· ≠ base) = w.heartbeat
  have hkept : w.heartbeat.filter (· ≠ base) = w.heartbeat := by
    apply List.filter_eq_self.mpr
    intro a ha
    apply decide_eq_true
    rintro rfl
    exact hfresh ha
  rw [h.heartbeat, List.filter_append, hkept, List.filter_cons_of_neg (by simp), List.filter_nil,
    List.append_nil]

end Draft

/-- What was linked is linked still, with the same contents. -/
def Keeps (w t : World A) : Prop := ∀ name object, w.linked name = some object →
  t.linked name = some object

theorem Draft.keeps (h : Draft w t o (Function.update w.names name (some o)) mapped heartbeat)
    (hname : w.names name = none) : Keeps w t := by
  intro name' object hobject
  unfold World.linked at hobject ⊢
  cases hn : w.names name' with
  | none =>
    rw [hn] at hobject
    cases hobject
  | some o' =>
    have hne : o' ≠ o := by
      rintro rfl
      exact h.fresh name' hn
    have hne' : name' ≠ name := by
      rintro rfl
      cases hn.symm.trans hname
    rw [hn] at hobject
    rw [h.names, Function.update_of_ne hne', hn, ← hobject]
    exact congrArg some (h.objects o' hne)

section Stages

variable {options : CreateOptions} {env : WorldEnv A}

/-- After `shm_open`. -/
structure Opened (options : CreateOptions) (w t : World A) (o : Nat) : Prop where
  free : w.names options.name = none
  draft : Draft w t o (Function.update w.names options.name (some o)) w.mapped w.heartbeat

theorem Opened.undo (h : Opened options w t o) : NoTrace w (t.shmUnlink options.name) :=
  (h.draft.shmUnlink h.free).noTrace

/-- The first exits have only looked. -/
theorem Looked.noTrace (h : Looked w t) : NoTrace w t := by
  have hdraft : Draft w t w.next w.names w.mapped w.heartbeat := by
    refine ⟨fun name hn => absurd (w.made hn) (lt_irrefl _), ?_, h.kept, ?_, ?_, ?_⟩
    all_goals rw [h.same]
    intro _ _
    rfl
  exact hdraft.noTrace

theorem opened_link (h : Looked w t) (hn : t.names options.name = none) :
    Opened options w (t.link options.name) t.next := by
  have hmade : ∀ {name o}, t.names name = some o → o < t.next := t.made
  have hkept := h.kept
  rw [h.same] at hmade hn hkept ⊢
  refine ⟨hn, fun name ho => ?_, fun o' ho' => ?_, hkept, rfl, rfl, rfl⟩
  · exact absurd (hmade ho) (lt_irrefl _)
  · exact Function.update_of_ne ho' ..

theorem shmOpen_leaves (h : Looked w t) :
    Leaves (shmOpen env options.name) t (fun o u => Opened options w u o)
      fun _ u => NoTrace w u := by
  cases hn : t.names options.name with
  | some o =>
    refine .of_error (t := t) (e := .alreadyExists) ?_ h.noTrace
    rw [shmOpen, hn]
  | none =>
    cases ho : env.os .shmOpen with
    | error e =>
      refine .of_error (t := t) (e := e) ?_ h.noTrace
      rw [shmOpen, hn]
      dsimp only
      rw [ho]
    | ok _ =>
      refine .of_ok (a := t.next) (t := t.link options.name) ?_ (opened_link h hn)
      rw [shmOpen, hn]
      dsimp only
      rw [ho]

theorem ftruncate_leaves (env : WorldEnv A) (h : Opened options w t o) (size : UInt64) :
    Leaves (ftruncate env o size) t (fun _ u => Opened options w u o)
      fun _ u => Opened options w u o := by
  refine Leaves.attempt_bind (fun _ _ => h) fun _ _ => .act ?_
  exact { h with draft := h.draft.setObject _ }

/-- A list of an undisturbed registry takes no lock. -/
theorem listLoop_even (he : ∀ i, (w.registry.slots i).seqStorage &&& 1 = 0) (start : Name)
    (is : List SlotIndex) :
    listLoop marked start is w = (is.filterMap (w.registry.listSlot start), w) := by
  have hread : ∀ i, readSlot marked i w =
      (if w.registry.bitIsSet i then some (w.registry.slots i) else none, w) := by
    intro i
    unfold readSlot
    split
    · rw [snapshotSlot_even (he i)]
    · rfl
  induction is with
  | nil => rfl
  | cons i is ih =>
    rw [listLoop, hread]
    dsimp only
    rw [ih, List.filterMap_cons, RegistryPayload.listSlot, snapshotSlot_even (he i)]
    cases w.registry.bitIsSet i with
    | false => rfl
    | true =>
      by_cases hstart : start = [] ∨ (entryName (w.registry.slots i)).take start.length = start
      · have hkeep : startsWith start (w.registry.slots i) = true := by
          simpa [startsWith] using hstart
        simp [Option.filter, hkeep, hstart]
      · have hdrop : startsWith start (w.registry.slots i) = false := by
          simpa [startsWith] using hstart
        simp [hdrop, hstart]

/-- A new object with its header, over a registry nobody has stored to. -/
structure Building (options : CreateOptions) (env : WorldEnv A) (w t : World A) (o : Nat)
    (header : ShmHeader) : Prop where
  registry : t.registry = w.registry
  lock : t.lock = .consistent
  names : t.names options.name = some o
  mapped : t.mapped env.base = some o
  header : (t.objects o).header = header

theorem Building.store {f : ShmHeader → ShmHeader} {header : ShmHeader}
    (h : Building options env w t o header) :
    Building options env w (t.store env.base f) o (f header) := by
  have hheader : ((t.store env.base f).objects o).header = _ := header_store h.mapped
  rw [store_eq h.mapped] at hheader ⊢
  exact ⟨h.registry, h.lock, h.names, h.mapped, hheader.trans (congrArg f h.header)⟩

theorem registerMapped_refines {header : ShmHeader} (h : Building options env w t o header) :
    (∀ p, registerCreated options env.toCreateEnv header w.registry = .ok p →
      registerMapped options env t = (.ok (), { t with registry := p })) ∧
    ∀ e, registerCreated options env.toCreateEnv header w.registry = .error e →
      registerMapped options env t = (.error e, t) := by
  have hheader : t.headerAt env.base = header := (headerAt_eq h.mapped).trans h.header
  have hlocked : lockRegistryControl env.marked t = (.ok (), t) := by
    rw [lockRegistryControl, h.lock]
  unfold registerCreated registerMapped
  rw [hheader, ← h.registry]
  by_cases hname : options.name = registryName
  · rw [if_pos hname, if_pos hname]
    refine ⟨fun p hp => ?_, nofun⟩
    cases hp
    rfl
  · rw [if_neg hname, if_neg hname, registerSegmentCall, bind_of_ok hlocked]
    cases hr : t.registry.registerSegment (createEntry options env.toCreateEnv header) with
    | mk r q =>
      have hcall : registerLocked (createEntry options env.toCreateEnv header) t =
          (r, { t with registry := q }) := by
        rw [registerLocked, hr]
      rw [hcall]
      cases r with
      | ok _ =>
        refine ⟨fun p hp => ?_, nofun⟩
        cases hp
        rfl
      | error e =>
        refine ⟨nofun, fun e' he => ?_⟩
        cases he
        have hkept := registerSegment_error (p := t.registry) (by rw [hr])
        rw [hr] at hkept
        rw [show q = t.registry from hkept]

variable [DecidableEq A]

/-- After the header has been written, with the headers the worker knows by then. -/
structure Written (options : CreateOptions) (env : WorldEnv A) (w t : World A) (o : Nat)
    (heartbeat : List A) : Prop where
  free : w.names options.name = none
  draft : Draft w t o (Function.update w.names options.name (some o))
    (Function.update w.mapped env.base (some o)) heartbeat
  active : (t.objects o).header.state = SegmentState.active.code

theorem Written.mapped_base (h : Written options env w t o heartbeat) :
    t.mapped env.base = some o := by
  rw [h.draft.mapped, Function.update_self]

theorem Written.store {f : ShmHeader → ShmHeader} (h : Written options env w t o heartbeat)
    (hf : (f (t.objects o).header).state = (t.objects o).header.state) :
    Written options env w (t.store env.base f) o heartbeat := by
  refine ⟨h.free, h.draft.store (Function.update_self ..) f, ?_⟩
  rw [header_store h.mapped_base, hf, h.active]

theorem Written.undo (h : Written options env w t o w.heartbeat)
    (hbase : w.mapped env.base = none) :
    NoTrace w ((t.munmap env.base).shmUnlink options.name) :=
  ((h.draft.munmap hbase).shmUnlink h.free).noTrace

/-- The last exit: the name goes first, the rest with the handle. -/
theorem Written.reset (h : Written options env w t o (w.heartbeat ++ [env.base]))
    (hbase : w.mapped env.base = none) (hfresh : env.base ∉ w.heartbeat) :
    NoTrace w (resetOwner env.marked env.base (t.shmUnlink options.name)) := by
  have hmapped : (t.shmUnlink options.name).mapped env.base = some o := h.mapped_base
  rw [resetOwner_active hmapped h.active]
  have hdelisted := (h.draft.shmUnlink h.free).delist hfresh
  exact ((hdelisted.store (Function.update_self ..) _).munmap hbase).noTrace

theorem Written.enlist (h : Written options env w t o w.heartbeat)
    (hfresh : env.base ∉ w.heartbeat) :
    Written options env w (t.registerHeartbeatOwner env.base env.beatNs) o
      (w.heartbeat ++ [env.base]) := by
  refine ⟨h.free, h.draft.enlist (Function.update_self ..) hfresh env.beatNs, ?_⟩
  exact (congrArg ShmHeader.state (header_store h.mapped_base)).trans h.active

theorem mmap_leaves (env : WorldEnv A) (h : Opened options w t o) :
    Leaves (mmap env o) t
      (fun _ u => Draft w u o (Function.update w.names options.name (some o))
        (Function.update w.mapped env.base (some o)) w.heartbeat)
      fun _ u => Opened options w u o :=
  Leaves.attempt_bind (fun _ _ => h) fun _ _ => .act h.draft.map

theorem signMapped_leaves (h : Written options env w t o heartbeat) :
    Leaves (signMapped env) t (fun _ u => Written options env w u o heartbeat)
      fun _ u => Written options env w u o heartbeat := by
  cases hs : signHeaderIfEnabled env.keys (t.headerAt env.base) with
  | error e =>
    refine .of_error (t := t) (e := e) ?_ h
    rw [signMapped, hs]
  | ok header =>
    refine .of_ok (a := ()) (t := t.store env.base fun _ => header) ?_ (h.store ?_)
    · rw [signMapped, hs]
    · rw [signHeader_eq hs, headerAt_eq h.mapped_base]

theorem initControlMutex_leaves (h : Written options env w t o heartbeat) :
    Leaves (initControlMutex env) t (fun _ u => Written options env w u o heartbeat)
      fun _ u => Written options env w u o heartbeat :=
  Leaves.attempt_bind (fun _ _ => h) fun _ _ => .act (h.store rfl)

theorem registerMapped_leaves (h : Written options env w t o heartbeat) :
    Leaves (registerMapped options env) t (fun _ u => Keeps w u)
      fun _ u => Written options env w u o heartbeat := by
  have hkeeps := h.draft.keeps h.free
  by_cases hname : options.name = registryName
  · refine .of_ok (a := ()) (t := t) ?_ hkeeps
    rw [registerMapped, if_pos hname]
  · have hcall := registerSegmentCall_leaves env.marked
      (createEntry options env.toCreateEnv (t.headerAt env.base)) t
    refine (hcall.mono (fun _ u hu => ?_) fun _ u hu => ?_).congr (if_neg hname)
    · intro name object hobject
      rw [← hkeeps name object hobject, World.linked, World.linked, hu.1, hu.2]
    · refine ⟨h.free, h.draft.looked hu, ?_⟩
      rw [hu.same]
      exact h.active

theorem createMapped_leaves (hfree : w.names options.name = none)
    (h : Draft w t o (Function.update w.names options.name (some o))
      (Function.update w.mapped env.base (some o)) w.heartbeat)
    (hbase : w.mapped env.base = none) (hfresh : env.base ∉ w.heartbeat) :
    Leaves (createMapped options env) t (fun _ u => Keeps w u) fun _ u => NoTrace w u := by
  have hwritten : Written options env w
      (t.store env.base fun _ => writeHeader options env.toCreateEnv) o w.heartbeat := by
    refine ⟨hfree, h.store (Function.update_self ..) _, ?_⟩
    rw [header_store (by rw [h.mapped, Function.update_self])]
    rfl
  refine Leaves.act_bind ?_
  have hsigned := (signMapped_leaves hwritten).mono (fun _ _ h => h) fun _ _ h => h.undo hbase
  refine hsigned.orUndo.bind fun _ t hwritten => ?_
  have hmutex := (initControlMutex_leaves hwritten).mono (fun _ _ h => h) fun _ _ h =>
    h.undo hbase
  refine hmutex.orUndo.bind fun _ t hwritten => ?_
  refine Leaves.act_bind ?_
  have hregistered := (registerMapped_leaves (hwritten.enlist hfresh)).mono (fun _ _ h => h)
    fun _ _ h => h.reset hbase hfresh
  exact hregistered.orUndo.bind fun _ _ hkeeps => .pure hkeeps

theorem createCall_leaves (options : CreateOptions) (hbase : w.mapped env.base = none)
    (hfresh : env.base ∉ w.heartbeat) :
    Leaves (createCall options env) w (fun _ t => Keeps w t) fun _ t => NoTrace w t := by
  refine Leaves.attempt_bind (fun _ _ => (Looked.refl w).noTrace) fun _ _ => ?_
  have hlist := listRegistry_leaves env.marked [] w
  refine Leaves.bind (hlist.mono (fun _ _ h => h) fun _ _ => False.elim) fun entries t hlook => ?_
  refine Leaves.attempt_bind (fun _ _ => hlook.noTrace) fun _ _ => ?_
  refine Leaves.attempt_bind (fun _ _ => hlook.noTrace) fun _ _ => ?_
  refine (shmOpen_leaves hlook).bind fun o t hopened => ?_
  have hperms : Leaves (attempt (env.os .applyPermissions)) t
      (fun _ u => Opened options w u o) fun _ u => NoTrace w (u.shmUnlink options.name) :=
    .attempt (fun _ _ => hopened) fun _ _ => hopened.undo
  refine hperms.orUndo.bind fun _ t hopened => ?_
  have hsized := (ftruncate_leaves env hopened options.totalSize).mono
    (fun _ _ h => h) fun _ _ h => h.undo
  refine hsized.orUndo.bind fun _ t hopened => ?_
  have hmapped := (mmap_leaves env hopened).mono (fun _ _ h => h) fun _ _ h => h.undo
  refine hmapped.orUndo.bind fun _ t hdraft => ?_
  exact createMapped_leaves hopened.free hdraft hbase hfresh

theorem Building.enlist {header : ShmHeader} (h : Building options env w t o header) :
    Building options env w (t.registerHeartbeatOwner env.base env.beatNs) o
      { header with
        heartbeatCounter := header.heartbeatCounter + 1
        heartbeatLastNs := env.beatNs } := by
  have hstored := h.store (f := fun h =>
    { h with heartbeatCounter := h.heartbeatCounter + 1, heartbeatLastNs := env.beatNs })
  exact ⟨hstored.registry, hstored.lock, hstored.names, hstored.mapped, hstored.header⟩

/-- What `create` computes once the object is mapped. -/
def createdMapped (options : CreateOptions) (env : CreateEnv) (p : RegistryPayload) :
    Except ErrorCode (ShmHeader × RegistryPayload) := do
  let signed ← signHeaderIfEnabled env.keys (writeHeader options env)
  env.os .initControlMutex
  let header := finishHeader env signed
  let p ← registerCreated options env header p
  return (header, p)

/-- The second half of `create` on the mapped object. -/
theorem createMapped_refines {header₀ : ShmHeader} (h : Building options env w t o header₀) :
    Leaves (createMapped options env) t
      (fun _ u => ∃ header,
        createdMapped options env.toCreateEnv w.registry = .ok (header, u.registry) ∧
          u.names options.name = some o ∧ (u.objects o).header = header)
      fun e _ => createdMapped options env.toCreateEnv w.registry = .error e := by
  unfold createdMapped
  refine Leaves.act_bind ?_
  have hwritten := h.store (f := fun _ => writeHeader options env.toCreateEnv)
  have hheader := (headerAt_eq hwritten.mapped).trans hwritten.header
  refine Leaves.undo_bind (r := signHeaderIfEnabled env.keys (writeHeader options env.toCreateEnv))
    (fun _ h => by rw [signMapped, hheader, h]) (fun e h => by rw [signMapped, hheader, h])
    (fun e h => by rw [h]; rfl) fun header hsign => ?_
  rw [hsign]
  have hsigned := hwritten.store (f := fun _ => header)
  refine Leaves.undo_bind (r := env.os .initControlMutex)
    (fun _ h => bind_of_ok (by rw [attempt, h])) (fun e h => bind_of_error (by rw [attempt, h]))
    (fun e h => by rw [h]; rfl) fun _ hmutex => ?_
  rw [hmutex]
  have hready := hsigned.store (f := fun h => { h with controlMutex := .robust })
  refine Leaves.act_bind ?_
  have hbeat : Building options env w _ o (finishHeader env.toCreateEnv header) :=
    hready.enlist
  obtain ⟨hok, herror⟩ := registerMapped_refines hbeat
  -- The registration is the last thing `create` does with its header.
  have hlast {r : Except ErrorCode RegistryPayload} (h : registerCreated options env.toCreateEnv
      (finishHeader env.toCreateEnv header) w.registry = r) :=
    congrArg (fun r => r >>= fun p => Except.ok (finishHeader env.toCreateEnv header, p)) h
  refine Leaves.undo_bind hok herror (fun e h => hlast h) fun p hp => .pure ?_
  exact ⟨_, hlast hp, hbeat.names, hbeat.header⟩

/-- With the mutex as it should be, no slot half written and the name free, the call decides as
`create` does and leaves the header and the registry that `create` computes. -/
theorem createCall_refines (options : CreateOptions) (env : WorldEnv A) (w : World A)
    (hlock : w.lock = .consistent) (he : ∀ i, (w.registry.slots i).seqStorage &&& 1 = 0)
    (hfree : w.names options.name = none) :
    Leaves (createCall options env) w
      (fun _ t => ∃ header, create options env.toCreateEnv w.registry = .ok (header, t.registry) ∧
        t.names options.name = some w.next ∧ (t.objects w.next).header = header)
      fun e _ => create options env.toCreateEnv w.registry = .error e := by
  have hlist : listRegistry env.marked [] w = (.ok (w.registry.list []), w) := by
    rw [listRegistry, listLoop_even he, RegistryPayload.list]
  unfold create
  refine Leaves.attempt_bind (fun e h => by rw [h]; rfl) fun _ hparse => ?_
  rw [hparse]
  refine Leaves.bind_ok hlist ?_
  refine Leaves.attempt_bind (fun e h => by rw [h]; rfl) fun _ hsec => ?_
  rw [hsec]
  refine Leaves.attempt_bind (fun e h => by rw [h]; rfl) fun _ hlayout => ?_
  rw [hlayout]
  cases hopen : env.os .shmOpen with
  | error e =>
    refine .of_error (bind_of_error (t := w) (e := e) ?_) rfl
    rw [shmOpen, hfree]
    dsimp only
    rw [hopen]
  | ok _ =>
    refine .bind_ok (a := w.next) (t := w.link options.name) ?_ ?_
    · rw [shmOpen, hfree]
      dsimp only
      rw [hopen]
    refine Leaves.undo_bind (r := env.os .applyPermissions) (fun _ h => by rw [attempt, h])
      (fun e h => by rw [attempt, h]) (fun e h => by rw [h]; rfl) fun _ hperms => ?_
    rw [hperms]
    refine Leaves.undo_bind (r := env.os .ftruncate) (fun _ h => bind_of_ok (by rw [attempt, h]))
      (fun e h => bind_of_error (by rw [attempt, h])) (fun e h => by rw [h]; rfl) fun _ hsize => ?_
    rw [hsize]
    refine Leaves.undo_bind (r := env.os .mmap) (fun _ h => bind_of_ok (by rw [attempt, h]))
      (fun e h => bind_of_error (by rw [attempt, h])) (fun e h => by rw [h]; rfl) fun _ hmap => ?_
    rw [hmap]
    refine createMapped_refines ⟨rfl, hlock, ?_, ?_, rfl⟩
    · exact Function.update_self ..
    · exact Function.update_self ..

/-- The headers the worker knows are mapped, and `mmap` answers an address that is not: a failed
`create` leaves no trace, and no `create` touches an object that was linked before. -/
theorem createCall_failed (options : CreateOptions) (env : WorldEnv A) (w : World A)
    (hbeat : ∀ a ∈ w.heartbeat, w.mapped a ≠ none) (hbase : w.mapped env.base = none) :
    (∀ e, (createCall options env w).1 = .error e → NoTrace w (createCall options env w).2) ∧
      ∀ name object, w.linked name = some object →
        (createCall options env w).2.linked name = some object := by
  have hfresh : env.base ∉ w.heartbeat := fun hmem => hbeat _ hmem hbase
  have hleaves := createCall_leaves options hbase hfresh
  cases hcall : createCall options env w with
  | mk r t =>
    cases r with
    | ok a =>
      exact ⟨nofun, hleaves.ok a t hcall⟩
    | error e =>
      have htrace := hleaves.error e t hcall
      refine ⟨fun _ _ => htrace, fun name object hobject => ?_⟩
      rw [htrace.linked, hobject]

end Stages

end Proofs

theorem made_of_none {_ : Name} {o : Nat} (h : (none : Option Nat) = some o) : o < 0 := by
  cases h

/-- Nothing linked or mapped, and a registry whose mutex cannot be locked any more. -/
def lostWorld : World Unit :=
  ⟨fun _ => none, fun _ => ⟨0, zeroHeader, fun _ => 0⟩, 0, zeroPayload, .lost, fun _ => none, [],
    @made_of_none⟩

def quietWorldEnv : WorldEnv Unit := ⟨quietEnv, (), true⟩

theorem createCall_failed_lost :
    errorOf (createCall (sizedOptions 64) quietWorldEnv lostWorld).1 = some .priorOwnerDead ∧
      NoTrace lostWorld (createCall (sizedOptions 64) quietWorldEnv lostWorld).2 := by
  have herror : errorOf (createCall (sizedOptions 64) quietWorldEnv lostWorld).1 =
      some .priorOwnerDead := by decide +kernel
  refine ⟨herror, ?_⟩
  have hfailed := createCall_failed (sizedOptions 64) quietWorldEnv lostWorld nofun rfl
  cases hr : (createCall (sizedOptions 64) quietWorldEnv lostWorld).1 with
  | ok a =>
    rw [hr] at herror
    cases herror
  | error e => exact hfailed.1 e hr

end Shmfx
