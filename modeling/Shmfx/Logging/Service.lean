import Shmfx.Lib.Lts
import Shmfx.Lib.Rollback
import Shmfx.Logging.Init
import Shmfx.Logging.Recreation
import Shmfx.Ring.Bytes

/-! The logging service from `Logger::init` to the sink, one call per step: any number of loggers
and one `LogCenter` among processes that create, destroy, attach and collect segments. -/
namespace Shmfx

open Lts Word

/-- The `LogCenter` with the shared objects, what their rings hold, and the loggers there are. -/
structure Service where
  center : Center
  contents : Nat → Ring
  loggers : List Logger

namespace Service

def host (c : Service) : LogHost := ⟨c.center.store, c.contents⟩

/-- The state after a call that saw the host. -/
def setHost (c : Service) (h : LogHost) : Service :=
  { c with center := c.center.setStore h.store, contents := h.contents }

def setStore (c : Service) (store : LinkedStore) : Service :=
  { c with center := c.center.setStore store }

def setRing (c : Service) (o : Nat) (r : Ring) : Service :=
  { c with contents := Function.update c.contents o r }

end Service

/-- The loop of `drain_ring`; `batch` turns are left. -/
def drainLoop (source : Name) : Nat → List UInt8 → Ring → List LogRecord × Ring
  | 0, _, r => ([], r)
  | batch + 1, scratch, r =>
    match tryPop r scratch with
    | (none, r) => ([], r)
    | (some (popped, scratch), r) =>
      let rest := drainLoop source batch scratch r
      (logRecord source popped scratch :: rest.1, rest.2)

def drainRing (options : CenterOptions) (source : Name) (r : Ring) : List LogRecord × Ring :=
  drainLoop source options.drainBatch.toNat (List.replicate options.scratchBytes.toNat 0) r

/-- The loop of `drain_once`, with the object each record comes from. -/
def drainRings (options : CenterOptions) :
    List (AttachedRing Nat) → (Nat → Ring) → List (Nat × LogRecord) × (Nat → Ring)
  | [], contents => ([], contents)
  | a :: rings, contents =>
    let drained := drainRing options a.name (contents a.ring)
    let rest := drainRings options rings (Function.update contents a.ring drained.2)
    (drained.1.map (Prod.mk a.ring) ++ rest.1, rest.2)

inductive ServiceEvent
  | init (options : LoggerOptions) (result : Except ErrorCode Logger)
  | log (l : Logger) (a : Push) (result : Except ErrorCode Unit)
  | drain (records : List (Nat × LogRecord))
  | other

/-- What `create`, `destroy`, `attach`, `gc` and the destruction of handles do to the shared
objects, whoever calls them. -/
inductive StoreStep (s : LinkedStore) : LinkedStore → Prop
  | create (options : CreateOptions) (env : CreateEnv) : StoreStep s (s.create options env).2
  | destroy (name : Name) : StoreStep s (s.destroy name).2
  | attach (env : AttachEnv) (name : Name) (mode : AttachMode) :
      StoreStep s (s.attach env name mode).2
  | release (o : Nat) (owner : Bool) : StoreStep s (s.release o owner)
  | gc (env : GcEnv) : StoreStep s (s.gc env)

/-- One call. -/
inductive ServiceStep (options : CenterOptions) (start : Name) (c : Service) :
    ServiceEvent → Service → Prop
  | init {o : LoggerOptions} {env : InitEnv} {l : Logger} {h : LogHost}
      (hcall : Logger.init o env c.host = (.ok l, h)) :
      ServiceStep options start c (.init o (.ok l))
        { c.setHost h with loggers := l :: c.loggers }
  | initFailed {o : LoggerOptions} {env : InitEnv} {e : ErrorCode} {h : LogHost}
      (hcall : Logger.init o env c.host = (.error e, h)) :
      ServiceStep options start c (.init o (.error e)) (c.setHost h)
  | log {l : Logger} {call : LogCall} {now : UInt64} {a : Push} (hl : l ∈ c.loggers)
      (hcall : call.pushed now = .ok a) :
      ServiceStep options start c (.log l a (tryPush (c.contents l.ring) a).1)
        (c.setRing l.ring (tryPush (c.contents l.ring) a).2)
  | drop {l : Logger} (hl : l ∈ c.loggers) :
      ServiceStep options start c .other
        { c.setStore (c.center.store.release l.ring l.owner) with loggers := c.loggers.erase l }
  | discover (env : DiscoverEnv) (hmeta : env.ringMeta = fun o => (c.contents o).ringMeta) :
      ServiceStep options start c .other
        { c with center := (c.center.discoverOnce env start).2 }
  | drain :
      ServiceStep options start c (.drain (drainRings options c.center.rings c.contents).1)
        { c with
          center := c.center.drainOnce
          contents := (drainRings options c.center.rings c.contents).2 }
  | others {store : LinkedStore} (h : StoreStep c.center.store store) :
      ServiceStep options start c .other (c.setStore store)

/-- The shared objects and whatever their rings hold, with no logger and nothing attached. -/
def Service.start (store : LinkedStore) (contents : Nat → Ring) : Service :=
  ⟨⟨store, [], List.nodup_nil⟩, contents, []⟩

section Logs

/-- The record accepted into the ring of an object. -/
def ServiceEvent.accepted (o : Nat) : ServiceEvent → Option Push
  | .log l a (.ok _) => if l.ring = o then some a else none
  | _ => none

/-- Whether a record was refused by the ring of an object. -/
def ServiceEvent.refused (o : Nat) : ServiceEvent → Bool
  | .log l _ (.error _) => l.ring = o
  | _ => false

/-- The records of one object, out of all that were drained. -/
def recordsOf (o : Nat) (records : List (Nat × LogRecord)) : List LogRecord :=
  (records.filter fun x => x.1 = o).map Prod.snd

/-- The records the sink got out of the ring of an object. -/
def ServiceEvent.sunk (o : Nat) : ServiceEvent → List LogRecord
  | .drain records => recordsOf o records
  | _ => []

def acceptedInto (o : Nat) (log : List ServiceEvent) : List Push :=
  log.filterMap (ServiceEvent.accepted o)

def refusedInto (o : Nat) (log : List ServiceEvent) : Nat := log.countP (ServiceEvent.refused o)

def sunkFrom (o : Nat) (log : List ServiceEvent) : List LogRecord :=
  log.flatMap (ServiceEvent.sunk o)

/-- What the sink gets for a record that a logger pushed into slots of `maxPayload` bytes. -/
def received (options : CenterOptions) (source : Name) (maxPayload : Nat) (a : Push) : LogRecord :=
  ⟨source, decodeLevel a.type, a.storedFlags maxPayload, a.user,
    (a.payload.take maxPayload).take options.scratchBytes.toNat⟩

/-- What has become of the records pushed into the ring a logger made. -/
structure Delivered (options : CenterOptions) (o : LoggerOptions) (l : Logger)
    (log : List ServiceEvent) (c : Service) : Prop where
  /-- The sink got the first of them, in order, once and as they were logged. -/
  sunk : sunkFrom l.ring log = ((acceptedInto l.ring log).take (sunkFrom l.ring log).length).map
    (received options l.name (o.stride - recordHeaderBytes))
  /-- The others come out in order when the ring is drained. -/
  kept : ∀ batch, (drainLoop l.name batch (List.replicate options.scratchBytes.toNat 0)
      (c.contents l.ring)).1 =
    (((acceptedInto l.ring log).drop (sunkFrom l.ring log).length).take batch).map
      (received options l.name (o.stride - recordHeaderBytes))
  /-- What was refused has been counted. -/
  lost : (c.contents l.ring).ringMeta.lostCount = u64 (refusedInto l.ring log)
  /-- Whoever logged into it found it under the same name. -/
  named : ∀ l' a result, ServiceEvent.log l' a result ∈ log → l'.ring = l.ring → l'.name = l.name

end Logs

section Drain

variable {options : CenterOptions} {r : Ring} {n m h t : Nat} {q : Fifo} {source : Name}

/-- What the sink gets for a stored record. -/
def shown (scratchBytes : Nat) (source : Name) (x : Stored) : LogRecord :=
  ⟨source, decodeLevel x.type, x.flags, x.user, x.payload.take scratchBytes⟩

theorem logRecord_view (x : Stored) (scratch : List UInt8) :
    logRecord source (x.view scratch).1 (x.view scratch).2 = shown scratch.length source x := by
  have hpayload : (x.payload.take (min scratch.length x.payload.length) ++
      scratch.drop (min scratch.length x.payload.length)).take
        (min scratch.length x.payload.length) = x.payload.take scratch.length := by
    rw [List.take_left' (by simp), List.take_eq_take_iff]
    simp
  simp only [logRecord, Stored.view, shown, hpayload]

theorem length_view (x : Stored) (scratch : List UInt8) :
    (x.view scratch).2.length = scratch.length := by
  simp only [Stored.view, List.length_append, List.length_take, List.length_drop]
  omega

/-- The loop takes the oldest records of the queue, as many as it may. -/
theorem drainLoop_represents (source : Name) (batch : Nat) (hr : Represents r n m h t q)
    (ht : t < 2 ^ 64) (scratch : List UInt8) :
    (drainLoop source batch scratch r).1 =
        (q.queue.take (min batch q.queue.length)).map (shown scratch.length source) ∧
      Represents (drainLoop source batch scratch r).2 n m (h + min batch q.queue.length) t
        ⟨q.queue.drop (min batch q.queue.length), q.lost⟩ := by
  induction batch generalizing r h q scratch with
  | zero =>
    rw [Nat.zero_min]
    exact ⟨rfl, hr⟩
  | succ batch ih =>
    have hlen := hr.length
    have hf : Fits n h := .inl (by omega)
    cases hx : q.queue with
    | nil =>
      obtain ⟨queue, lost⟩ := q
      subst hx
      rw [drainLoop, hr.pop_empty hf rfl]
      exact ⟨rfl, hr⟩
    | cons x xs =>
      obtain ⟨hpop, hr'⟩ := hr.pop hf hx scratch
      obtain ⟨hrest, hr''⟩ := ih hr' (x.view scratch).2
      have hturn : tryPop r scratch = (some (x.view scratch), (tryPop r scratch).2) :=
        Prod.ext hpop rfl
      have hmin : min (batch + 1) (x :: xs).length = min batch xs.length + 1 := by
        rw [List.length_cons]
        omega
      rw [drainLoop, hturn, hmin]
      dsimp only
      rw [hrest, logRecord_view, length_view]
      refine ⟨rfl, ?_⟩
      rw [Nat.add_comm (min batch xs.length) 1, ← Nat.add_assoc, Nat.add_comm 1]
      exact hr''

/-- Every record comes from a ring that is attached. -/
theorem drainRings_source (rings : List (AttachedRing Nat)) (contents : Nat → Ring) :
    ∀ x ∈ (drainRings options rings contents).1, ∃ a ∈ rings, a.ring = x.1 := by
  induction rings generalizing contents with
  | nil =>
    intro x hx
    cases hx
  | cons a rings ih =>
    intro x hx
    rcases List.mem_append.mp hx with hx | hx
    · obtain ⟨record, -, rfl⟩ := List.mem_map.mp hx
      exact ⟨a, List.mem_cons_self, rfl⟩
    · obtain ⟨a', ha', heq⟩ := ih _ x hx
      exact ⟨a', List.mem_cons_of_mem _ ha', heq⟩

theorem recordsOf_append (o : Nat) (as bs : List (Nat × LogRecord)) :
    recordsOf o (as ++ bs) = recordsOf o as ++ recordsOf o bs := by
  simp [recordsOf]

theorem recordsOf_own (o : Nat) (records : List LogRecord) :
    recordsOf o (records.map (Prod.mk o)) = records := by
  simp [recordsOf, List.filter_map, Function.comp_def]

theorem recordsOf_other {o o' : Nat} (h : o' ≠ o) (records : List LogRecord) :
    recordsOf o (records.map (Prod.mk o')) = [] := by
  simp [recordsOf, List.filter_map, Function.comp_def, h]

/-- Whatever else is attached, the records of one object are the oldest of its queue, shown under
the name it is attached by, and a whole batch of them if there are as many. -/
theorem drainRings_represents (options : CenterOptions) {o : Nat}
    (rings : List (AttachedRing Nat)) (contents : Nat → Ring)
    (hnamed : ∀ a ∈ rings, a.ring = o → a.name = source) (hr : Represents (contents o) n m h t q)
    (ht : t < 2 ^ 64) :
    ∃ k ≤ q.queue.length, recordsOf o (drainRings options rings contents).1 =
        (q.queue.take k).map (shown options.scratchBytes.toNat source) ∧
      Represents ((drainRings options rings contents).2 o) n m (h + k) t
        ⟨q.queue.drop k, q.lost⟩ ∧
      (o ∈ rings.map AttachedRing.ring → min options.drainBatch.toNat q.queue.length ≤ k) := by
  induction rings generalizing contents h q with
  | nil => exact ⟨0, Nat.zero_le _, rfl, hr, fun ho => absurd ho List.not_mem_nil⟩
  | cons a rings ih =>
    obtain ⟨hfirst, hrest⟩ := List.forall_mem_cons.mp hnamed
    rw [drainRings]
    dsimp only
    rw [recordsOf_append]
    by_cases ho : a.ring = o
    · obtain rfl := hfirst ho
      subst ho
      obtain ⟨hrecords, hr'⟩ := drainLoop_represents a.name options.drainBatch.toNat hr ht
        (List.replicate options.scratchBytes.toNat 0)
      rw [List.length_replicate] at hrecords
      obtain ⟨k, hk, hmore, hr'', -⟩ := ih (Function.update contents a.ring
        (drainRing options a.name (contents a.ring)).2) hrest
        (by rw [Function.update_self]; exact hr')
      rw [List.length_drop] at hk
      refine ⟨min options.drainBatch.toNat q.queue.length + k, by omega, ?_, ?_, ?_⟩
      · rw [recordsOf_own, hmore, drainRing, hrecords, List.take_add, List.map_append]
      · rw [← Nat.add_assoc, ← List.drop_drop]
        exact hr''
      · exact fun _ => Nat.le_add_right ..
    · obtain ⟨k, hk, hmore, hr', hbatch⟩ := ih (Function.update contents a.ring
        (drainRing options a.name (contents a.ring)).2) hrest
        (by rwa [Function.update_of_ne (Ne.symm ho)])
      refine ⟨k, hk, ?_, hr', ?_⟩
      · rw [recordsOf_other ho, hmore, List.nil_append]
      · intro hmem
        exact hbatch ((List.mem_cons.mp hmem).resolve_left (Ne.symm ho))

end Drain

namespace LinkedStore

/-- Objects have been added, and those there were have kept the names in their headers. -/
structure Ages (s s' : LinkedStore) : Prop where
  next : s.next ≤ s'.next
  named : ∀ o < s.next, (s'.objects o).header.nameView = (s.objects o).header.nameView

section Aging

variable {s s' s'' : LinkedStore} {o : Nat} {object : SegmentMemory} {name : Name}

theorem Ages.refl (s : LinkedStore) : Ages s s := ⟨le_rfl, fun _ _ => rfl⟩

theorem Ages.trans (h : Ages s s') (h' : Ages s' s'') : Ages s s'' := by
  refine ⟨h.next.trans h'.next, fun o ho => ?_⟩
  rw [h'.named o (ho.trans_le h.next), h.named o ho]

theorem ages_setObject (h : object.header.nameView = (s.objects o).header.nameView) :
    Ages s (s.setObject o object) := by
  refine ⟨le_rfl, fun o' _ => ?_⟩
  show (Function.update s.objects o object o').header.nameView = _
  by_cases ho : o' = o
  · rw [ho, Function.update_self, h]
  · rw [Function.update_of_ne ho]

theorem ages_setRegistry (s : LinkedStore) (registry : RegistryPayload) :
    Ages s (s.setRegistry registry) := ⟨le_rfl, fun _ _ => rfl⟩

theorem ages_unlink (s : LinkedStore) (name : Name) : Ages s (s.unlink name) :=
  ⟨le_rfl, fun _ _ => rfl⟩

theorem ages_perform (s : LinkedStore) (a : GcAction) : Ages s (s.perform a) := by
  cases a with
  | setState name state =>
    rw [perform]
    cases s.names name with
    | none => exact .refl s
    | some o => exact ages_setObject rfl
  | unlink name => exact ages_unlink s name
  | unregister name => exact ages_setRegistry s _
  | refresh entry => exact ages_setRegistry s _

theorem ages_gc (s : LinkedStore) (env : GcEnv) : Ages s (s.gc env) := by
  rw [gc]
  refine List.foldlRecOn (motive := Ages s) _ _ (.refl s) ?_
  intro s' hs a _
  exact hs.trans (ages_perform s' a)

theorem ages_attach (s : LinkedStore) (env : AttachEnv) (name : Name) (mode : AttachMode) :
    Ages s (s.attach env name mode).2 := by
  unfold attach
  cases parseAndValidateName name with
  | error => exact .refl s
  | ok =>
    have hswept : Ages s (if name = registryName then s else s.gc env.gc) := by
      split_ifs
      · exact .refl s
      · exact ages_gc s env.gc
    dsimp only
    generalize (if name = registryName then s else s.gc env.gc) = swept at hswept ⊢
    cases attachChecks env name swept.view with
    | error => cases swept.names name <;> exact hswept
    | ok =>
      cases swept.names name with
      | none => exact hswept
      | some o =>
        cases mode with
        | readOnly => exact hswept
        | readWrite => exact hswept.trans (ages_setObject rfl)

theorem ages_release (s : LinkedStore) (o : Nat) (owner : Bool) : Ages s (s.release o owner) := by
  have hdropped : Ages s (s.setRefs o ((s.objects o).header.refCount - 1)) := ages_setObject rfl
  unfold release
  dsimp only
  generalize s.setRefs o ((s.objects o).header.refCount - 1) = dropped at hdropped ⊢
  split_ifs
  · have hdead : Ages dropped (dropped.setObject o ((dropped.objects o).setState .dead)) :=
      ages_setObject rfl
    exact ((hdropped.trans hdead).trans (ages_unlink _ _)).trans (ages_setRegistry _ _)
  · exact hdropped

theorem ages_destroy (s : LinkedStore) (name : Name) : Ages s (s.destroy name).2 := by
  unfold destroy
  cases parseAndValidateName name with
  | error => exact .refl s
  | ok =>
    dsimp only
    split_ifs
    · exact .refl s
    · exact ages_unlink s name
    · exact (ages_unlink s name).trans (ages_setRegistry _ _)

theorem ages_create (s : LinkedStore) (options : CreateOptions) (env : CreateEnv) :
    Ages s (s.create options env).2 := by
  cases hcreate : s.create options env with
  | mk r store =>
    cases r with
    | error e =>
      obtain rfl := create_failed hcreate
      exact .refl _
    | ok o =>
      obtain ⟨-, -, -, header, registry, -, rfl⟩ := create_linked hcreate
      refine ⟨Nat.le_succ _, fun o' ho' => ?_⟩
      show (Function.update s.objects s.next _ o').header.nameView = _
      rw [Function.update_of_ne (Nat.ne_of_lt ho')]

end Aging

end LinkedStore

theorem StoreStep.ages {s s' : LinkedStore} (h : StoreStep s s') : s.Ages s' := by
  cases h with
  | create options env => exact LinkedStore.ages_create s options env
  | destroy name => exact LinkedStore.ages_destroy s name
  | attach env name mode => exact LinkedStore.ages_attach s env name mode
  | release o owner => exact LinkedStore.ages_release s o owner
  | gc env => exact LinkedStore.ages_gc s env

/-- The object has been made, and its header has the name. -/
structure LinkedStore.Named (s : LinkedStore) (o : Nat) (name : Name) : Prop where
  made : o < s.next
  name : (s.objects o).header.nameView = name

theorem LinkedStore.Named.ages {s s' : LinkedStore} {o : Nat} {name : Name} (h : s.Named o name)
    (hs : s.Ages s') : s'.Named o name :=
  ⟨h.made.trans_le hs.next, (hs.named o h.made).trans h.name⟩

namespace Center

/-- The shared objects have aged, and every ring that is new has been found under its name. -/
structure Grows (c c' : Center) : Prop where
  ages : c.store.Ages c'.store
  rings : ∀ a ∈ c'.rings, a ∈ c.rings ∨ c'.store.Named a.ring a.name

section Growing

variable {c c' c'' : Center}

theorem Grows.trans (h : Grows c c') (h' : Grows c' c'') : Grows c c'' := by
  refine ⟨h.ages.trans h'.ages, fun a ha => ?_⟩
  rcases h'.rings a ha with ha | hnamed
  · exact (h.rings a ha).imp_right fun hnamed => hnamed.ages h'.ages
  · exact .inr hnamed

theorem grows_setStore {store : LinkedStore} (h : c.store.Ages store) :
    Grows c (c.setStore store) := ⟨h, fun _ ha => .inl ha⟩

theorem grows_attachRing (env : DiscoverEnv) (c : Center) (name : Name) :
    Grows c (c.attachRing env name).2 := by
  have hages := LinkedStore.ages_attach c.store (env.attach name) name .readWrite
  have hlinked (o : Nat) (ho : (c.store.attach (env.attach name) name .readWrite).1 = .ok o) :
      (c.store.attach (env.attach name) name .readWrite).2.names name = some o :=
    LinkedStore.attach_linked ho
  have hnamed (o : Nat) (store : LinkedStore)
      (ho : c.store.attach (env.attach name) name .readWrite = (.ok o, store)) :
      (store.objects o).header.nameView = name := LinkedStore.attach_named ho
  unfold attachRing
  split_ifs
  · exact grows_setStore (.refl _)
  · generalize c.store.attach (env.attach name) name .readWrite = result at hages hlinked hnamed ⊢
    obtain ⟨e | o, store⟩ := result
    · exact grows_setStore hages
    · have hreleased : c.store.Ages (store.release o false) :=
        hages.trans (LinkedStore.ages_release store o false)
      dsimp only
      split_ifs
      · exact grows_setStore hreleased
      · cases bindRing (store.objects o).header.payload (env.ringMeta o) with
        | error => exact grows_setStore hreleased
        | ok =>
          refine ⟨hages, fun a ha => ?_⟩
          rcases List.mem_append.mp ha with ha | ha
          · exact .inl ha
          · obtain rfl := List.mem_singleton.mp ha
            exact .inr ⟨store.made (hlinked o rfl), hnamed o store rfl⟩

theorem grows_discoverLoop (env : DiscoverEnv) (entries : List RegistryEntry) (c : Center) :
    Grows c (discoverLoop env entries c).2 := by
  induction entries generalizing c with
  | nil => exact grows_setStore (.refl _)
  | cons entry entries ih =>
    rw [discoverLoop]
    split_ifs
    · exact ih c
    · have hfirst := grows_attachRing env c (entryName entry)
      generalize c.attachRing env (entryName entry) = result at hfirst ⊢
      obtain ⟨e | u, c'⟩ := result
      · exact hfirst
      · exact hfirst.trans (ih c')

theorem grows_discoverOnce (env : DiscoverEnv) (start : Name) (c : Center) :
    Grows c (c.discoverOnce env start).2 := by
  have hswept : Grows c (c.swept env) := grows_setStore (LinkedStore.ages_gc c.store env.gc)
  exact hswept.trans (grows_discoverLoop env _ _)

theorem grows_drainOnce (c : Center) : Grows c c.drainOnce := by
  refine ⟨?_, fun a ha => .inl (List.mem_of_mem_filter ha)⟩
  refine List.foldlRecOn (motive := c.store.Ages) _ _ (.refl c.store) ?_
  intro s hs a _
  exact hs.trans (LinkedStore.ages_release s a.ring false)

end Growing

end Center

theorem ages_initCreated {options : LoggerOptions} {name : Name} {o : Nat} {store : LinkedStore}
    {c : LogHost} (h : c.store.Ages store) :
    c.store.Ages (Logger.initCreated options name o store c).2.store := by
  unfold Logger.initCreated
  cases initializeRing (store.objects o).header.payload options.recordMax options.maxPayload with
  | error => exact h.trans ((LinkedStore.ages_destroy _ _).trans (LinkedStore.ages_release _ _ _))
  | ok => exact h

theorem ages_initAttached (env : InitEnv) (name : Name) (c : LogHost) :
    c.store.Ages (Logger.initAttached env name c).2.store := by
  have hattached := LinkedStore.ages_attach c.store env.attach name .readWrite
  unfold Logger.initAttached
  generalize c.store.attach env.attach name .readWrite = result at hattached ⊢
  obtain ⟨e | o, store⟩ := result
  · exact hattached
  · dsimp only
    cases bindLoggerRing (store.objects o).header (c.contents o).ringMeta with
    | error => exact hattached.trans (LinkedStore.ages_release store o false)
    | ok => exact hattached

theorem ages_init (options : LoggerOptions) (env : InitEnv) (c : LogHost) :
    c.store.Ages (Logger.init options env c).2.store := by
  rcases Logger.init_cases options env c with ⟨e, heq⟩ | ⟨o, store, hcreate, heq⟩ | heq
  · rw [heq]
    exact .refl _
  · have hcreated := LinkedStore.ages_create c.store
      (makeCreateOptions options (Logger.segmentName options env)) env.create
    rw [hcreate] at hcreated
    rw [heq]
    exact ages_initCreated hcreated
  · rw [heq]
    exact ages_initAttached env _ c

section Snoc

variable {log : List ServiceEvent} {e : ServiceEvent} {o : Nat}

theorem acceptedInto_snoc :
    acceptedInto o (log ++ [e]) = acceptedInto o log ++ (e.accepted o).toList := by
  cases he : e.accepted o <;> simp [acceptedInto, he]

theorem refusedInto_snoc :
    refusedInto o (log ++ [e]) = refusedInto o log + if e.refused o then 1 else 0 := by
  simp [refusedInto, List.countP_append, List.countP_cons]

theorem sunkFrom_snoc : sunkFrom o (log ++ [e]) = sunkFrom o log ++ e.sunk o := by
  simp [sunkFrom]

/-- The event is none of the ring's business. -/
structure ServiceEvent.Quiet (e : ServiceEvent) (o : Nat) : Prop where
  accepted : e.accepted o = none
  refused : e.refused o = false
  sunk : e.sunk o = []

theorem ServiceEvent.Quiet.acceptedInto (h : e.Quiet o) :
    acceptedInto o (log ++ [e]) = Shmfx.acceptedInto o log := by
  rw [acceptedInto_snoc, h.accepted, Option.toList_none, List.append_nil]

theorem ServiceEvent.Quiet.refusedInto (h : e.Quiet o) :
    refusedInto o (log ++ [e]) = Shmfx.refusedInto o log := by
  simp [refusedInto_snoc, h.refused]

theorem ServiceEvent.Quiet.sunkFrom (h : e.Quiet o) :
    sunkFrom o (log ++ [e]) = Shmfx.sunkFrom o log := by
  rw [sunkFrom_snoc, h.sunk, List.append_nil]

theorem length_acceptedInto_le (o : Nat) (log : List ServiceEvent) :
    (acceptedInto o log).length ≤ log.length := List.length_filterMap_le ..

end Snoc

/-- The ring a logger made holds what was accepted and not yet sunk. -/
structure Outstanding (options : CenterOptions) (o : LoggerOptions) (l : Logger)
    (log : List ServiceEvent) (r : Ring) : Prop where
  ring : Represents r o.recordMax.toNat (o.stride - recordHeaderBytes)
    (sunkFrom l.ring log).length (acceptedInto l.ring log).length
    ⟨((acceptedInto l.ring log).drop (sunkFrom l.ring log).length).map
      (Push.stored · (o.stride - recordHeaderBytes)), u64 (refusedInto l.ring log)⟩
  first : sunkFrom l.ring log = ((acceptedInto l.ring log).take (sunkFrom l.ring log).length).map
    (received options l.name (o.stride - recordHeaderBytes))

section Outstanding

variable {options : CenterOptions} {lo : LoggerOptions} {l : Logger} {log : List ServiceEvent}
  {r : Ring} {e : ServiceEvent} {a : Push}

theorem Outstanding.length_le (h : Outstanding options lo l log r) :
    (sunkFrom l.ring log).length ≤ (acceptedInto l.ring log).length := by
  have := h.ring.length
  omega

theorem Outstanding.quiet (h : Outstanding options lo l log r) (he : e.Quiet l.ring) :
    Outstanding options lo l (log ++ [e]) r := by
  constructor
  · rw [he.acceptedInto, he.refusedInto, he.sunkFrom]
    exact h.ring
  · rw [he.acceptedInto, he.sunkFrom]
    exact h.first

/-- A push into the ring, by whoever has it. -/
theorem Outstanding.push (h : Outstanding options lo l log r) (hslots : 2 ≤ lo.recordMax.toNat)
    (hroom : log.length < 2 ^ 64) {l' : Logger} (hring : l'.ring = l.ring) (a : Push) :
    Outstanding options lo l (log ++ [.log l' a (tryPush r a).1]) (tryPush r a).2 := by
  have hle := h.length_le
  have hmax := lo.recordMax.toNat_lt
  have hlen := h.ring.length
  have hbound := h.ring.bound
  have hfits : Fits lo.recordMax.toNat (acceptedInto l.ring log).length :=
    .inl ((length_acceptedInto_le l.ring log).trans_lt hroom)
  by_cases hfull : (acceptedInto l.ring log).length =
      (sunkFrom l.ring log).length + lo.recordMax.toNat
  · have hpush := h.ring.push_full (a := a) hfits hslots hmax hfull
    have hcount : u64 (u64 (refusedInto l.ring log) + 1) = u64 (refusedInto l.ring log + 1) := by
      simp only [u64]
      omega
    have haccepted : (ServiceEvent.log l' a (.error .ringFull)).accepted l.ring = none := rfl
    have hrefused : (ServiceEvent.log l' a (.error .ringFull)).refused l.ring = true := by
      simp [ServiceEvent.refused, hring]
    have hsunk : (ServiceEvent.log l' a (.error .ringFull)).sunk l.ring = [] := rfl
    rw [hpush]
    constructor
    · rw [acceptedInto_snoc, refusedInto_snoc, sunkFrom_snoc, haccepted, hrefused, hsunk,
        if_pos rfl, ← hcount, Option.toList_none, List.append_nil, List.append_nil]
      exact h.ring.addLost
    · rw [acceptedInto_snoc, sunkFrom_snoc, haccepted, hsunk, Option.toList_none, List.append_nil,
        List.append_nil]
      exact h.first
  · obtain ⟨hok, hring'⟩ := h.ring.push (a := a) hfits (by omega)
    have haccepted : (ServiceEvent.log l' a (.ok ())).accepted l.ring = some a := by
      simp [ServiceEvent.accepted, hring]
    have hrefused : (ServiceEvent.log l' a (.ok ())).refused l.ring = false := rfl
    have hsunk : (ServiceEvent.log l' a (.ok ())).sunk l.ring = [] := rfl
    rw [hok]
    constructor
    · rw [acceptedInto_snoc, refusedInto_snoc, sunkFrom_snoc, haccepted, hrefused, hsunk,
        Option.toList_some, List.append_nil, List.length_append, List.drop_append_of_le_length hle,
        List.map_append]
      exact hring'
    · rw [acceptedInto_snoc, sunkFrom_snoc, haccepted, hsunk, Option.toList_some, List.append_nil,
        List.take_append_of_le_length hle]
      exact h.first

/-- Records drained from the ring. -/
theorem Outstanding.drain (h : Outstanding options lo l log r) {records : List (Nat × LogRecord)}
    {r' : Ring} {k : Nat} (hk : k ≤ (acceptedInto l.ring log).length - (sunkFrom l.ring log).length)
    (hsunk : (ServiceEvent.drain records).sunk l.ring =
      (((acceptedInto l.ring log).drop (sunkFrom l.ring log).length).take k).map
        (received options l.name (lo.stride - recordHeaderBytes)))
    (hr : Represents r' lo.recordMax.toNat (lo.stride - recordHeaderBytes)
      ((sunkFrom l.ring log).length + k) (acceptedInto l.ring log).length
      ⟨((acceptedInto l.ring log).drop ((sunkFrom l.ring log).length + k)).map
        (Push.stored · (lo.stride - recordHeaderBytes)), u64 (refusedInto l.ring log)⟩) :
    Outstanding options lo l (log ++ [.drain records]) r' := by
  have hle := h.length_le
  have haccepted : (ServiceEvent.drain records).accepted l.ring = none := rfl
  have hrefused : (ServiceEvent.drain records).refused l.ring = false := rfl
  have hlength : (sunkFrom l.ring log ++ (ServiceEvent.drain records).sunk l.ring).length =
      (sunkFrom l.ring log).length + k := by
    rw [hsunk]
    simp only [List.length_append, List.length_map, List.length_take, List.length_drop]
    omega
  constructor
  · rw [acceptedInto_snoc, refusedInto_snoc, sunkFrom_snoc, haccepted, hrefused, hlength,
      Option.toList_none, List.append_nil]
    exact hr
  · rw [acceptedInto_snoc, sunkFrom_snoc, haccepted, hlength, Option.toList_none, List.append_nil,
      hsunk, List.take_add, List.map_append, ← h.first]

end Outstanding

/-- Loggers and the `LogCenter` know objects by the names in their headers, nothing was logged or
drained before an object was made, and the rings loggers made hold what they should. -/
structure ServiceInv (options : CenterOptions) (log : List ServiceEvent) (c : Service) : Prop where
  loggers : ∀ l ∈ c.loggers, c.center.store.Named l.ring l.name
  attached : ∀ a ∈ c.center.rings, c.center.store.Named a.ring a.name
  callers : ∀ l a result, .log l a result ∈ log → c.center.store.Named l.ring l.name
  unmade : ∀ o, c.center.store.next ≤ o →
    acceptedInto o log = [] ∧ refusedInto o log = 0 ∧ sunkFrom o log = []
  made : ∀ lo l, .init lo (.ok l) ∈ log → l.owner = true →
    c.center.store.Named l.ring l.name ∧ Outstanding options lo l log (c.contents l.ring)

section Inv

variable {options : CenterOptions} {start : Name} {log : List ServiceEvent} {c c' : Service}
  {e : ServiceEvent}

theorem serviceInv_start (store : LinkedStore) (contents : Nat → Ring) :
    ServiceInv options [] (.start store contents) where
  loggers := fun _ h => absurd h List.not_mem_nil
  attached := fun _ h => absurd h List.not_mem_nil
  callers := fun _ _ _ h => absurd h List.not_mem_nil
  unmade := fun _ _ => ⟨rfl, rfl, rfl⟩
  made := fun _ _ h => absurd h List.not_mem_nil

/-- Calls that touch no ring. -/
theorem ServiceInv.grows (h : ServiceInv options log c) {center : Center}
    (hgrows : c.center.Grows center) {loggers : List Logger}
    (hloggers : ∀ l ∈ loggers, l ∈ c.loggers) (hquiet : ∀ o, e.Quiet o)
    (hlog : ∀ l a result, e ≠ .log l a result) (hinit : ∀ lo l, e ≠ .init lo (.ok l)) :
    ServiceInv options (log ++ [e]) ⟨center, c.contents, loggers⟩ where
  loggers := fun l hl => (h.loggers l (hloggers l hl)).ages hgrows.ages
  attached := by
    intro a ha
    rcases hgrows.rings a ha with ha | hnamed
    · exact (h.attached a ha).ages hgrows.ages
    · exact hnamed
  callers := by
    intro l a result hmem
    rcases List.mem_append.mp hmem with hmem | hmem
    · exact (h.callers l a result hmem).ages hgrows.ages
    · exact absurd (List.mem_singleton.mp hmem).symm (hlog l a result)
  unmade := by
    intro o ho
    rw [(hquiet o).acceptedInto, (hquiet o).refusedInto, (hquiet o).sunkFrom]
    exact h.unmade o (hgrows.ages.next.trans ho)
  made := by
    intro lo l hmem howner
    rcases List.mem_append.mp hmem with hmem | hmem
    · obtain ⟨hnamed, hrest⟩ := h.made lo l hmem howner
      exact ⟨hnamed.ages hgrows.ages, hrest.quiet (hquiet l.ring)⟩
    · exact absurd (List.mem_singleton.mp hmem).symm (hinit lo l)

/-- The ring a logger has just made is empty, and none before it was of that object. -/
theorem Outstanding.fresh {lo : LoggerOptions} {env : InitEnv} {l : Logger} {host : LogHost}
    (h : ServiceInv options log c) (hinit : Initialised lo env c.host l host)
    (howner : l.owner = true) (hslots : 2 ≤ lo.recordMax.toNat) :
    Outstanding options lo l log (host.contents l.ring) := by
  obtain ⟨hring, -, hcontents⟩ := hinit.made howner
  have hfresh : host.contents l.ring = freshRing lo.recordMax.toNat lo.stride := by
    rw [hcontents, Function.update_self]
  obtain ⟨haccepted, hrefused, hsunk⟩ := h.unmade l.ring hring.ge
  have hstride : recordHeaderBytes ≤ lo.stride := by
    have hbound := hinit.bound
    rw [bindLoggerRing] at hbound
    split_ifs at hbound
    rw [hfresh] at hbound
    exact (validMeta_sizes (bindRing_ok hbound).1).2
  have hempty := represents_freshRing (by omega) lo.recordMax.toNat_lt hstride
  constructor
  · rw [hfresh, haccepted, hrefused, hsunk]
    exact hempty
  · rw [haccepted, hsunk]
    rfl

theorem ServiceInv.init (h : ServiceInv options log c) {lo : LoggerOptions} {env : InitEnv}
    {l : Logger} {host : LogHost} (hcall : Logger.init lo env c.host = (.ok l, host))
    (hslots : l.owner = true → 2 ≤ lo.recordMax.toNat) :
    ServiceInv options (log ++ [.init lo (.ok l)])
      { c.setHost host with loggers := l :: c.loggers } := by
  have hinit := Logger.init_ok hcall
  have hages : c.center.store.Ages host.store := by
    have hages := ages_init lo env c.host
    rw [hcall] at hages
    exact hages
  have hnamed : host.store.Named l.ring l.name := ⟨host.store.made hinit.linked, hinit.named⟩
  have hquiet (o : Nat) : (ServiceEvent.init lo (.ok l)).Quiet o := ⟨rfl, rfl, rfl⟩
  have hkept (o : Nat) (ho : o < c.center.store.next) : host.contents o = c.contents o := by
    cases howner : l.owner with
    | true =>
      obtain ⟨hring, -, hcontents⟩ := hinit.made howner
      rw [hcontents, Function.update_of_ne]
      · rfl
      · rw [hring]
        exact Nat.ne_of_lt ho
    | false => rw [hinit.found howner]; rfl
  constructor
  · intro l' hl'
    rcases List.mem_cons.mp hl' with rfl | hl'
    · exact hnamed
    · exact (h.loggers l' hl').ages hages
  · intro a ha
    exact (h.attached a ha).ages hages
  · intro l' a result hmem
    rcases List.mem_append.mp hmem with hmem | hmem
    · exact (h.callers l' a result hmem).ages hages
    · cases List.mem_singleton.mp hmem
  · intro o ho
    rw [(hquiet o).acceptedInto, (hquiet o).refusedInto, (hquiet o).sunkFrom]
    exact h.unmade o (hages.next.trans ho)
  · intro lo' l' hmem howner
    rcases List.mem_append.mp hmem with hmem | hmem
    · obtain ⟨hnamed', hrest⟩ := h.made lo' l' hmem howner
      refine ⟨hnamed'.ages hages, ?_⟩
      show Outstanding options lo' l' _ (host.contents l'.ring)
      rw [hkept l'.ring hnamed'.made]
      exact hrest.quiet (hquiet l'.ring)
    · cases List.mem_singleton.mp hmem
      exact ⟨hnamed, (Outstanding.fresh h hinit howner (hslots howner)).quiet (hquiet l.ring)⟩

theorem quiet_log {l : Logger} {a : Push} {result : Except ErrorCode Unit} {o : Nat}
    (ho : l.ring ≠ o) : (ServiceEvent.log l a result).Quiet o := by
  cases result with
  | ok => exact ⟨if_neg ho, rfl, rfl⟩
  | error => exact ⟨rfl, decide_eq_false ho, rfl⟩

theorem ServiceInv.push (h : ServiceInv options log c) {l : Logger} (hl : l ∈ c.loggers) (a : Push)
    (hslots : ∀ lo l, .init lo (.ok l) ∈ log → l.owner = true → 2 ≤ lo.recordMax.toNat)
    (hroom : log.length < 2 ^ 64) :
    ServiceInv options (log ++ [.log l a (tryPush (c.contents l.ring) a).1])
      (c.setRing l.ring (tryPush (c.contents l.ring) a).2) where
  loggers := h.loggers
  attached := h.attached
  callers := by
    intro l' a' result hmem
    rcases List.mem_append.mp hmem with hmem | hmem
    · exact h.callers l' a' result hmem
    · cases List.mem_singleton.mp hmem
      exact h.loggers l hl
  unmade := by
    intro o ho
    have hquiet : (ServiceEvent.log l a (tryPush (c.contents l.ring) a).1).Quiet o :=
      quiet_log (Nat.ne_of_lt ((h.loggers l hl).made.trans_le ho))
    rw [hquiet.acceptedInto, hquiet.refusedInto, hquiet.sunkFrom]
    exact h.unmade o ho
  made := by
    intro lo l' hmem howner
    rcases List.mem_append.mp hmem with hmem | hmem
    · obtain ⟨hnamed, hrest⟩ := h.made lo l' hmem howner
      refine ⟨hnamed, ?_⟩
      show Outstanding options lo l' _ (Function.update c.contents l.ring _ l'.ring)
      by_cases hring : l.ring = l'.ring
      · rw [hring, Function.update_self]
        exact hrest.push (hslots lo l' hmem howner) hroom hring a
      · rw [Function.update_of_ne (Ne.symm hring)]
        exact hrest.quiet (quiet_log hring)
    · cases List.mem_singleton.mp hmem

theorem ServiceInv.drain (h : ServiceInv options log c) (hroom : log.length < 2 ^ 64) :
    ServiceInv options (log ++ [.drain (drainRings options c.center.rings c.contents).1])
      { c with
        center := c.center.drainOnce
        contents := (drainRings options c.center.rings c.contents).2 } := by
  have hgrows := c.center.grows_drainOnce
  constructor
  · intro l hl
    exact (h.loggers l hl).ages hgrows.ages
  · intro a ha
    exact (h.attached a (List.mem_of_mem_filter ha)).ages hgrows.ages
  · intro l a result hmem
    rcases List.mem_append.mp hmem with hmem | hmem
    · exact (h.callers l a result hmem).ages hgrows.ages
    · cases List.mem_singleton.mp hmem
  · intro o ho
    have hnone : recordsOf o (drainRings options c.center.rings c.contents).1 = [] := by
      refine List.map_eq_nil_iff.mpr (List.filter_eq_nil_iff.mpr ?_)
      intro x hx hxo
      obtain ⟨a, ha, hring⟩ := drainRings_source _ _ x hx
      have hmade := (h.attached a ha).made.trans_le (hgrows.ages.next.trans ho)
      rw [hring, of_decide_eq_true hxo] at hmade
      exact Nat.lt_irrefl _ hmade
    have hquiet : (ServiceEvent.drain (drainRings options c.center.rings c.contents).1).Quiet o :=
      ⟨rfl, rfl, hnone⟩
    rw [hquiet.acceptedInto, hquiet.refusedInto, hquiet.sunkFrom]
    exact h.unmade o (hgrows.ages.next.trans ho)
  · intro lo l hmem howner
    rcases List.mem_append.mp hmem with hmem | hmem
    · obtain ⟨hnamed, hrest⟩ := h.made lo l hmem howner
      refine ⟨hnamed.ages hgrows.ages, ?_⟩
      have hattached : ∀ a ∈ c.center.rings, a.ring = l.ring → a.name = l.name := by
        rintro a ha hring
        rw [← (h.attached a ha).name, hring, hnamed.name]
      obtain ⟨k, hk, hrecords, hring, -⟩ := drainRings_represents options c.center.rings c.contents
        hattached hrest.ring ((length_acceptedInto_le l.ring log).trans_lt hroom)
      dsimp only at hk hrecords hring
      rw [List.length_map, List.length_drop] at hk
      rw [← List.map_take, List.map_map] at hrecords
      rw [← List.map_drop, List.drop_drop] at hring
      exact hrest.drain hk hrecords hring
    · cases List.mem_singleton.mp hmem

/-- Loggers ask for two slots or more. -/
def TwoSlots (log : List ServiceEvent) : Prop :=
  ∀ lo l, .init lo (.ok l) ∈ log → l.owner = true → 2 ≤ lo.recordMax.toNat

theorem TwoSlots.left {as bs : List ServiceEvent} (h : TwoSlots (as ++ bs)) : TwoSlots as :=
  fun lo l hmem => h lo l (List.mem_append_left _ hmem)

theorem serviceInv_step (h : ServiceInv options log c) (hs : ServiceStep options start c e c')
    (hslots : TwoSlots (log ++ [e])) (hroom : (log ++ [e]).length < 2 ^ 64) :
    ServiceInv options (log ++ [e]) c' := by
  have hroom' : log.length < 2 ^ 64 := by
    rw [List.length_append] at hroom
    omega
  have hother (o : Nat) : ServiceEvent.other.Quiet o := ⟨rfl, rfl, rfl⟩
  cases hs with
  | init hcall =>
    exact h.init hcall (hslots _ _ (List.mem_append_right _ List.mem_cons_self))
  | @initFailed lo env err host hcall =>
    have hages := ages_init lo env c.host
    rw [hcall] at hages
    have hfailed := h.grows (e := .init lo (.error err)) (Center.grows_setStore hages)
      (fun _ hl => hl) (fun _ => ⟨rfl, rfl, rfl⟩) (by rintro _ _ _ ⟨⟩) (by rintro _ _ ⟨⟩)
    rw [Service.setHost, Logger.init_failed_contents hcall]
    exact hfailed
  | log hl hcall => exact h.push hl _ hslots.left hroom'
  | @drop l hl =>
    exact h.grows (Center.grows_setStore (LinkedStore.ages_release _ l.ring l.owner))
      (fun _ hl' => List.mem_of_mem_erase hl') hother (by rintro _ _ _ ⟨⟩) (by rintro _ _ ⟨⟩)
  | discover env hmeta =>
    exact h.grows (Center.grows_discoverOnce env start c.center) (fun _ hl => hl) hother
      (by rintro _ _ _ ⟨⟩) (by rintro _ _ ⟨⟩)
  | drain => exact h.drain hroom'
  | others hstore =>
    exact h.grows (Center.grows_setStore hstore.ages) (fun _ hl => hl) hother
      (by rintro _ _ _ ⟨⟩) (by rintro _ _ ⟨⟩)

theorem serviceInv_run {store : LinkedStore} {contents : Nat → Ring}
    (h : Run (ServiceStep options start) (.start store contents) log c) (hslots : TwoSlots log)
    (hroom : log.length < 2 ^ 64) : ServiceInv options log c := by
  refine h.invariant (I := fun log c => TwoSlots log → log.length < 2 ^ 64 →
    ServiceInv options log c) (fun _ _ => serviceInv_start store contents) ?_ hslots hroom
  intro log c e c' _ ih hstep hslots hroom
  refine serviceInv_step (ih hslots.left ?_) hstep hslots hroom
  rw [List.length_append] at hroom
  omega

/-- From any start, whatever else happens to segments, names and handles: what is accepted into a
ring that a logger made reaches the sink in order, once and under the logger's name, or is still
in the ring. -/
theorem service_delivers {store : LinkedStore} {contents : Nat → Ring}
    (h : Run (ServiceStep options start) (.start store contents) log c) (hslots : TwoSlots log)
    (hroom : log.length < 2 ^ 64) (lo : LoggerOptions) (l : Logger)
    (hmade : .init lo (.ok l) ∈ log) (howner : l.owner = true) :
    Delivered options lo l log c := by
  have hinv := serviceInv_run h hslots hroom
  obtain ⟨hnamed, hrest⟩ := hinv.made lo l hmade howner
  refine ⟨hrest.first, fun batch => ?_, hrest.ring.lost, ?_⟩
  · have hdrain := (drainLoop_represents l.name batch hrest.ring
      ((length_acceptedInto_le l.ring log).trans_lt hroom)
      (List.replicate options.scratchBytes.toNat 0)).1
    dsimp only at hdrain
    rw [hdrain, List.length_replicate, ← List.map_take, List.map_map, List.length_map]
    exact congrArg (List.map _) (List.take_eq_take_iff.mpr (by simp))
  · intro l' a result hmem hring
    rw [← (hinv.callers l' a result hmem).name, hring, hnamed.name]

end Inv

section Small

/-- The logger of `smallOptions`. -/
def smallLogger : Logger := ⟨defaultSegmentName (asciiBytes ['a']) 1, 0, true⟩

def smallCenter : CenterOptions := ⟨4, 16⟩

/-- The logger has its ring. -/
def smallReady : Service :=
  { (Service.start .initial fun _ => zeroRing).setHost
      (Logger.init smallOptions quietInitEnv emptyHost).2 with loggers := [smallLogger] }

def smallPush : Push := publish .warn 0 7 [65]

/-- It has logged one record. -/
def smallLogged : Service :=
  smallReady.setRing smallLogger.ring (tryPush (smallReady.contents smallLogger.ring) smallPush).2

def smallDiscover : DiscoverEnv :=
  ⟨Center.aliveGcEnv, fun _ => quietInitEnv.attach, fun o => (smallLogged.contents o).ringMeta⟩

/-- The `LogCenter` has found the ring. -/
def smallFound : Service :=
  { smallLogged with center := (smallLogged.center.discoverOnce smallDiscover Center.logStart).2 }

def smallDrained : Service :=
  { smallFound with
    center := smallFound.center.drainOnce
    contents := (drainRings smallCenter smallFound.center.rings smallFound.contents).2 }

/-- From `init` to the sink. -/
def smallLog : List ServiceEvent :=
  [.init smallOptions (.ok smallLogger), .log smallLogger smallPush (.ok ()), .other,
    .drain [(0, ⟨smallLogger.name, .warn, 0, 7, [65]⟩)]]

theorem smallFound_drained :
    (tryPush (smallReady.contents smallLogger.ring) smallPush).1 = .ok () ∧
    (drainRings smallCenter smallFound.center.rings smallFound.contents).1 =
      [(0, ⟨smallLogger.name, .warn, 0, 7, [65]⟩)] := by
  decide +kernel

theorem small_init : ServiceStep smallCenter Center.logStart (.start .initial fun _ => zeroRing)
    (.init smallOptions (.ok smallLogger)) smallReady := .init (Rollback.outcome_eq init_small)

theorem small_log : ServiceStep smallCenter Center.logStart smallReady
    (.log smallLogger smallPush (.ok ())) smallLogged := by
  have hcall : (LogCall.text .warn [65]).pushed 7 = .ok smallPush := rfl
  have hlog : ServiceStep smallCenter Center.logStart smallReady
      (.log smallLogger smallPush (tryPush (smallReady.contents smallLogger.ring) smallPush).1)
      smallLogged := .log List.mem_cons_self hcall
  rwa [smallFound_drained.1] at hlog

theorem small_discover :
    ServiceStep smallCenter Center.logStart smallLogged .other smallFound := by
  unfold smallFound
  exact .discover smallDiscover rfl

theorem small_drain : ServiceStep smallCenter Center.logStart smallFound
    (.drain [(0, ⟨smallLogger.name, .warn, 0, 7, [65]⟩)]) smallDrained := by
  have hdrain : ServiceStep smallCenter Center.logStart smallFound
      (.drain (drainRings smallCenter smallFound.center.rings smallFound.contents).1)
      smallDrained := .drain
  rwa [smallFound_drained.2] at hdrain

theorem smallLog_twoSlots : TwoSlots smallLog := by
  intro lo l hinit _
  simp only [smallLog, List.mem_cons, List.not_mem_nil, or_false, reduceCtorEq] at hinit
  cases hinit
  decide

/-- One record from `init` to the sink. -/
theorem service_delivers_one : ∃ log c,
    Run (ServiceStep smallCenter Center.logStart) (.start .initial fun _ => zeroRing) log c ∧
      TwoSlots log ∧ .init smallOptions (.ok smallLogger) ∈ log ∧
      sunkFrom 0 log = [⟨smallLogger.name, .warn, 0, 7, [65]⟩] ∧
      Delivered smallCenter smallOptions smallLogger log c := by
  have hrun : Run (ServiceStep smallCenter Center.logStart) (.start .initial fun _ => zeroRing)
      smallLog smallDrained :=
    (((Run.single small_init).snoc small_log).snoc small_discover).snoc small_drain
  refine ⟨_, _, hrun, smallLog_twoSlots, List.mem_cons_self, rfl, ?_⟩
  exact service_delivers hrun smallLog_twoSlots (by simp [smallLog]) smallOptions smallLogger
    List.mem_cons_self rfl

end Small

end Shmfx
