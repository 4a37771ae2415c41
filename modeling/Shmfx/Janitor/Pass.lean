import Shmfx.Janitor.Model

/-! `Registry::gc` as one call that nobody disturbs. -/
namespace Shmfx

/-- The object under a name. -/
structure SegmentMemory where
  size : UInt64
  header : ShmHeader

/-- The linked objects and the registry. -/
structure SegmentStore where
  names : Name → Option SegmentMemory
  registry : RegistryPayload

/-- What the system answers during a pass: `shm_open` may fail with another error than ENOENT,
whether the object exists or not, `mmap` and the lock of the control mutex may fail, and a scan of
all mappings finds the object or not. -/
structure GcEnv where
  processes : ProcessTable
  now : UInt64
  openFails : Name → Bool
  mapFails : Name → Bool
  locks : Name → Bool
  mapped : Name → Bool

namespace SegmentStore

def unlink (s : SegmentStore) (name : Name) : SegmentStore :=
  { s with names := Function.update s.names name none }

def unregister (s : SegmentStore) (name : Name) : SegmentStore :=
  { s with registry := (s.registry.unregister name).2 }

def setHeader (s : SegmentStore) (name : Name) (object : SegmentMemory) (header : ShmHeader) :
    SegmentStore :=
  { s with names := Function.update s.names name (some { object with header }) }

/-- The drain of an orphaned segment, with `update_registry_last_seen`. -/
def drainOrphan (s : SegmentStore) (entry : RegistryEntry) (object : SegmentMemory)
    (now : UInt64) : SegmentStore :=
  let drained :=
    s.setHeader (entryName entry) object
      { object.header with state := SegmentState.draining.code }
  { drained with
    registry := (drained.registry.registerSegment { entry with lastSeenNs := now }).2 }

end SegmentStore

/-- What `gc` does to a segment with a valid header; the store of DEAD before an unlink is not
seen under the name any more. -/
def gcObject (env : GcEnv) (s : SegmentStore) (entry : RegistryEntry) (object : SegmentMemory) :
    SegmentStore :=
  let name := entryName entry
  let dead := ownerIsDead env.processes object.header env.now
  match sweepBranch env.now entry 0 dead object.header.refCount object.header.state with
  | some (.locking _) => if env.locks name then (s.unlink name).unregister name else s
  | some (.draining _) => s.drainOrphan entry object env.now
  | some (.scanning _) => if env.mapped name then s else (s.unlink name).unregister name
  | _ => s

/-- One turn of the loop in `gc`. -/
def gcEntry (env : GcEnv) (s : SegmentStore) (entry : RegistryEntry) : SegmentStore :=
  let name := entryName entry
  if name = [] ∨ name = registryName then s
  else if env.openFails name then s
  else
    match s.names name with
    -- ENOENT, the one error of `shm_open` that costs the name its entry.
    | none => s.unregister name
    | some object =>
      if object.size < headerSize then s.unregister name
      else if env.mapFails name then s
      else if janitorHeaderValid object.header object.size = false then s.unregister name
      else gcObject env s entry object

def gcPass (env : GcEnv) (s : SegmentStore) : SegmentStore :=
  (s.registry.list []).foldl (gcEntry env) s

/-- The effects one turn may have. -/
inductive GcEffect (s : SegmentStore) (entry : RegistryEntry) (now : UInt64) :
    SegmentStore → Prop
  | kept : GcEffect s entry now s
  | dropped (hn : ∀ object, s.names (entryName entry) = some object →
      object.size < headerSize ∨ janitorHeaderValid object.header object.size = false) :
      GcEffect s entry now (s.unregister (entryName entry))
  | removed : GcEffect s entry now ((s.unlink (entryName entry)).unregister (entryName entry))
  | drained {object : SegmentMemory} (hn : s.names (entryName entry) = some object)
      (hname : entryName entry ≠ []) : GcEffect s entry now (s.drainOrphan entry object now)

section Proofs

variable {env : GcEnv} {s : SegmentStore} {entry : RegistryEntry} {m : EntryMap} {name : Name}

theorem names_setHeader (object : SegmentMemory) (header : ShmHeader) :
    (s.setHeader name object header).names name = some { object with header } :=
  Function.update_self ..

theorem gcObject_effect {object : SegmentMemory} (hn : s.names (entryName entry) = some object)
    (hname : entryName entry ≠ []) :
    GcEffect s entry env.now (gcObject env s entry object) := by
  unfold gcObject
  dsimp only
  split
  · split
    · exact .removed
    · exact .kept
  · exact .drained hn hname
  · split
    · exact .kept
    · exact .removed
  · exact .kept

theorem gcEntry_effect (env : GcEnv) (s : SegmentStore) (entry : RegistryEntry) :
    GcEffect s entry env.now (gcEntry env s entry) := by
  unfold gcEntry
  dsimp only
  by_cases hskip : entryName entry = [] ∨ entryName entry = registryName
  · rw [if_pos hskip]
    exact .kept
  rw [if_neg hskip]
  by_cases hopen : env.openFails (entryName entry) = true
  · rw [if_pos hopen]
    exact .kept
  rw [if_neg hopen]
  cases hn : s.names (entryName entry) with
  | none => exact .dropped fun object ho => nomatch hn.symm.trans ho
  | some object =>
    have hobject {P : SegmentMemory → Prop} (h : P object) (object' : SegmentMemory)
        (ho : s.names (entryName entry) = some object') : P object' :=
      Option.some.inj (hn.symm.trans ho) ▸ h
    dsimp only
    split_ifs with hshort hmap hvalid
    · exact .dropped (hobject (.inl hshort))
    · exact .kept
    · exact .dropped (hobject (.inr hvalid))
    · exact gcObject_effect hn (not_or.mp hskip).1

theorem RegistryInv.unregisterIn (h : RegistryInv s.registry m) (name : Name) :
    RegistryInv (s.unregister name).registry (Function.update m name none) := by
  simpa only [SegmentStore.unregister] using h.unregistered name

theorem RegistryInv.drainOrphan (h : RegistryInv s.registry m) (hne : entryName entry ≠ [])
    (object : SegmentMemory) (now : UInt64) :
    ∃ m', RegistryInv (s.drainOrphan entry object now).registry m' ∧
      (m' = m ∨ m' = Function.update m (entryName entry)
        (some { entry with lastSeenNs := now }.content)) := by
  simp only [SegmentStore.drainOrphan, SegmentStore.setHeader]
  exact h.register_cases hne

/-- A turn leaves every other name alone, and the registry well formed. -/
theorem GcEffect.frame {s' : SegmentStore} {now : UInt64} (he : GcEffect s entry now s')
    (h : RegistryInv s.registry m) :
    ∃ m', RegistryInv s'.registry m' ∧
      ∀ other, other ≠ entryName entry → s'.names other = s.names other ∧ m' other = m other := by
  cases he with
  | kept => exact ⟨m, h, fun _ _ => ⟨rfl, rfl⟩⟩
  | dropped =>
    exact ⟨_, h.unregisterIn _, fun _ ho => ⟨rfl, Function.update_of_ne ho none m⟩⟩
  | removed =>
    have hunlinked : RegistryInv (s.unlink (entryName entry)).registry m := h
    refine ⟨_, hunlinked.unregisterIn _, fun _ ho => ⟨?_, Function.update_of_ne ho none m⟩⟩
    exact Function.update_of_ne ho (none : Option SegmentMemory) s.names
  | @drained object hn hne =>
    obtain ⟨m', hinv, hm⟩ := h.drainOrphan hne object now
    refine ⟨m', hinv, fun other ho => ⟨Function.update_of_ne ho _ s.names, ?_⟩⟩
    rcases hm with rfl | rfl
    · rfl
    · exact Function.update_of_ne ho _ m

/-- A name without an entry keeps its object through a pass, and gets no entry. -/
theorem gcPass_absent (env : GcEnv) (h : RegistryInv s.registry m) (hm : m name = none) :
    (gcPass env s).names name = s.names name ∧
      ∃ m', RegistryInv (gcPass env s).registry m' ∧ m' name = none := by
  have hother : ∀ entry ∈ s.registry.list [], name ≠ entryName entry := by
    rintro entry hentry rfl
    cases hm.symm.trans (h.listed.2.1 entry hentry)
  unfold gcPass
  generalize s.registry.list [] = entries at hother ⊢
  refine List.foldlRecOn (motive := fun s' => s'.names name = s.names name ∧
    ∃ m', RegistryInv s'.registry m' ∧ m' name = none) entries (gcEntry env) ⟨rfl, m, h, hm⟩ ?_
  rintro s' ⟨hnames, m', hinv, hnone⟩ entry hentry
  obtain ⟨m'', hinv', hframe⟩ := (gcEntry_effect env s' entry).frame hinv
  obtain ⟨hkept, hentry'⟩ := hframe name (hother entry hentry)
  exact ⟨hkept.trans hnames, m'', hinv', hentry'.trans hnone⟩

/-- A pass whose turns all change nothing changes nothing. -/
theorem gcPass_fixed (h : ∀ entry ∈ s.registry.list [], gcEntry env s entry = s) :
    gcPass env s = s := by
  unfold gcPass
  generalize s.registry.list [] = entries at h ⊢
  refine List.foldlRecOn (motive := fun s' => s' = s) entries (gcEntry env) rfl ?_
  rintro s' rfl entry hentry
  exact h entry hentry

/-- A pass that can open nothing leaves the segments and their entries alone. -/
theorem gcPass_unopened (hopen : ∀ name, env.openFails name = true) : gcPass env s = s := by
  refine gcPass_fixed fun entry _ => ?_
  simp only [gcEntry, hopen, if_true, ite_self]

/-- A pass leaves the only segment alone while its owner runs. -/
theorem gcPass_spares {object : SegmentMemory}
    (honly : ∀ entry ∈ s.registry.list [], entryName entry = name)
    (hn : s.names name = some object) (hsize : headerSize ≤ object.size)
    (hvalid : janitorHeaderValid object.header object.size = true)
    (halive : ownerIsDead env.processes object.header env.now = false)
    (hstate : object.header.state ≠ SegmentState.draining.code) : gcPass env s = s := by
  refine gcPass_fixed fun entry he => ?_
  have hbranch : sweepBranch env.now entry 0 false object.header.refCount object.header.state =
      none := by
    simp [sweepBranch, hstate]
  have hobject : gcObject env s entry object = s := by
    rw [gcObject, halive, hbranch]
  simp only [gcEntry, honly entry he, hn, UInt64.not_lt.mpr hsize, hvalid, hobject, if_false,
    Bool.true_eq_false, ite_self]

/-- A pass forgets every segment whose header it finds invalid, and leaves its object linked. -/
theorem gcPass_forgets (env : GcEnv) {object : SegmentMemory} (h : RegistryInv s.registry m)
    (hn : s.names name = some object)
    (hskip : ¬ (name = [] ∨ name = registryName)) (hopen : env.openFails name = false)
    (hmap : env.mapFails name = false) (hsize : headerSize ≤ object.size)
    (hbroken : janitorHeaderValid object.header object.size = false) :
    (gcPass env s).names name = some object ∧
      ∃ m', RegistryInv (gcPass env s).registry m' ∧ m' name = none := by
  have hgone (s' : SegmentStore) (hn' : s'.names name = some object) (entry : RegistryEntry)
      (hname : entryName entry = name) : gcEntry env s' entry = s'.unregister name := by
    simp only [gcEntry, hname, hskip, hn', hopen, hmap, hbroken, UInt64.not_lt.mpr hsize, if_false,
      if_true, Bool.false_eq_true]
  have hpass : ∀ (entries : List RegistryEntry) (s' : SegmentStore) (m' : EntryMap),
      RegistryInv s'.registry m' → s'.names name = some object →
      (m' name = none ∨ ∃ entry ∈ entries, entryName entry = name) →
      (entries.foldl (gcEntry env) s').names name = some object ∧
        ∃ m'', RegistryInv (entries.foldl (gcEntry env) s').registry m'' ∧ m'' name = none := by
    intro entries
    induction entries with
    | nil =>
      rintro s' m' hinv hn' (hnone | ⟨_, hmem, -⟩)
      · exact ⟨hn', m', hinv, hnone⟩
      · cases hmem
    | cons entry entries ih =>
      intro s' m' hinv hn' hdue
      rw [List.foldl_cons]
      by_cases hname : entryName entry = name
      · rw [hgone s' hn' entry hname]
        exact ih _ _ (hinv.unregisterIn name) hn' (.inl (Function.update_self ..))
      · obtain ⟨m'', hinv', hframe⟩ := (gcEntry_effect env s' entry).frame hinv
        obtain ⟨hkept, hentry⟩ := hframe name (Ne.symm hname)
        refine ih _ m'' hinv' (hkept.trans hn') ?_
        rcases hdue with hnone | ⟨due, hmem, hdue⟩
        · exact .inl (hentry.trans hnone)
        · rcases List.mem_cons.mp hmem with rfl | hmem
          · exact absurd hdue hname
          · exact .inr ⟨due, hmem, hdue⟩
  unfold gcPass
  refine hpass (s.registry.list []) s m h hn ?_
  cases hm : m name with
  | none => exact .inl rfl
  | some entry =>
    obtain ⟨old, hold, rfl⟩ := h.listed.2.2 name entry hm
    exact .inr ⟨old, hold, h.entryName_eq hm⟩

end Proofs

end Shmfx
