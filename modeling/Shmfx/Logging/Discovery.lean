import Shmfx.Janitor.Linked
import Shmfx.Logging.LogCenter
import Shmfx.Ring.Initialization

/-! `LogCenter::discover_once` as one call that nobody disturbs: which of the listed rings it
attaches. -/
namespace Shmfx

/-- `sizeof(RecordRingMeta)`: one cache line. -/
def recordRingMetaSize : Nat := 64

/-- A `LogCenter` between calls. -/
structure Center where
  store : LinkedStore
  rings : List (AttachedRing Nat)
  /-- At most one ring of a name is attached. -/
  distinct : (rings.map AttachedRing.name).Nodup

/-- What the system answers to the passes and the `attach` calls of one `discover_once`, and what
the metadata of the objects holds. -/
structure DiscoverEnv where
  gc : GcEnv
  attach : Name → AttachEnv
  ringMeta : Nat → RecordRingMeta

namespace Center

def names (c : Center) : List Name := c.rings.map AttachedRing.name

def setStore (c : Center) (store : LinkedStore) : Center := { c with store := store }

def attachRing (env : DiscoverEnv) (c : Center) (name : Name) : Except ErrorCode Unit × Center :=
  if hexists : name ∈ c.names then (.ok (), c)
  else
    match c.store.attach (env.attach name) name .readWrite with
    | (.error e, store) => (.error e, c.setStore store)
    | (.ok o, store) =>
      let header := (store.objects o).header
      -- on both errors the handle goes out of scope
      if header.segmentType ≠ SegmentType.recordRing.code ∨
          header.metadata.size < recordRingMetaSize then
        (.error .corruptedHeader, c.setStore (store.release o false))
      else
        match bindRing header.payload (env.ringMeta o) with
        | .error e => (.error e, c.setStore (store.release o false))
        | .ok _ =>
          (.ok (), {
            store := store
            rings := c.rings ++ [⟨name, o, false⟩]
            distinct := by
              rw [List.map_append, List.nodup_append_comm]
              exact List.nodup_cons.mpr ⟨hexists, c.distinct⟩ })

/-- The loop of `discover_once`, which returns at the first error. -/
def discoverLoop (env : DiscoverEnv) : List RegistryEntry → Center → Except ErrorCode Unit × Center
  | [], c => (.ok (), c)
  | entry :: entries, c =>
    if entry.segmentType ≠ SegmentType.recordRing.code then discoverLoop env entries c
    else
      match c.attachRing env (entryName entry) with
      | (.error e, c') => (.error e, c')
      | (.ok _, c') => discoverLoop env entries c'

def swept (env : DiscoverEnv) (c : Center) : Center := c.setStore (c.store.gc env.gc)

/-- The entries `discover_once` sees: those with the prefix that its pass has left. -/
def listed (env : DiscoverEnv) (start : Name) (c : Center) : List RegistryEntry :=
  (c.swept env).store.registry.list start

def discoverOnce (env : DiscoverEnv) (start : Name) (c : Center) : Except ErrorCode Unit × Center :=
  discoverLoop env (c.listed env start) (c.swept env)

/-- What `attach_ring` gives on each listed ring in a loop that goes on after errors. -/
def attempts (env : DiscoverEnv) :
    List RegistryEntry → Center → List (RegistryEntry × Except ErrorCode Unit)
  | [], _ => []
  | entry :: entries, c =>
    if entry.segmentType ≠ SegmentType.recordRing.code then attempts env entries c
    else
      (entry, (c.attachRing env (entryName entry)).1) ::
        attempts env entries (c.attachRing env (entryName entry)).2

/-- A ring that would be attached is listed after one that fails, and is not attached before. -/
def Hides (c : Center) (as : List (RegistryEntry × Except ErrorCode Unit)) : Prop :=
  ∃ before entry e after entry', as = before ++ (entry, .error e) :: after ∧
    (entry', .ok ()) ∈ after ∧ entryName entry' ∉ c.names ∧
    ∀ entry'', (entry'', .ok ()) ∈ before → entryName entry'' ≠ entryName entry'

section Proofs

variable {env : DiscoverEnv} {c : Center} {name : Name}

theorem names_setStore (c : Center) (store : LinkedStore) :
    (c.setStore store).names = c.names := rfl

theorem names_swept (env : DiscoverEnv) (c : Center) : (c.swept env).names = c.names := by
  rw [swept, names_setStore]

theorem store_setStore (c : Center) (store : LinkedStore) : (c.setStore store).store = store := rfl

theorem store_swept (env : DiscoverEnv) (c : Center) :
    (c.swept env).store = c.store.gc env.gc := by
  rw [swept, store_setStore]

/-- An attempt attaches its ring, or none. -/
theorem names_attachRing (env : DiscoverEnv) (c : Center) (name : Name) :
    ((c.attachRing env name).1 = .ok () ∧
      ∀ name', name' ∈ (c.attachRing env name).2.names ↔ name' ∈ c.names ∨ name' = name) ∨
    (∃ e, (c.attachRing env name).1 = .error e) ∧ (c.attachRing env name).2.names = c.names := by
  unfold attachRing
  split_ifs with hexists
  · refine .inl ⟨rfl, fun name' => ⟨.inl, ?_⟩⟩
    rintro (hmem | rfl)
    · exact hmem
    · exact hexists
  · generalize c.store.attach (env.attach name) name .readWrite = result
    obtain ⟨_ | o, store⟩ := result
    · exact .inr ⟨⟨_, rfl⟩, rfl⟩
    · dsimp only
      split_ifs
      · exact .inr ⟨⟨_, rfl⟩, rfl⟩
      · cases bindRing (store.objects o).header.payload (env.ringMeta o) with
        | error => exact .inr ⟨⟨_, rfl⟩, rfl⟩
        | ok => exact .inl ⟨rfl, fun name' => by simp [names]⟩

/-- The result of an attempt follows from what is under its name. -/
theorem attachRing_same {c' : Center} {m m' : EntryMap}
    (h : c.store.SameAt name m c'.store m') (hnames : name ∈ c'.names ↔ name ∈ c.names) :
    (c'.attachRing env name).1 = (c.attachRing env name).1 := by
  obtain ⟨hresult, hobjects⟩ := h.attach (env.attach name) .readWrite
  unfold attachRing
  by_cases hmem : name ∈ c.names
  · rw [dif_pos (hnames.mpr hmem), dif_pos hmem]
  · rw [dif_neg (mt hnames.mp hmem), dif_neg hmem]
    generalize c.store.attach (env.attach name) name .readWrite = result at hresult hobjects ⊢
    generalize c'.store.attach (env.attach name) name .readWrite = result' at hresult hobjects ⊢
    obtain ⟨r, store⟩ := result
    obtain ⟨r', store'⟩ := result'
    obtain rfl : r' = r := hresult
    cases r' with
    | error => rfl
    | ok o =>
      dsimp only
      rw [hobjects o rfl]
      split_ifs
      · rfl
      · cases bindRing (store.objects o).header.payload (env.ringMeta o) <;> rfl

/-- An attempt leaves the other names alone that a pass would leave alone. -/
theorem attachRing_other {other : Name} {m : EntryMap} (hgc : (env.attach other).gc = env.gc)
    (hs : c.store.Settled env.gc name m) (h : RegistryInv c.store.registry m)
    (hne : name ≠ other) :
    (∃ m₁, c.store.SameAt name m (c.attachRing env other).2.store m₁) ∧
      (name ∈ (c.attachRing env other).2.names ↔ name ∈ c.names) := by
  constructor
  · rw [← hgc] at hs
    obtain ⟨m₁, hsame⟩ := hs.attach .readWrite h hne
    have hlinked (o : Nat) (ho : (c.store.attach (env.attach other) other .readWrite).1 = .ok o) :
        (c.store.attach (env.attach other) other .readWrite).2.names other = some o :=
      LinkedStore.attach_linked ho
    unfold attachRing
    split_ifs
    · exact ⟨m, .refl h⟩
    · refine ⟨m₁, ?_⟩
      generalize c.store.attach (env.attach other) other .readWrite = result at hsame hlinked ⊢
      obtain ⟨_ | o, store⟩ := result
      · exact hsame
      · have hreleased : c.store.SameAt name m (store.release o false) m₁ := by
          rw [LinkedStore.release_attached]
          exact hsame.setObject (fun hname => hne (store.alone hname (hlinked o rfl))) _
        dsimp only
        split_ifs
        · exact hreleased
        · cases bindRing (store.objects o).header.payload (env.ringMeta o) with
          | error => exact hreleased
          | ok => exact hsame
  · rcases names_attachRing env c other with ⟨-, hnames⟩ | ⟨-, hnames⟩
    · rw [hnames, or_iff_left hne]
    · rw [hnames]

/-- The attempts of a loop over different names give what each of them gives alone. -/
theorem attempts_eq_alone (hgc : ∀ name, (env.attach name).gc = env.gc) {c₀ : Center}
    {m₀ : EntryMap} (hs : ∀ name, c₀.store.Settled env.gc name m₀) (entries : List RegistryEntry)
    (hn : (entries.map entryName).Nodup) (c : Center)
    (hsame : ∀ entry ∈ entries, (∃ m, c₀.store.SameAt (entryName entry) m₀ c.store m) ∧
      (entryName entry ∈ c.names ↔ entryName entry ∈ c₀.names)) :
    ∀ a ∈ attempts env entries c, a.2 = (c₀.attachRing env (entryName a.1)).1 := by
  induction entries generalizing c with
  | nil => exact nofun
  | cons first entries ih =>
    obtain ⟨hfirst, hn⟩ := List.nodup_cons.mp hn
    obtain ⟨⟨hsame₁, hnames₁⟩, hrest⟩ := List.forall_mem_cons.mp hsame
    rw [attempts]
    split_ifs
    · exact ih hn c hrest
    · refine List.forall_mem_cons.mpr ⟨?_, ih hn _ fun entry hmem => ?_⟩
      · obtain ⟨m, hsame₁⟩ := hsame₁
        exact attachRing_same hsame₁ hnames₁
      · obtain ⟨⟨m, hsame⟩, hnames⟩ := hrest entry hmem
        have hne : entryName entry ≠ entryName first := by
          intro heq
          exact hfirst (heq ▸ List.mem_map_of_mem hmem)
        obtain ⟨⟨m₁, hsame'⟩, hnames'⟩ :=
          attachRing_other (hgc _) (hsame.settled (hs _)) hsame.right hne
        exact ⟨⟨m₁, hsame.trans hsame'⟩, hnames'.trans hnames⟩

/-- With a well-formed registry and the same answers to every pass, what `attach_ring` gives on a
listed ring does not depend on the other entries or on their order. -/
theorem attempts_alone {m : EntryMap} (h : RegistryInv c.store.registry m)
    (hgc : ∀ name, (env.attach name).gc = env.gc) (start : Name) :
    ∀ a ∈ attempts env (c.listed env start) (c.swept env),
      a.2 = ((c.swept env).attachRing env (entryName a.1)).1 := by
  obtain ⟨m₁, hinv, hs⟩ := LinkedStore.settled_gc env.gc h
  rw [← store_swept] at hinv hs
  exact attempts_eq_alone hgc hs _ (hinv.mem_list start).1 _ fun _ _ =>
    ⟨⟨m₁, .refl hinv⟩, Iff.rfl⟩

/-- The loop attaches what its attempts up to the first error attach. -/
theorem names_discoverLoop (env : DiscoverEnv) (entries : List RegistryEntry) (c : Center) :
    (∃ before entry e after, attempts env entries c = before ++ (entry, .error e) :: after ∧
      (∀ a ∈ before, a.2 = .ok ()) ∧ (discoverLoop env entries c).1 = .error e ∧
      ∀ name, name ∈ (discoverLoop env entries c).2.names ↔
        name ∈ c.names ∨ ∃ a ∈ before, entryName a.1 = name) ∨
    (∀ a ∈ attempts env entries c, a.2 = .ok ()) ∧ (discoverLoop env entries c).1 = .ok () ∧
      ∀ name, name ∈ (discoverLoop env entries c).2.names ↔
        name ∈ c.names ∨ ∃ a ∈ attempts env entries c, entryName a.1 = name := by
  induction entries generalizing c with
  | nil => exact .inr ⟨nofun, rfl, fun name => by simp [attempts, discoverLoop]⟩
  | cons entry entries ih =>
    rw [attempts, discoverLoop]
    split_ifs with htype
    · exact ih c
    · generalize hresult : c.attachRing env (entryName entry) = result
      have hnames := names_attachRing env c (entryName entry)
      rw [hresult] at hnames
      obtain ⟨r, c'⟩ := result
      rcases hnames with ⟨rfl, hnames⟩ | ⟨⟨e, rfl⟩, hnames⟩
      · rcases ih c' with ⟨before, failing, e, after, hsplit, hbefore, herror, hloop⟩ |
          ⟨hall, hok, hloop⟩
        · refine .inl ⟨(entry, .ok ()) :: before, failing, e, after, ?_, ?_, herror, fun name => ?_⟩
          · rw [hsplit, List.cons_append]
          · exact List.forall_mem_cons.mpr ⟨rfl, hbefore⟩
          · rw [hloop name, hnames name, List.exists_mem_cons_iff, or_assoc, eq_comm (a := name)]
        · refine .inr ⟨List.forall_mem_cons.mpr ⟨rfl, hall⟩, hok, fun name => ?_⟩
          rw [hloop name, hnames name, List.exists_mem_cons_iff, or_assoc, eq_comm (a := name)]
      · refine .inl ⟨[], entry, e, attempts env entries c', rfl, nofun, rfl, fun name => ?_⟩
        simp [hnames]

theorem count_names_eq_one (c : Center) : c.names.count name = 1 ↔ name ∈ c.names := by
  refine ⟨fun h => List.count_pos_iff.mp (by omega), fun h => ?_⟩
  exact List.count_eq_one_of_mem c.distinct h

/-- After one `discover_once` every listed ring whose own attempt succeeds is attached, once, if
and only if none is listed after one that fails. -/
theorem discoverOnce_complete_iff (env : DiscoverEnv) (start : Name) (c : Center) :
    (∀ entry, (entry, .ok ()) ∈ attempts env (c.listed env start) (c.swept env) →
      (c.discoverOnce env start).2.names.count (entryName entry) = 1) ↔
    ¬ c.Hides (attempts env (c.listed env start) (c.swept env)) := by
  simp only [count_names_eq_one, discoverOnce]
  rcases names_discoverLoop env (c.listed env start) (c.swept env) with
    ⟨before, entry, e, after, hsplit, hbefore, -, hnames⟩ | ⟨hall, -, hnames⟩
  · simp only [hnames, hsplit, names_swept]
    constructor
    · rintro hcomplete ⟨before', failing, e', after', hidden, hsplit', hmem, hnew, hearlier⟩
      have hmem' : (hidden, .ok ()) ∈ before ++ (entry, Except.error e) :: after :=
        hsplit' ▸ List.mem_append_right _ (List.mem_cons_of_mem _ hmem)
      rcases hcomplete hidden hmem' with hold | ⟨⟨entry', r⟩, hmem, hname⟩
      · exact hnew hold
      · obtain rfl : r = .ok () := hbefore _ hmem
        refine hearlier entry' ?_ hname
        -- the first error is not behind the one that hides
        rcases List.append_eq_append_iff.mp hsplit' with ⟨rest, rfl, -⟩ | ⟨rest, rfl, hrest⟩
        · exact List.mem_append_left _ hmem
        · rcases List.mem_append.mp hmem with hmem | hmem
          · exact hmem
          · cases rest with
            | nil => cases hmem
            | cons a rest =>
              obtain ⟨rfl, -⟩ := List.cons.inj hrest
              cases hbefore _ (List.mem_append_right _ List.mem_cons_self)
    · intro hhides entry' hmem
      rcases List.mem_append.mp hmem with hmem | hmem
      · exact .inr ⟨_, hmem, rfl⟩
      · by_contra hmissing
        obtain ⟨hnew, hearlier⟩ := not_or.mp hmissing
        refine hhides ⟨before, entry, e, after, entry', rfl, ?_, hnew, ?_⟩
        · exact (List.mem_cons.mp hmem).resolve_left nofun
        · exact fun _ hmem' hname => hearlier ⟨_, hmem', hname⟩
  · simp only [hnames, names_swept]
    refine ⟨?_, fun _ entry hmem => .inr ⟨_, hmem, rfl⟩⟩
    rintro - ⟨before, entry, e, after, -, hsplit, -⟩
    have herror := hall (entry, .error e) (hsplit ▸ List.mem_append_right _ List.mem_cons_self)
    cases herror

end Proofs

section Uninitialised

def ringOptions (leaf : Char) : CreateOptions :=
  ⟨nameStart ++ asciiBytes ['l', 'o', 'g', '.', leaf], .recordRing, 4096, 64, 0⟩

/-- A system in which every process runs and every call succeeds. -/
def aliveGcEnv : GcEnv :=
  ⟨fun _ => some quietEnv.startTime, 1, fun _ => false, fun _ => false, fun _ => true,
    fun _ => true⟩

/-- The given objects hold an initialised ring, the others zeros. -/
def readyEnv (ready : Nat → Bool) : DiscoverEnv where
  gc := aliveGcEnv
  attach _ := ⟨aliveGcEnv, none, .notFound, none, ⟨none, none⟩⟩
  ringMeta o := if ready o then (freshRing 1 64).ringMeta else zeroRing.ringMeta

/-- The default prefix of a `LogCenter`. -/
def logStart : Name := nameStart ++ asciiBytes ['l', 'o', 'g', '.']

/-- Two rings just created, and a `LogCenter` that has seen neither. -/
def twoCreated : Center :=
  ⟨(LinkedStore.create (ringOptions 'b') quietEnv
    (LinkedStore.create (ringOptions 'a') quietEnv .initial).2).2, [], List.nodup_nil⟩

theorem attempts_twoCreated :
    (attempts (readyEnv (· == 1)) (twoCreated.listed (readyEnv (· == 1)) logStart)
      (twoCreated.swept (readyEnv (· == 1)))).map (fun a => a.2.toBool) = [false, true] ∧
    (twoCreated.discoverOnce (readyEnv (· == 1)) logStart).2.names = [] := by
  decide +kernel

/-- The first ring has no valid metadata yet, so the second, which is ready, is not attached. -/
theorem discoverOnce_hides :
    ∃ entry, (entry, .ok ()) ∈ attempts (readyEnv (· == 1))
        (twoCreated.listed (readyEnv (· == 1)) logStart) (twoCreated.swept (readyEnv (· == 1))) ∧
      (twoCreated.discoverOnce (readyEnv (· == 1)) logStart).2.names.count
        (entryName entry) = 0 := by
  obtain ⟨hattempts, hnone⟩ := attempts_twoCreated
  rw [hnone]
  generalize attempts _ _ _ = as at hattempts ⊢
  obtain ⟨_, ⟨entry, r⟩, rfl⟩ : ∃ a a', as = [a, a'] :=
    List.length_eq_two.mp (by simpa using congrArg List.length hattempts)
  cases r with
  | error => simp [Except.toBool] at hattempts
  | ok => exact ⟨entry, by simp, rfl⟩

end Uninitialised

end Center

end Shmfx
