import Shmfx.Janitor.Pass

/-! One `gc` that nobody disturbs, action by action: what it may touch, and that a second one with
the same answers finds nothing to do. -/
namespace Shmfx

/-- A store or call of `gc` that changes something. -/
inductive GcAction
  | setState (name : Name) (state : SegmentState)
  | unlink (name : Name)
  | unregister (name : Name)
  | refresh (entry : RegistryEntry)

def SegmentMemory.setState (object : SegmentMemory) (state : SegmentState) : SegmentMemory :=
  { object with header := { object.header with state := state.code } }

def GcAction.apply (s : SegmentStore) : GcAction → SegmentStore
  | .setState name state =>
    { s with names := Function.update s.names name ((s.names name).map (·.setState state)) }
  | .unlink name => s.unlink name
  | .unregister name => s.unregister name
  | .refresh entry => { s with registry := (s.registry.registerSegment entry).2 }

/-- What `gc` decides on an entry. -/
inductive Verdict
  | keep
  | forget
  | drain
  | collect
  | reap

/-- The decision on a segment with a valid header. -/
def judge (env : GcEnv) (entry : RegistryEntry) (object : SegmentMemory) : Verdict :=
  match sweepBranch env.now entry 0 (ownerIsDead env.processes object.header env.now)
    object.header.refCount object.header.state with
  | some (.locking _) => if env.locks (entryName entry) then .collect else .keep
  | some (.draining _) => .drain
  | some (.scanning _) => if env.mapped (entryName entry) then .keep else .reap
  | _ => .keep

def verdict (env : GcEnv) (entry : RegistryEntry) (o : Option SegmentMemory) : Verdict :=
  if entryName entry = [] ∨ entryName entry = registryName then .keep
  else if env.openFails (entryName entry) then .keep
  else
    match o with
    | none => .forget
    | some object =>
      if object.size < headerSize then .forget
      else if env.mapFails (entryName entry) then .keep
      else if janitorHeaderValid object.header object.size = false then .forget
      else judge env entry object

namespace Verdict

/-- The actions of one turn, in program order. -/
def actions (env : GcEnv) (entry : RegistryEntry) : Verdict → List GcAction
  | keep => []
  | forget => [.unregister (entryName entry)]
  | drain =>
    [.setState (entryName entry) .draining, .refresh { entry with lastSeenNs := env.now }]
  | collect =>
    [.setState (entryName entry) .dead, .unlink (entryName entry), .unregister (entryName entry)]
  | reap => [.unlink (entryName entry), .unregister (entryName entry)]

/-- The object under the name afterwards. -/
def objectAfter (o : Option SegmentMemory) : Verdict → Option SegmentMemory
  | keep | forget => o
  | drain => o.map (·.setState .draining)
  | collect | reap => none

/-- The entry of the name afterwards. -/
def entryAfter (env : GcEnv) (entry : RegistryEntry) : Verdict → Option RegistryEntry
  | keep => some entry.content
  | drain => some { entry with lastSeenNs := env.now }.content
  | forget | collect | reap => none

end Verdict

/-- The actions of a pass over some entries. -/
def gcLog (env : GcEnv) : SegmentStore → List RegistryEntry → List GcAction
  | _, [] => []
  | s, entry :: entries =>
    (verdict env entry (s.names (entryName entry))).actions env entry ++
      gcLog env (gcEntry env s entry) entries

/-- The owner is dead and nobody holds the segment. -/
def Abandoned (env : GcEnv) (object : SegmentMemory) : Prop :=
  ownerIsDead env.processes object.header env.now = true ∧ object.header.refCount = 0

/-- The owner is dead but somebody still holds the active segment. -/
def Orphaned (env : GcEnv) (object : SegmentMemory) : Prop :=
  ownerIsDead env.processes object.header env.now = true ∧ 0 < object.header.refCount ∧
    object.header.state = SegmentState.active.code

/-- The segment drains, and has been seen last too long ago. -/
def Zombie (env : GcEnv) (entry : RegistryEntry) (object : SegmentMemory) : Prop :=
  object.header.state = SegmentState.draining.code ∧ entry.lastSeenNs ≠ 0 ∧
    entry.lastSeenNs.toNat + segmentZombieNs.toNat < env.now.toNat

/-- Too short for a header, or with one that `attach` would refuse. -/
def Broken (object : SegmentMemory) : Prop :=
  object.size < headerSize ∨ validateHeader object.header object.size ≠ .ok ()

/-- The decision in terms of what the pass is for. -/
inductive Judged (env : GcEnv) (entry : RegistryEntry) : Option SegmentMemory → Verdict → Prop
  | refused {o : Option SegmentMemory} (h : env.openFails (entryName entry) = true) :
      Judged env entry o .keep
  | missing (hopen : env.openFails (entryName entry) = false) : Judged env entry none .forget
  | broken {object : SegmentMemory} (hopen : env.openFails (entryName entry) = false)
      (h : Broken object) : Judged env entry (some object) .forget
  | abandoned {object : SegmentMemory} (hopen : env.openFails (entryName entry) = false)
      (hb : ¬ Broken object) (h : Abandoned env object) : Judged env entry (some object) .collect
  | orphaned {object : SegmentMemory} (hopen : env.openFails (entryName entry) = false)
      (hb : ¬ Broken object) (h : Orphaned env object) :
      Judged env entry (some object) .drain
  | zombie {object : SegmentMemory} (hopen : env.openFails (entryName entry) = false)
      (hb : ¬ Broken object) (h : Zombie env entry object)
      (hm : env.mapped (entryName entry) = false) : Judged env entry (some object) .reap
  | sound {object : SegmentMemory} (hopen : env.openFails (entryName entry) = false)
      (hb : ¬ Broken object) (h₁ : ¬ Abandoned env object) (h₂ : ¬ Orphaned env object)
      (h₃ : Zombie env entry object → env.mapped (entryName entry) = true) :
      Judged env entry (some object) .keep

/-- What a pass may make of the object and the entry of a name. -/
structure SafeAt (env : GcEnv) (name : Name) (o o' : Option SegmentMemory)
    (e e' : Option RegistryEntry) : Prop where
  unlinked : ∀ object, o = some object → o' = none →
    Abandoned env object ∨
      ∃ entry, e = some entry ∧ Zombie env entry object ∧ env.mapped name = false
  removed : e ≠ none →
    (e' = none ↔ (o ≠ none ∧ o' = none) ∨
      env.openFails name = false ∧ (o = none ∨ ∃ object, o = some object ∧ Broken object))
  restated : ∀ object object', o = some object → o' = some object' →
    object' = object ∨ Orphaned env object ∧ object' = object.setState .draining ∧
      ∃ entry, e = some entry ∧ e' = some { entry with lastSeenNs := env.now }
  rewritten : ∀ entry entry', e = some entry → e' = some entry' →
    entry' = entry ∨ entry' = { entry with lastSeenNs := env.now } ∧
      ∃ object, o = some object ∧ Orphaned env object ∧ o' = some (object.setState .draining)
  unlisted : e = none → o' = o ∧ e' = none
  unmade : o = none → o' = none

/-- The same of the actions: an object is unlinked, or its state stored, only as `SafeAt` says, and
DEAD just before the unlink. -/
structure SafeLog (env : GcEnv) (s : SegmentStore) (m : EntryMap) (log : List GcAction) :
    Prop where
  unlinks : ∀ name, .unlink name ∈ log → ∃ object, s.names name = some object ∧
    (Abandoned env object ∨
      ∃ entry, m name = some entry ∧ Zombie env entry object ∧ env.mapped name = false)
  states : ∀ before name state after, log = before ++ .setState name state :: after →
    ∃ object, s.names name = some object ∧
      (Orphaned env object ∧ state = .draining ∨
        Abandoned env object ∧ state = .dead ∧ ∃ rest, after = .unlink name :: rest)

section Turns

variable {env : GcEnv} {s : SegmentStore} {entry entry' : RegistryEntry} {m : EntryMap}
  {o : Option SegmentMemory} {object : SegmentMemory}

theorem gcObject_eq_actions (hn : s.names (entryName entry) = some object) :
    gcObject env s entry object = ((judge env entry object).actions env entry).foldl
      GcAction.apply s := by
  unfold gcObject judge
  dsimp only
  generalize sweepBranch env.now entry 0 _ _ _ = branch
  cases branch with
  | none => rfl
  | some pc =>
    cases pc with
    | locking =>
      dsimp only
      split
      · simp [Verdict.actions, GcAction.apply, SegmentStore.unlink, SegmentStore.unregister]
      · rfl
    | draining =>
      simp [Verdict.actions, GcAction.apply, SegmentStore.drainOrphan, SegmentStore.setHeader, hn,
        SegmentMemory.setState]
    | scanning =>
      dsimp only
      split <;> rfl
    | _ => rfl

/-- The turn of the loop is its actions. -/
theorem gcEntry_eq_actions (env : GcEnv) (s : SegmentStore) (entry : RegistryEntry) :
    gcEntry env s entry =
      ((verdict env entry (s.names (entryName entry))).actions env entry).foldl
        GcAction.apply s := by
  unfold gcEntry verdict
  dsimp only
  by_cases hskip : entryName entry = [] ∨ entryName entry = registryName
  · rw [if_pos hskip, if_pos hskip]
    rfl
  rw [if_neg hskip, if_neg hskip]
  by_cases hopen : env.openFails (entryName entry) = true
  · rw [if_pos hopen, if_pos hopen]
    rfl
  rw [if_neg hopen, if_neg hopen]
  cases hn : s.names (entryName entry) with
  | none => rfl
  | some object =>
    dsimp only
    split_ifs with hshort hmap hvalid
    · rfl
    · rfl
    · rfl
    · exact gcObject_eq_actions hn

theorem gcLog_apply (env : GcEnv) (entries : List RegistryEntry) (s : SegmentStore) :
    (gcLog env s entries).foldl GcAction.apply s = entries.foldl (gcEntry env) s := by
  induction entries generalizing s with
  | nil => rfl
  | cons entry entries ih =>
    rw [gcLog, List.foldl_append, ← gcEntry_eq_actions, ih, List.foldl_cons]

/-- A decision looks at the name and the last sighting of the entry only. -/
theorem verdict_congr (hname : entryName entry' = entryName entry)
    (hseen : entry'.lastSeenNs = entry.lastSeenNs) :
    verdict env entry' o = verdict env entry o := by
  simp only [verdict, judge, sweepBranch, hname, hseen]

theorem verdict_content : verdict env entry.content o = verdict env entry o :=
  verdict_congr rfl rfl

theorem zombie_iff : Zombie env entry object ↔
    object.header.state = SegmentState.draining.code ∧ entry.lastSeenNs ≠ 0 ∧
      env.now > entry.lastSeenNs ∧ env.now - entry.lastSeenNs > segmentZombieNs := by
  have hage : entry.lastSeenNs.toNat + segmentZombieNs.toNat < env.now.toNat ↔
      env.now > entry.lastSeenNs ∧ env.now - entry.lastSeenNs > segmentZombieNs := by
    simp only [gt_iff_lt, UInt64.lt_iff_toNat_lt]
    constructor
    · intro h
      have hsub := UInt64.toNat_sub_of_le env.now entry.lastSeenNs
        (UInt64.le_iff_toNat_le.mpr (by omega))
      omega
    · rintro ⟨hlt, hgt⟩
      have hsub := UInt64.toNat_sub_of_le env.now entry.lastSeenNs
        (UInt64.le_iff_toNat_le.mpr (by omega))
      omega
  rw [Zombie, hage]

theorem judge_judged (hlock : ∀ name, env.locks name = true)
    (hopen : env.openFails (entryName entry) = false) (hb : ¬ Broken object) :
    Judged env entry (some object) (judge env entry object) := by
  unfold judge sweepBranch
  by_cases ha : Abandoned env object
  · rw [if_pos (show _ ∧ _ from ha)]
    dsimp only
    rw [if_pos (hlock _)]
    exact .abandoned hopen hb ha
  · rw [if_neg (show ¬ (_ ∧ _) from ha)]
    by_cases ho : Orphaned env object
    · rw [if_pos (show _ ∧ _ from ho)]
      exact .orphaned hopen hb ho
    · rw [if_neg (show ¬ (_ ∧ _) from ho)]
      by_cases hz : Zombie env entry object
      · rw [if_pos (zombie_iff.mp hz)]
        dsimp only
        by_cases hm : env.mapped (entryName entry) = true
        · rw [if_pos hm]
          exact .sound hopen hb ha ho fun _ => hm
        · rw [if_neg hm]
          exact .zombie hopen hb hz (Bool.not_eq_true _ ▸ hm)
      · rw [if_neg (mt zombie_iff.mpr hz)]
        exact .sound hopen hb ha ho fun h => absurd h hz

theorem verdict_judged (hmap : ∀ name, env.mapFails name = false)
    (hlock : ∀ name, env.locks name = true)
    (hskip : ¬ (entryName entry = [] ∨ entryName entry = registryName))
    (o : Option SegmentMemory) : Judged env entry o (verdict env entry o) := by
  have hvalid (object : SegmentMemory) : janitorHeaderValid object.header object.size = true ↔
      validateHeader object.header object.size = .ok () :=
    janitorHeaderValid_iff.trans validateHeader_ok_iff.symm
  unfold verdict
  rw [if_neg hskip]
  cases hopen : env.openFails (entryName entry) with
  | true =>
    rw [if_pos rfl]
    exact .refused hopen
  | false =>
  rw [if_neg Bool.false_ne_true]
  cases o with
  | none => exact .missing hopen
  | some object =>
    dsimp only
    rw [hmap, if_neg Bool.false_ne_true]
    split_ifs with hsize hinvalid
    · exact .broken hopen (.inl hsize)
    · refine .broken hopen (.inr fun hok => ?_)
      rw [(hvalid object).mpr hok] at hinvalid
      cases hinvalid
    · refine judge_judged hlock hopen ?_
      rintro (hshort | hrejected)
      · exact hsize hshort
      · exact hrejected ((hvalid object).mp (Bool.not_eq_false _ ▸ hinvalid))

theorem judge_drain (h : judge env entry object = .drain) : Orphaned env object := by
  unfold judge sweepBranch at h
  by_cases ha : Abandoned env object
  · rw [if_pos (show _ ∧ _ from ha)] at h
    dsimp only at h
    split_ifs at h
  · rw [if_neg (show ¬ (_ ∧ _) from ha)] at h
    by_contra ho
    rw [if_neg (show ¬ (_ ∧ _) from ho)] at h
    split_ifs at h

/-- A drain is decided on an orphan that could be opened and mapped. -/
theorem verdict_drain (h : verdict env entry o = .drain) :
    ∃ object, o = some object ∧ Orphaned env object ∧
      ∀ entry' object', entryName entry' = entryName entry → object'.size = object.size →
        janitorHeaderValid object'.header object'.size =
          janitorHeaderValid object.header object.size →
        verdict env entry' (some object') = judge env entry' object' := by
  unfold verdict at h
  cases o with
  | none => split_ifs at h
  | some object =>
    dsimp only at h
    split_ifs at h with hskip hopen hsize hmap hvalid
    refine ⟨object, rfl, ?_, fun entry' object' hname hsize' hvalid' => ?_⟩
    · exact judge_drain h
    · rw [verdict, hname, if_neg hskip, if_neg hopen, hvalid', hsize', if_neg hsize, if_neg hmap,
        if_neg hvalid]

/-- Once drained, an orphan is left alone while the clock stands. -/
theorem judge_drained (h : Orphaned env object) :
    judge env { entry with lastSeenNs := env.now }.content (object.setState .draining) = .keep := by
  obtain ⟨-, hrefs, -⟩ := h
  unfold judge sweepBranch
  rw [if_neg, if_neg, if_neg]
  · rintro ⟨-, -, hlt, -⟩
    exact absurd hlt (UInt64.lt_irrefl _)
  · rintro ⟨-, -, hactive⟩
    exact absurd hactive (show SegmentState.draining.code ≠ _ by decide)
  · rintro ⟨-, hzero⟩
    rw [show object.header.refCount = 0 from hzero] at hrefs
    exact absurd hrefs (by decide)

/-- What a turn leaves, a second one keeps. -/
theorem verdict_settled (h : (verdict env entry o).entryAfter env entry = some entry') :
    verdict env entry' ((verdict env entry o).objectAfter o) = .keep := by
  generalize hv : verdict env entry o = v at h ⊢
  cases v with
  | forget | collect | reap => cases h
  | keep =>
    rw [Verdict.entryAfter] at h
    obtain rfl := Option.some.inj h
    rw [verdict_content]
    exact hv
  | drain =>
    rw [Verdict.entryAfter] at h
    obtain rfl := Option.some.inj h
    obtain ⟨object, rfl, horphan, hsame⟩ := verdict_drain hv
    have hsame := hsame { entry with lastSeenNs := env.now }.content (object.setState .draining)
      rfl rfl rfl
    rw [Verdict.objectAfter, Option.map_some, hsame]
    exact judge_drained horphan

theorem RegistryInv.entryName_ne_nil (h : RegistryInv s.registry m)
    (hm : m (entryName entry) ≠ none) : entryName entry ≠ [] := by
  obtain ⟨i, hb, hn⟩ := h.present_iff.mp hm
  rw [← hn]
  exact (h.bit_iff i).mp hb

/-- Registering a name that is there rewrites its entry. -/
theorem RegistryInv.refreshed (h : RegistryInv s.registry m) (hm : m (entryName entry) ≠ none) :
    RegistryInv (s.registry.registerSegment entry).2
      (Function.update m (entryName entry) (some entry.content)) := by
  obtain ⟨m', hstep, hinv⟩ := h.register (h.entryName_ne_nil hm)
  simp only [registryCall] at hstep hinv
  generalize errorOf (s.registry.registerSegment entry).1 = reply at hstep
  cases hstep with
  | insert => exact hinv
  | full habs => exact absurd habs hm

/-- What a turn leaves under the name of its entry; the others it leaves alone. -/
theorem gcEntry_local (env : GcEnv) (h : RegistryInv s.registry m)
    (hm : m (entryName entry) = some entry.content) :
    (gcEntry env s entry).names = Function.update s.names (entryName entry)
        ((verdict env entry (s.names (entryName entry))).objectAfter (s.names (entryName entry))) ∧
      RegistryInv (gcEntry env s entry).registry (Function.update m (entryName entry)
        ((verdict env entry (s.names (entryName entry))).entryAfter env entry)) := by
  rw [gcEntry_eq_actions]
  generalize verdict env entry (s.names (entryName entry)) = v
  cases v with
  | keep =>
    refine ⟨(Function.update_eq_self ..).symm, ?_⟩
    rw [Verdict.entryAfter, ← hm, Function.update_eq_self]
    exact h
  | forget =>
    simp only [Verdict.actions, List.foldl_cons, List.foldl_nil, GcAction.apply]
    refine ⟨?_, h.unregisterIn _⟩
    rw [Verdict.objectAfter, Function.update_eq_self, SegmentStore.unregister]
  | drain =>
    have hseen : m (entryName { entry with lastSeenNs := env.now }) ≠ none := by
      intro hnone
      cases hm.symm.trans hnone
    simp only [Verdict.actions, List.foldl_cons, List.foldl_nil, GcAction.apply]
    exact ⟨rfl, h.refreshed hseen⟩
  | collect =>
    simp only [Verdict.actions, List.foldl_cons, List.foldl_nil, GcAction.apply]
    exact ⟨Function.update_idem .., h.unregisterIn _⟩
  | reap =>
    simp only [Verdict.actions, List.foldl_cons, List.foldl_nil, GcAction.apply]
    exact ⟨rfl, h.unregisterIn _⟩

theorem entryName_ne_of_nodup {first : RegistryEntry} {entries : List RegistryEntry}
    (h : ((first :: entries).map entryName).Nodup) (hmem : entry ∈ entries) :
    entryName entry ≠ entryName first := by
  intro heq
  exact (List.nodup_cons.mp h).1 (heq ▸ List.mem_map_of_mem hmem)

/-- A turn of the loop leaves the entries behind its own as they are. -/
theorem rest_registered {first : RegistryEntry} {entries : List RegistryEntry}
    (hn : ((first :: entries).map entryName).Nodup)
    (hm : ∀ entry ∈ first :: entries, m (entryName entry) = some entry.content)
    (after : Option RegistryEntry) :
    ∀ entry ∈ entries,
      Function.update m (entryName first) after (entryName entry) = some entry.content := by
  intro entry hmem
  rw [Function.update_of_ne (entryName_ne_of_nodup hn hmem)]
  exact hm entry (List.mem_cons_of_mem _ hmem)

/-- The loop over entries of different names: each gets what its own turn decides. -/
theorem gcLoop_local (env : GcEnv) (entries : List RegistryEntry) (s : SegmentStore)
    (m : EntryMap) (h : RegistryInv s.registry m) (hn : (entries.map entryName).Nodup)
    (hm : ∀ entry ∈ entries, m (entryName entry) = some entry.content) :
    ∃ m', RegistryInv (entries.foldl (gcEntry env) s).registry m' ∧
      (∀ name, name ∉ entries.map entryName →
        (entries.foldl (gcEntry env) s).names name = s.names name ∧ m' name = m name) ∧
      ∀ entry ∈ entries,
        (entries.foldl (gcEntry env) s).names (entryName entry) =
          (verdict env entry (s.names (entryName entry))).objectAfter
            (s.names (entryName entry)) ∧
        m' (entryName entry) =
          (verdict env entry (s.names (entryName entry))).entryAfter env entry := by
  induction entries generalizing s m with
  | nil => exact ⟨m, h, fun _ _ => ⟨rfl, rfl⟩, fun _ hmem => nomatch hmem⟩
  | cons first entries ih =>
    obtain ⟨hfirst, hrest⟩ := List.nodup_cons.mp hn
    obtain ⟨hnames, hinv⟩ := gcEntry_local env h (hm first List.mem_cons_self)
    obtain ⟨m', hinv', hframe, hlocal⟩ := ih _ _ hinv hrest (rest_registered hn hm _)
    refine ⟨m', hinv', fun name hname => ?_, fun entry hmem => ?_⟩
    · rw [List.map_cons, List.mem_cons, not_or] at hname
      obtain ⟨ho, hmap⟩ := hframe name hname.2
      rw [hnames, Function.update_of_ne hname.1] at ho
      rw [Function.update_of_ne hname.1] at hmap
      exact ⟨ho, hmap⟩
    · rcases List.mem_cons.mp hmem with rfl | hmem
      · obtain ⟨ho, hmap⟩ := hframe _ hfirst
        rw [hnames, Function.update_self] at ho
        rw [Function.update_self] at hmap
        exact ⟨ho, hmap⟩
      · have hlocal := hlocal entry hmem
        rw [hnames, Function.update_of_ne (entryName_ne_of_nodup hn hmem)] at hlocal
        exact hlocal

/-- The actions of a loop over entries of different names do not depend on its earlier turns. -/
theorem gcLog_eq_flatMap (env : GcEnv) (entries : List RegistryEntry) (s : SegmentStore)
    (m : EntryMap) (h : RegistryInv s.registry m) (hn : (entries.map entryName).Nodup)
    (hm : ∀ entry ∈ entries, m (entryName entry) = some entry.content) :
    gcLog env s entries = entries.flatMap fun entry =>
      (verdict env entry (s.names (entryName entry))).actions env entry := by
  induction entries generalizing s m with
  | nil => rfl
  | cons first entries ih =>
    obtain ⟨-, hrest⟩ := List.nodup_cons.mp hn
    obtain ⟨hnames, hinv⟩ := gcEntry_local env h (hm first List.mem_cons_self)
    rw [gcLog, List.flatMap_cons, ih _ _ hinv hrest (rest_registered hn hm _)]
    congr 1
    refine List.flatMap_congr fun entry hmem => ?_
    rw [hnames, Function.update_of_ne (entryName_ne_of_nodup hn hmem)]

theorem Judged.safeAt {v : Verdict} (h : Judged env entry o v) (hcontent : entry.content = entry) :
    SafeAt env (entryName entry) o (v.objectAfter o) (some entry) (v.entryAfter env entry) := by
  have hseen : { entry with lastSeenNs := env.now }.content =
      { entry with lastSeenNs := env.now } := by
    rw [← hcontent]
    rfl
  cases h with
  | refused h =>
    cases o <;> constructor <;> simp [Verdict.objectAfter, Verdict.entryAfter, hcontent, h]
  | missing hopen => constructor <;> simp [Verdict.objectAfter, Verdict.entryAfter, hopen]
  | broken hopen h => constructor <;> simp [Verdict.objectAfter, Verdict.entryAfter, hopen, h]
  | abandoned hopen hb h => constructor <;> simp [Verdict.objectAfter, Verdict.entryAfter, h]
  | orphaned hopen hb h =>
    constructor <;> simp [Verdict.objectAfter, Verdict.entryAfter, hopen, hb, h, hseen]
  | zombie hopen hb h hm =>
    constructor <;> simp [Verdict.objectAfter, Verdict.entryAfter, h, hm]
  | sound hopen hb => constructor <;> simp [Verdict.objectAfter, Verdict.entryAfter, hcontent, hb]

theorem safeAt_unlisted (name : Name) : SafeAt env name o o none none := by
  constructor <;> simp_all

theorem actions_unlink {v : Verdict} {name : Name} (h : .unlink name ∈ v.actions env entry) :
    name = entryName entry ∧ (v = .collect ∨ v = .reap) := by
  cases v <;> simp_all [Verdict.actions]

theorem actions_setState {v : Verdict} {name : Name} {state : SegmentState}
    {before after : List GcAction}
    (h : v.actions env entry = before ++ .setState name state :: after) :
    name = entryName entry ∧ (v = .drain ∧ state = .draining ∨
      v = .collect ∧ state = .dead ∧ ∃ rest, after = .unlink name :: rest) := by
  cases v with
  | collect =>
    rcases before with _ | ⟨_, before⟩
    · cases h
      exact ⟨rfl, .inr ⟨rfl, rfl, _, rfl⟩⟩
    · rcases before with _ | ⟨_, _ | ⟨_, before⟩⟩ <;> simp [Verdict.actions] at h
  | _ =>
    rcases before with _ | ⟨_, _ | ⟨_, before⟩⟩ <;> simp_all [Verdict.actions]

/-- An element of the joined lists stands in one of them, and what follows it there follows it. -/
theorem flatMap_eq_append_cons {α β : Type*} {f : α → List β} {b : β} {after : List β} :
    ∀ {l : List α} {before : List β}, l.flatMap f = before ++ b :: after →
      ∃ a ∈ l, ∃ before' after' rest, f a = before' ++ b :: after' ∧ after = after' ++ rest
  | [], _, h => by simp at h
  | a :: l, before, h => by
    rw [List.flatMap_cons, List.append_eq_append_iff] at h
    rcases h with ⟨before', rfl, h⟩ | ⟨rest, hfa, h⟩
    · obtain ⟨a', hmem, hsplit⟩ := flatMap_eq_append_cons h
      exact ⟨a', List.mem_cons_of_mem _ hmem, hsplit⟩
    · rcases rest with _ | ⟨b', rest⟩
      · have h : l.flatMap f = [] ++ b :: after := h.symm
        obtain ⟨a', hmem, hsplit⟩ := flatMap_eq_append_cons h
        exact ⟨a', List.mem_cons_of_mem _ hmem, hsplit⟩
      · rw [List.cons_append, List.cons.injEq] at h
        obtain ⟨rfl, rfl⟩ := h
        exact ⟨a, List.mem_cons_self, before, rest, _, hfa, rfl⟩

/-- What a pass leaves under each name. -/
theorem gcPass_local (env : GcEnv) (h : RegistryInv s.registry m) :
    ∃ m', RegistryInv (gcPass env s).registry m' ∧
      ∀ name, (m name = none → (gcPass env s).names name = s.names name ∧ m' name = none) ∧
        ∀ entry, m name = some entry →
          (gcPass env s).names name =
            (verdict env entry (s.names name)).objectAfter (s.names name) ∧
          m' name = (verdict env entry (s.names name)).entryAfter env entry := by
  obtain ⟨hn, hlisted, hall⟩ := h.listed
  obtain ⟨m', hinv, hframe, hlocal⟩ := gcLoop_local env (s.registry.list []) s m h hn hlisted
  unfold gcPass
  generalize s.registry.list [] = entries at hlisted hall hinv hframe hlocal ⊢
  refine ⟨m', hinv, fun name => ⟨fun hm => ?_, fun entry hm => ?_⟩⟩
  · have habsent : name ∉ entries.map entryName := by
      intro hmem
      obtain ⟨entry, hentry, rfl⟩ := List.mem_map.mp hmem
      cases hm.symm.trans (hlisted entry hentry)
    obtain ⟨ho, hm'⟩ := hframe name habsent
    exact ⟨ho, hm'.trans hm⟩
  · obtain ⟨old, hold, rfl⟩ := hall name entry hm
    obtain rfl := h.entryName_eq hm
    rw [verdict_content]
    exact hlocal old hold

end Turns

section Passes

variable {env : GcEnv} {s : SegmentStore} {m : EntryMap} {name : Name} {entry : RegistryEntry}

/-- The entries of a registry that does not list itself are all looked at. -/
theorem RegistryInv.judged (h : RegistryInv s.registry m) (hself : m registryName = none)
    (hmap : ∀ name, env.mapFails name = false) (hlock : ∀ name, env.locks name = true)
    (hm : m name = some entry) (o : Option SegmentMemory) :
    entryName entry = name ∧ entry.content = entry ∧ Judged env entry o (verdict env entry o) := by
  obtain ⟨i, hb, rfl, rfl⟩ := (h.represents name entry).mp hm
  refine ⟨rfl, rfl, verdict_judged hmap hlock ?_ o⟩
  rintro (hnil | hregistry)
  · exact (h.bit_iff i).mp hb hnil
  · cases hm.symm.trans ((congrArg m hregistry).trans hself)

theorem gcPass_safeAt (h : RegistryInv s.registry m) (hself : m registryName = none)
    (hmap : ∀ name, env.mapFails name = false) (hlock : ∀ name, env.locks name = true) :
    ∃ m', RegistryInv (gcPass env s).registry m' ∧
      ∀ name, SafeAt env name (s.names name) ((gcPass env s).names name) (m name) (m' name) := by
  obtain ⟨m', hinv, hlocal⟩ := gcPass_local env h
  refine ⟨m', hinv, fun name => ?_⟩
  obtain ⟨habsent, hpresent⟩ := hlocal name
  cases hm : m name with
  | none =>
    obtain ⟨ho, hm'⟩ := habsent hm
    rw [ho, hm']
    exact safeAt_unlisted name
  | some entry =>
    obtain ⟨ho, hm'⟩ := hpresent entry hm
    obtain ⟨rfl, hcontent, hj⟩ := h.judged hself hmap hlock hm (s.names name)
    rw [ho, hm']
    exact hj.safeAt hcontent

theorem gcLog_safe (h : RegistryInv s.registry m) (hself : m registryName = none)
    (hmap : ∀ name, env.mapFails name = false) (hlock : ∀ name, env.locks name = true) :
    SafeLog env s m (gcLog env s (s.registry.list [])) := by
  obtain ⟨hn, hlisted, -⟩ := h.listed
  rw [gcLog_eq_flatMap env _ s m h hn hlisted]
  have hjudged (entry : RegistryEntry) (hmem : entry ∈ s.registry.list []) :
      m (entryName entry) = some entry.content ∧
        Judged env entry.content (s.names (entryName entry))
          (verdict env entry (s.names (entryName entry))) := by
    have hm := hlisted entry hmem
    rw [← verdict_content]
    exact ⟨hm, (h.judged hself hmap hlock hm _).2.2⟩
  constructor
  · intro name hmem
    obtain ⟨entry, hentry, hmem⟩ := List.mem_flatMap.mp hmem
    obtain ⟨rfl, hv⟩ := actions_unlink hmem
    obtain ⟨hm, hj⟩ := hjudged entry hentry
    generalize verdict env entry (s.names (entryName entry)) = v at hv hj
    generalize s.names (entryName entry) = o at hj ⊢
    rcases hv with rfl | rfl
    · cases hj with
      | abandoned _ _ ha => exact ⟨_, rfl, .inl ha⟩
    · cases hj with
      | zombie _ _ hz hunmapped => exact ⟨_, rfl, .inr ⟨_, hm, hz, hunmapped⟩⟩
  · intro before name state after hlog
    obtain ⟨entry, hentry, before', after', rest, hactions, rfl⟩ := flatMap_eq_append_cons hlog
    obtain ⟨rfl, hv⟩ := actions_setState hactions
    obtain ⟨-, hj⟩ := hjudged entry hentry
    generalize verdict env entry (s.names (entryName entry)) = v at hv hj
    generalize s.names (entryName entry) = o at hj ⊢
    rcases hv with ⟨rfl, hstate⟩ | ⟨rfl, hstate, rest', rfl⟩
    · cases hj with
      | orphaned _ _ ho => exact ⟨_, rfl, .inl ⟨ho, hstate⟩⟩
    · cases hj with
      | abandoned _ _ ha => exact ⟨_, rfl, .inr ⟨ha, hstate, _, rfl⟩⟩

theorem gcPass_idempotent (env : GcEnv) (h : RegistryInv s.registry m) :
    gcPass env (gcPass env s) = gcPass env s := by
  obtain ⟨m', hinv, hlocal⟩ := gcPass_local env h
  refine gcPass_fixed fun entry hentry => ?_
  have hm' := hinv.listed.2.1 entry hentry
  obtain ⟨habsent, hpresent⟩ := hlocal (entryName entry)
  cases hm : m (entryName entry) with
  | none => cases hm'.symm.trans (habsent hm).2
  | some old =>
    obtain ⟨ho, hold⟩ := hpresent old hm
    have hsettled := verdict_settled (hold.symm.trans hm')
    rw [← ho, verdict_content] at hsettled
    rw [gcEntry_eq_actions, hsettled, Verdict.actions, List.foldl_nil]

/-- A `gc` that nobody disturbs only unlinks, forgets and drains what it should, and the next one
with the same answers changes nothing. -/
theorem undisturbed_gc (h : RegistryInv s.registry m) (hself : m registryName = none)
    (hmap : ∀ name, env.mapFails name = false) (hlock : ∀ name, env.locks name = true) :
    (∃ m', RegistryInv (gcPass env s).registry m' ∧ ∀ name,
      SafeAt env name (s.names name) ((gcPass env s).names name) (m name) (m' name)) ∧
    (gcLog env s (s.registry.list [])).foldl GcAction.apply s = gcPass env s ∧
    SafeLog env s m (gcLog env s (s.registry.list [])) ∧
    gcPass env (gcPass env s) = gcPass env s :=
  ⟨gcPass_safeAt h hself hmap hlock, gcLog_apply env _ s, gcLog_safe h hself hmap hlock,
    gcPass_idempotent env h⟩

/-- Every process gone at time zero, and every call of the system succeeding. -/
def desertedEnv : GcEnv :=
  ⟨fun _ => none, 0, fun _ => false, fun _ => false, fun _ => true, fun _ => false⟩

def strayName : Name := nameStart ++ asciiBytes ['a', 'p', 'p', '.', 'a']

def strayEntry : RegistryEntry := { zeroEntry with name := copyName strayName }

theorem entryName_strayEntry : entryName strayEntry = strayName :=
  fixedNameView_copyName (by decide) (by decide)

/-- A registry that lists the one name. -/
theorem exists_stray : ∃ p m, zeroPayload.registerSegment strayEntry = (.ok (), p) ∧
    RegistryInv p m ∧ m registryName = none ∧ m strayName = some strayEntry.content := by
  have hne : entryName strayEntry ≠ [] := by
    rw [entryName_strayEntry]
    decide
  obtain ⟨p, hregistered⟩ := registryInv_zeroPayload.registered hne (size_empty ▸ by decide)
  have hinv := registryInv_zeroPayload.register_ok hne hregistered
  rw [entryName_strayEntry] at hinv
  refine ⟨p, _, hregistered, hinv, ?_, Function.update_self ..⟩
  exact Function.update_of_ne (by decide) ..

/-- The name is linked to a segment without an owner. -/
def abandonedStore : SegmentStore :=
  ⟨fun name => if name = strayName then some ⟨512, halfPayload 256⟩ else none,
    (zeroPayload.registerSegment strayEntry).2⟩

/-- The segment is unlinked by the first pass. -/
theorem undisturbed_gc_abandoned : (abandonedStore.names strayName).isSome = true ∧
    ((gcPass desertedEnv abandonedStore).names strayName).isNone = true ∧
    gcPass desertedEnv (gcPass desertedEnv abandonedStore) = gcPass desertedEnv abandonedStore := by
  obtain ⟨p, m, hp, hinv, hself, -⟩ := exists_stray
  have hregistry : abandonedStore.registry = p := by rw [abandonedStore, hp]
  rw [← hregistry] at hinv
  exact ⟨rfl, by decide +kernel, (undisturbed_gc hinv hself (fun _ => rfl) fun _ => rfl).2.2.2⟩

/-- The same system, out of descriptors: every `shm_open` answers EMFILE. -/
def exhaustedEnv : GcEnv := { desertedEnv with openFails := fun _ => true }

def missingStore : SegmentStore := ⟨fun _ => none, (zeroPayload.registerSegment strayEntry).2⟩

/-- The object is missing, but the pass does not learn it and leaves the entry. -/
theorem missing_entry_stays : ∃ m : EntryMap, RegistryInv missingStore.registry m ∧
    m registryName = none ∧ (∀ name, exhaustedEnv.mapFails name = false) ∧
    (∀ name, exhaustedEnv.locks name = true) ∧ missingStore.names strayName = none ∧
    m strayName ≠ none ∧ RegistryInv (gcPass exhaustedEnv missingStore).registry m := by
  obtain ⟨p, m, hp, hinv, hself, hm⟩ := exists_stray
  have hregistry : missingStore.registry = p := by rw [missingStore, hp]
  rw [← hregistry] at hinv
  refine ⟨m, hinv, hself, fun _ => rfl, fun _ => rfl, rfl, ?_, ?_⟩
  · rw [hm]
    exact Option.some_ne_none _
  · rw [gcPass_unopened fun _ => rfl]
    exact hinv

end Passes

end Shmfx
