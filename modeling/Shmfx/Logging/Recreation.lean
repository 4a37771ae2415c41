import Shmfx.Logging.Discovery

/-! Segments destroyed and created again under a `LogCenter`, one call per step. -/
namespace Shmfx

open Lts

inductive CenterCall
  | create (options : CreateOptions) (env : CreateEnv)
  | destroy (name : Name)
  | release (o : Nat) (owner : Bool)
  | discover (env : DiscoverEnv)
  | drain

namespace Center

/-- `segment_dead`. -/
def segmentDead (c : Center) (a : AttachedRing Nat) : Bool :=
  (c.store.objects a.ring).header.state == SegmentState.dead.code

/-- `drain_once`, without the records: rings found DEAD are detached, and their handles go. -/
def drainOnce (c : Center) : Center where
  store := (c.rings.filter c.segmentDead).foldl (fun s a => s.release a.ring false) c.store
  rings := c.rings.filter fun a => !c.segmentDead a
  distinct := (List.filter_sublist.map _).nodup c.distinct

/-- Nothing linked, registered or attached. -/
def initial : Center := ⟨.initial, [], List.nodup_nil⟩

/-- Whole calls: `create` and `destroy` by any process, whether they succeed or not, the destruction
of a read-write handle, and the passes of the `LogCenter` whose attaches all succeed. -/
inductive CallStep (start : Name) (c : Center) : CenterCall → Center → Prop
  | create {options : CreateOptions} {env : CreateEnv} (htype : options.type = .recordRing) :
      CallStep start c (.create options env) (c.setStore (c.store.create options env).2)
  | destroy {name : Name} :
      CallStep start c (.destroy name) (c.setStore (c.store.destroy name).2)
  | release {o : Nat} {owner : Bool} :
      CallStep start c (.release o owner) (c.setStore (c.store.release o owner))
  | discover {env : DiscoverEnv} (h : (c.discoverOnce env start).1 = .ok ()) :
      CallStep start c (.discover env) (c.discoverOnce env start).2
  | drain : CallStep start c .drain c.drainOnce

/-- For every listed ring, one is attached that maps the object now linked under its name. -/
def Follows (start : Name) (c : Center) : Prop :=
  ∀ entry ∈ c.store.registry.list start, entry.segmentType = SegmentType.recordRing.code →
    ∃ o, c.store.names (entryName entry) = some o ∧
      ∃ a ∈ c.rings, a.name = entryName entry ∧ a.ring = o

/-- Names are used again only after the ring attached under them has been detached; a `create` that
fails uses none. -/
def ReusesDetached (c : Center) : CenterCall → Prop
  | .create options env => ∀ o, (c.store.create options env).1 = .ok o → options.name ∉ c.names
  | _ => True

/-- Entries have linked objects, and attached rings map what is linked under their names, if
anything is. -/
structure Current (c : Center) (m : EntryMap) : Prop where
  registry : RegistryInv c.store.registry m
  unlisted : m registryName = none
  linked : ∀ name, m name ≠ none → c.store.names name ≠ none
  mapped : ∀ a ∈ c.rings, ∀ o, c.store.names a.name = some o → a.ring = o

section Proofs

variable {c : Center} {m m' : EntryMap} {start : Name} {env : DiscoverEnv}

theorem current_initial : Current initial fun _ => none :=
  ⟨registryInv_zeroPayload, rfl, fun _ h => absurd rfl h, nofun⟩

/-- Unlinking and forgetting keeps rings current. -/
theorem Current.fades {store : LinkedStore} (h : Current c m) (hf : c.store.Fades m store m')
    {c' : Center} (hstore : c'.store = store) (hrings : ∀ a ∈ c'.rings, a ∈ c.rings) :
    Current c' m' := by
  subst hstore
  refine ⟨hf.registry, Option.eq_none_iff_forall_not_mem.mpr fun entry he => ?_,
    fun name hm' hnone => ?_, fun a ha o ho => ?_⟩
  · obtain ⟨_, he, -⟩ := hf.entries _ entry he
    cases h.unlisted.symm.trans he
  · rcases hf.names name with hkept | ⟨-, hforgot⟩
    · obtain ⟨entry', he'⟩ := Option.ne_none_iff_exists'.mp hm'
      obtain ⟨entry, he, -⟩ := hf.entries name entry' he'
      exact h.linked name (fun hm => nomatch hm.symm.trans he) (hkept.symm.trans hnone)
    · exact hm' hforgot
  · rcases hf.names a.name with hkept | ⟨hgone, -⟩
    · exact h.mapped a (hrings a ha) o (hkept.symm.trans ho)
    · cases hgone.symm.trans ho

theorem Current.setStore {store : LinkedStore} (h : Current c m)
    (hf : c.store.Fades m store m') : Current (c.setStore store) m' :=
  h.fades hf rfl fun _ ha => ha

/-- An attempt attaches the object that is linked. -/
theorem Current.attachRing (env : DiscoverEnv) (h : Current c m) (name : Name) :
    ∃ m', Current (c.attachRing env name).2 m' ∧
      c.store.Fades m (c.attachRing env name).2.store m' := by
  obtain ⟨m', hf⟩ := LinkedStore.fades_attach (env.attach name) name .readWrite h.registry
  have hlinked (o : Nat) (ho : (c.store.attach (env.attach name) name .readWrite).1 = .ok o) :
      (c.store.attach (env.attach name) name .readWrite).2.names name = some o :=
    LinkedStore.attach_linked ho
  unfold Center.attachRing
  split_ifs
  · exact ⟨m, h, .refl h.registry⟩
  · refine ⟨m', ?_⟩
    generalize c.store.attach (env.attach name) name .readWrite = result at hf hlinked ⊢
    obtain ⟨_ | o, store⟩ := result
    · exact ⟨h.setStore hf, hf⟩
    · have hreleased : c.store.Fades m (store.release o false) m' := by
        rw [LinkedStore.release_attached]
        exact hf.setObject _ _
      dsimp only
      split_ifs
      · exact ⟨h.setStore hreleased, hreleased⟩
      · cases bindRing (store.objects o).header.payload (env.ringMeta o) with
        | error => exact ⟨h.setStore hreleased, hreleased⟩
        | ok =>
          have hkept := h.setStore hf
          refine ⟨⟨hkept.registry, hkept.unlisted, hkept.linked, fun a ha o' ho' => ?_⟩, hf⟩
          rcases List.mem_append.mp ha with ha | ha
          · exact hkept.mapped a ha o' ho'
          · obtain rfl := List.mem_singleton.mp ha
            exact Option.some.inj ((hlinked o rfl).symm.trans ho')

theorem Current.discoverLoop (env : DiscoverEnv) (entries : List RegistryEntry) (c : Center)
    (m : EntryMap) (h : Current c m) :
    ∃ m', Current (discoverLoop env entries c).2 m' ∧
      c.store.Fades m (discoverLoop env entries c).2.store m' := by
  induction entries generalizing c m with
  | nil => exact ⟨m, h, .refl h.registry⟩
  | cons entry entries ih =>
    rw [Center.discoverLoop]
    split_ifs
    · exact ih c m h
    · obtain ⟨m₁, h₁, hf₁⟩ := h.attachRing env (entryName entry)
      generalize c.attachRing env (entryName entry) = result at h₁ hf₁
      obtain ⟨_ | _, c'⟩ := result
      · exact ⟨m₁, h₁, hf₁⟩
      · obtain ⟨m₂, h₂, hf₂⟩ := ih c' m₁ h₁
        exact ⟨m₂, h₂, hf₁.trans hf₂⟩

theorem mem_attempts (env : DiscoverEnv) {entries : List RegistryEntry} {entry : RegistryEntry}
    (hmem : entry ∈ entries) (htype : entry.segmentType = SegmentType.recordRing.code)
    (c : Center) : ∃ a ∈ attempts env entries c, a.1 = entry := by
  induction entries generalizing c with
  | nil => cases hmem
  | cons first entries ih =>
    rw [attempts]
    rcases List.mem_cons.mp hmem with rfl | hmem
    · rw [if_neg (not_not.mpr htype)]
      exact ⟨_, List.mem_cons_self, rfl⟩
    · split_ifs
      · exact ih hmem c
      · obtain ⟨a, ha, hentry⟩ := ih hmem (c.attachRing env (entryName first)).2
        exact ⟨a, List.mem_cons_of_mem _ ha, hentry⟩

/-- A `discover_once` without errors attaches every listed ring. -/
theorem names_discoverOnce (h : (c.discoverOnce env start).1 = .ok ()) {entry : RegistryEntry}
    (hmem : entry ∈ c.listed env start) (htype : entry.segmentType = SegmentType.recordRing.code) :
    entryName entry ∈ (c.discoverOnce env start).2.names := by
  unfold discoverOnce at h ⊢
  rcases names_discoverLoop env (c.listed env start) (c.swept env) with
    ⟨_, _, _, _, -, -, herror, -⟩ | ⟨-, -, hnames⟩
  · cases herror.symm.trans h
  · obtain ⟨a, ha, hentry⟩ := mem_attempts env hmem htype (c.swept env)
    exact (hnames _).mpr (.inr ⟨a, ha, congrArg entryName hentry⟩)

theorem Current.discoverOnce (env : DiscoverEnv) (start : Name) (h : Current c m) :
    ∃ m₁ m₂, RegistryInv (c.swept env).store.registry m₁ ∧
      Current (c.discoverOnce env start).2 m₂ ∧
      (c.swept env).store.Fades m₁ (c.discoverOnce env start).2.store m₂ := by
  obtain ⟨m₁, hf⟩ := LinkedStore.fades_gc env.gc h.registry
  have hswept : Current (c.swept env) m₁ := by
    rw [swept]
    exact h.setStore hf
  obtain ⟨m₂, h₂, hf₂⟩ := hswept.discoverLoop env (c.listed env start)
  refine ⟨m₁, m₂, hswept.registry, ?_⟩
  rw [Center.discoverOnce]
  exact ⟨h₂, hf₂⟩

theorem Current.follows (h : Current c m) (hok : (c.discoverOnce env start).1 = .ok ()) :
    Follows start (c.discoverOnce env start).2 := by
  obtain ⟨m₁, m₂, hinv, hcurrent, hf⟩ := h.discoverOnce env start
  intro entry hmem htype
  obtain ⟨name, hm₂, hstart⟩ :=
    ((hcurrent.registry.mem_list start).2 entry.content).mp (List.mem_map_of_mem hmem)
  obtain rfl := hcurrent.registry.entryName_eq hm₂
  -- the entry was there, with the same type, when the list was taken
  obtain ⟨seen, hm₁, hseen⟩ := hf.entries _ _ hm₂
  obtain ⟨old, hold, rfl⟩ :=
    List.mem_map.mp (((hinv.mem_list start).2 seen).mpr ⟨_, hm₁, hstart⟩)
  have hattached := names_discoverOnce hok hold (hseen.symm.trans htype)
  rw [hinv.entryName_eq hm₁] at hattached
  obtain ⟨a, ha, hname⟩ := List.mem_map.mp hattached
  have hlinked := hcurrent.linked (entryName entry) fun hnone => nomatch hnone.symm.trans hm₂
  obtain ⟨o, ho⟩ := Option.ne_none_iff_exists'.mp hlinked
  exact ⟨o, ho, a, ha, hname, hcurrent.mapped a ha o (hname ▸ ho)⟩

theorem Current.create {options : CreateOptions} {env : CreateEnv} (h : Current c m)
    (hnew : ∀ o, (c.store.create options env).1 = .ok o → options.name ∉ c.names) :
    ∃ m', Current (c.setStore (c.store.create options env).2) m' := by
  unfold LinkedStore.create at hnew ⊢
  dsimp only at hnew ⊢
  split at hnew
  · exact ⟨m, h⟩
  · rename_i header registry hok
    have hnew := hnew _ rfl
    have hmapped (a : AttachedRing Nat) (ha : a ∈ c.rings) (o : Nat)
        (ho : Function.update c.store.names options.name (some c.store.next) a.name = some o) :
        a.ring = o := by
      refine h.mapped a ha o ?_
      rwa [Function.update_of_ne] at ho
      rintro hname
      exact hnew (hname ▸ List.mem_map_of_mem ha)
    by_cases hname : options.name = registryName
    · obtain ⟨-, -, -, hreg, -⟩ := create_ok hok
      rw [registerCreated, if_pos hname] at hreg
      obtain rfl := Except.ok.inj hreg
      refine ⟨m, h.registry, h.unlisted, fun name hm => ?_, hmapped⟩
      have hne : name ≠ options.name := by
        rintro rfl
        exact hm (hname ▸ h.unlisted)
      show Function.update c.store.names options.name _ name ≠ none
      rw [Function.update_of_ne hne]
      exact h.linked name hm
    · refine ⟨_, create_registered hok h.registry hname, ?_, fun name hm => ?_, hmapped⟩
      · rw [Function.update_of_ne (Ne.symm hname)]
        exact h.unlisted
      · show Function.update c.store.names options.name _ name ≠ none
        by_cases hne : name = options.name
        · rw [hne, Function.update_self]
          exact Option.some_ne_none _
        · rw [Function.update_of_ne hne] at hm ⊢
          exact h.linked name hm

theorem current_drainOnce (h : Current c m) : ∃ m', Current c.drainOnce m' := by
  have hf : ∃ m', c.store.Fades m c.drainOnce.store m' := by
    unfold drainOnce
    dsimp only
    refine List.foldlRecOn (motive := fun store => ∃ m', c.store.Fades m store m') _ _
      ⟨m, .refl h.registry⟩ ?_
    rintro store ⟨m₁, hf⟩ a -
    obtain ⟨m₂, hf'⟩ := LinkedStore.fades_release a.ring false hf.registry
    exact ⟨m₂, hf.trans hf'⟩
  obtain ⟨m', hf⟩ := hf
  exact ⟨m', h.fades hf rfl fun a ha => List.mem_of_mem_filter ha⟩

theorem current_step {c' : Center} {e : CenterCall} (h : Current c m)
    (hs : Guarded ReusesDetached (CallStep start) c e c') : ∃ m', Current c' m' := by
  obtain ⟨hguard, hs⟩ := hs
  cases hs with
  | create => exact h.create hguard
  | destroy =>
    obtain ⟨m', hf⟩ := LinkedStore.fades_destroy _ h.registry h.unlisted
    exact ⟨m', h.setStore hf⟩
  | release =>
    obtain ⟨m', hf⟩ := LinkedStore.fades_release _ _ h.registry
    exact ⟨m', h.setStore hf⟩
  | discover =>
    obtain ⟨-, m₂, -, hcurrent, -⟩ := h.discoverOnce _ start
    exact ⟨m₂, hcurrent⟩
  | drain => exact current_drainOnce h

theorem current_run {calls : List CenterCall}
    (h : Run (Guarded ReusesDetached (CallStep start)) initial calls c) : ∃ m, Current c m :=
  Run.invariant (I := fun _ c => ∃ m, Current c m) ⟨_, current_initial⟩
    (fun _ _ _ _ _ ⟨_, h⟩ hs => current_step h hs) h

/-- Where names are used again only once they are detached, every `discover_once` leaves the
`LogCenter` attached to the objects that are linked. -/
theorem discovery_follows {calls : List CenterCall}
    (h : Run (Guarded ReusesDetached (CallStep start)) initial (calls ++ [.discover env]) c) :
    Follows start c := by
  obtain ⟨c₁, hrun, -, hs⟩ := h.unsnoc
  obtain ⟨m, hcurrent⟩ := current_run hrun
  cases hs with
  | discover hok => exact hcurrent.follows hok

end Proofs

section Reuse

/-- Every object holds an initialised ring. -/
def allReady : DiscoverEnv := readyEnv fun _ => true

/-- One ring created. -/
def oneCreated : Center :=
  initial.setStore (LinkedStore.initial.create (ringOptions 'a') quietEnv).2

theorem discoverOnce_oneCreated : (oneCreated.discoverOnce allReady logStart).1 = .ok () := by
  decide +kernel

/-- The ring destroyed before any pass, and created again. -/
def replaced : Center :=
  let destroyed := oneCreated.setStore (oneCreated.store.destroy (ringOptions 'a').name).2
  destroyed.setStore (destroyed.store.create (ringOptions 'a') quietEnv).2

/-- The second object discovered. -/
def replacedFound : Center := (replaced.discoverOnce allReady logStart).2

/-- Only that one is attached, and its name is refused to a further `create`. -/
theorem discoverOnce_replaced :
    (replaced.discoverOnce allReady logStart).1 = .ok () ∧
    replacedFound.names = [(ringOptions 'a').name] ∧
    replacedFound.rings.map AttachedRing.ring = [1] ∧
    (replacedFound.store.create (ringOptions 'a') quietEnv).1 = .error .alreadyExists := by
  decide +kernel

/-- A `create` that fails, and one under a fresh name. -/
def replacedTwice : Center :=
  let refused := replacedFound.setStore (replacedFound.store.create (ringOptions 'a') quietEnv).2
  refused.setStore (refused.store.create (ringOptions 'b') quietEnv).2

theorem discoverOnce_replacedTwice :
    (replacedTwice.discoverOnce allReady logStart).1 = .ok () ∧
    (replacedTwice.discoverOnce allReady logStart).2.rings.map AttachedRing.ring = [1, 2] := by
  decide +kernel

/-- A ring is destroyed and created again before the `LogCenter` looks; then its name is asked for
once more in vain, and another ring is created next to it. -/
theorem discovery_follows_replaced : ∃ c,
    Run (Guarded ReusesDetached (CallStep logStart)) initial
      ([.create (ringOptions 'a') quietEnv, .destroy (ringOptions 'a').name,
        .create (ringOptions 'a') quietEnv, .discover allReady,
        .create (ringOptions 'a') quietEnv, .create (ringOptions 'b') quietEnv] ++
          [.discover allReady]) c ∧
    c.rings.map AttachedRing.ring = [1, 2] ∧ Follows logStart c := by
  obtain ⟨hfound, hnames, -, hrefused⟩ := discoverOnce_replaced
  obtain ⟨hlast, hrings⟩ := discoverOnce_replacedTwice
  have hcreate (c : Center) (id : Char)
      (h : ∀ o, (c.store.create (ringOptions id) quietEnv).1 = .ok o →
        (ringOptions id).name ∉ c.names) :
      Guarded ReusesDetached (CallStep logStart) c (.create (ringOptions id) quietEnv)
        (c.setStore (c.store.create (ringOptions id) quietEnv).2) :=
    ⟨h, .create rfl⟩
  have hdestroy : Guarded ReusesDetached (CallStep logStart) oneCreated
      (.destroy (ringOptions 'a').name) _ :=
    ⟨trivial, .destroy⟩
  have hdiscover (c : Center) (h : (c.discoverOnce allReady logStart).1 = .ok ()) :
      Guarded ReusesDetached (CallStep logStart) c (.discover allReady)
        (c.discoverOnce allReady logStart).2 :=
    ⟨trivial, .discover h⟩
  have hdestroyed := (Run.single (hcreate initial 'a' fun _ _ => List.not_mem_nil)).snoc
    hdestroy
  have hreplaced := hdestroyed.snoc (hcreate _ 'a' fun _ _ => List.not_mem_nil)
  have hrediscovered := hreplaced.snoc (hdiscover replaced hfound)
  have hother (store : LinkedStore) :
      (ringOptions 'b').name ∉ (replacedFound.setStore store).names := by
    rw [names_setStore, hnames]
    decide
  have hcreated := (hrediscovered.snoc (hcreate replacedFound 'a' fun o ho => by
    rw [hrefused] at ho
    cases ho)).snoc (hcreate _ 'b' fun _ _ => hother _)
  have hrun := hcreated.snoc (hdiscover replacedTwice hlast)
  exact ⟨_, hrun, hrings, discovery_follows hrun⟩

/-- The ring discovered, destroyed, and created again. -/
def recreated : Center :=
  let discovered := (oneCreated.discoverOnce allReady logStart).2
  let destroyed := discovered.setStore (discovered.store.destroy (ringOptions 'a').name).2
  destroyed.setStore (destroyed.store.create (ringOptions 'a') quietEnv).2

/-- What the next `discover_once` leaves. -/
theorem discoverOnce_recreated :
    (recreated.discoverOnce allReady logStart).1 = .ok () ∧
    ((recreated.discoverOnce allReady logStart).2.store.registry.list logStart).map
      (fun entry => (entryName entry, entry.segmentType)) =
        [((ringOptions 'a').name, SegmentType.recordRing.code)] ∧
    (recreated.discoverOnce allReady logStart).2.store.names (ringOptions 'a').name = some 1 ∧
    (recreated.discoverOnce allReady logStart).2.rings.map AttachedRing.ring = [0] := by
  decide +kernel

/-- It finds a ring of that name attached, which still maps the first object. -/
theorem discovery_stale : ∃ c,
    Run (CallStep logStart) initial
      ([.create (ringOptions 'a') quietEnv, .discover allReady, .destroy (ringOptions 'a').name,
        .create (ringOptions 'a') quietEnv] ++ [.discover allReady]) c ∧
    ¬ Follows logStart c := by
  obtain ⟨hok, hlisted, hlinked, hrings⟩ := discoverOnce_recreated
  refine ⟨(recreated.discoverOnce allReady logStart).2, ?_, fun hfollows => ?_⟩
  · have hcreate : CallStep logStart initial (.create (ringOptions 'a') quietEnv) oneCreated :=
      .create rfl
    have hrun := (Run.single hcreate).snoc (.discover discoverOnce_oneCreated)
    exact ((hrun.snoc .destroy).snoc (.create rfl)).snoc (.discover hok)
  · obtain ⟨entry, hmem, hentry⟩ := List.mem_map.mp (hlisted ▸ List.mem_singleton_self _)
    obtain ⟨hname, htype⟩ := Prod.mk.inj hentry
    obtain ⟨o, ho, a, ha, -, rfl⟩ := hfollows entry hmem htype
    rw [hname, hlinked] at ho
    have hring := List.mem_map_of_mem (f := AttachedRing.ring) ha
    rw [hrings, List.mem_singleton, ← Option.some.inj ho] at hring
    cases hring

end Reuse

end Center

end Shmfx
