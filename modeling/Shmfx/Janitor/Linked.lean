import Shmfx.Janitor.Undisturbed
import Shmfx.Security.Downgrade

/-! Shared-memory objects by identity, which outlive their names, under whole calls of `gc`,
`attach`, `create`, `destroy` and the destruction of handles. -/
namespace Shmfx

/-- What each name is linked to, all objects ever made, and the registry. -/
structure LinkedStore where
  names : Name → Option Nat
  objects : Nat → SegmentMemory
  next : Nat
  registry : RegistryPayload
  /-- Linked objects have been made. -/
  made : ∀ {name o}, names name = some o → o < next
  /-- An object is linked under one name only. -/
  alone : ∀ {name name' o}, names name = some o → names name' = some o → name = name'

theorem update_none_eq_some {names : Name → Option Nat} {name name' : Name} {o : Nat} :
    Function.update names name none name' = some o ↔ name' ≠ name ∧ names name' = some o := by
  rw [Function.update_apply]
  split_ifs with h <;> simp [h]

theorem update_some_eq_some {names : Name → Option Nat} {name name' : Name} {o o' : Nat} :
    Function.update names name (some o) name' = some o' ↔
      name' = name ∧ o' = o ∨ name' ≠ name ∧ names name' = some o' := by
  rw [Function.update_apply]
  split_ifs with h <;> simp [h, eq_comm]

namespace LinkedStore

/-- Nothing linked or registered. -/
def initial : LinkedStore :=
  ⟨fun _ => none, fun _ => ⟨0, zeroHeader⟩, 0, zeroPayload, nofun, nofun⟩

/-- What can be reached by name. -/
def view (s : LinkedStore) : SegmentStore :=
  ⟨fun name => (s.names name).map s.objects, s.registry⟩

def setObject (s : LinkedStore) (o : Nat) (object : SegmentMemory) : LinkedStore :=
  { s with objects := Function.update s.objects o object }

def setRegistry (s : LinkedStore) (registry : RegistryPayload) : LinkedStore :=
  { s with registry := registry }

def setRefs (s : LinkedStore) (o : Nat) (n : UInt32) : LinkedStore :=
  s.setObject o { s.objects o with header := { (s.objects o).header with refCount := n } }

def unlink (s : LinkedStore) (name : Name) : LinkedStore :=
  { s with
    names := Function.update s.names name none
    made := fun h => s.made (update_none_eq_some.mp h).2
    alone := fun h h' => s.alone (update_none_eq_some.mp h).2 (update_none_eq_some.mp h').2 }

/-- A new object under a name. -/
def link (s : LinkedStore) (name : Name) (object : SegmentMemory) : LinkedStore where
  names := Function.update s.names name (some s.next)
  objects := Function.update s.objects s.next object
  next := s.next + 1
  registry := s.registry
  made := by
    intro name' o h
    rcases update_some_eq_some.mp h with ⟨-, rfl⟩ | ⟨-, h⟩
    · exact Nat.lt_succ_self _
    · exact Nat.lt_succ_of_lt (s.made h)
  alone := by
    intro name₁ name₂ o h₁ h₂
    rcases update_some_eq_some.mp h₁ with ⟨hname₁, rfl⟩ | ⟨-, hn₁⟩ <;>
      rcases update_some_eq_some.mp h₂ with ⟨hname₂, ho⟩ | ⟨-, hn₂⟩
    · exact hname₁.trans hname₂.symm
    · exact absurd (s.made hn₂) (lt_irrefl _)
    · exact absurd (s.made hn₁) (ho ▸ lt_irrefl s.next)
    · exact s.alone hn₁ hn₂

/-- An action of `gc` on the object the name is linked to. -/
def perform (s : LinkedStore) : GcAction → LinkedStore
  | .setState name state =>
    (s.names name).elim s fun o => s.setObject o ((s.objects o).setState state)
  | .unlink name => s.unlink name
  | .unregister name => s.setRegistry (s.registry.unregister name).2
  | .refresh entry => s.setRegistry (s.registry.registerSegment entry).2

def gc (env : GcEnv) (s : LinkedStore) : LinkedStore :=
  (gcLog env s.view (s.registry.list [])).foldl perform s

/-- `ShmManager::attach` with the object it has mapped. -/
def attach (env : AttachEnv) (name : Name) (mode : AttachMode) (s : LinkedStore) :
    Except ErrorCode Nat × LinkedStore :=
  match parseAndValidateName name with
  | .error e => (.error e, s)
  | .ok _ =>
    let swept := if name = registryName then s else s.gc env.gc
    match swept.names name, attachChecks env name swept.view with
    | _, .error e => (.error e, swept)
    | none, .ok _ => (.error .notFound, swept)
    | some o, .ok object =>
      match mode with
      | .readOnly => (.ok o, swept)
      | .readWrite => (.ok o, swept.setRefs o (object.header.refCount + 1))

/-- `ShmHandle::reset` of a read-write handle. -/
def release (s : LinkedStore) (o : Nat) (owner : Bool) : LinkedStore :=
  let header := (s.objects o).header
  let dropped := s.setRefs o (header.refCount - 1)
  if owner ∧ header.nameView ≠ registryName ∧ header.refCount = 1 ∧
      header.state = SegmentState.draining.code then
    let retired := (dropped.setObject o ((dropped.objects o).setState .dead)).unlink header.nameView
    retired.setRegistry (retired.registry.unregister header.nameView).2
  else dropped

/-- `ShmManager::create`; `O_EXCL` refuses a name that is linked. -/
def create (options : CreateOptions) (env : CreateEnv) (s : LinkedStore) :
    Except ErrorCode Nat × LinkedStore :=
  let os (call : OsCall) :=
    if call = .shmOpen ∧ s.names options.name ≠ none then .error .alreadyExists else env.os call
  match Shmfx.create options { env with os := os } s.registry with
  | .error e => (.error e, s)
  | .ok (header, registry) =>
    (.ok s.next, (s.link options.name ⟨options.totalSize, header⟩).setRegistry registry)

/-- `ShmManager::destroy`. -/
def destroy (name : Name) (s : LinkedStore) : Except ErrorCode Unit × LinkedStore :=
  match parseAndValidateName name with
  | .error e => (.error e, s)
  | .ok _ =>
    if s.names name = none then (.error .notFound, s)
    else if name = registryName then (.ok (), s.unlink name)
    else
      ((s.registry.unregister name).1,
        (s.unlink name).setRegistry (s.registry.unregister name).2)

section Proofs

variable {s : LinkedStore} {name : Name} {o : Nat}

@[simp] theorem view_registry (s : LinkedStore) : s.view.registry = s.registry := rfl

@[simp] theorem names_unlink (s : LinkedStore) (name : Name) :
    (s.unlink name).names = Function.update s.names name none := rfl

@[simp] theorem names_setRegistry (s : LinkedStore) (registry : RegistryPayload) :
    (s.setRegistry registry).names = s.names := rfl

@[simp] theorem registry_setRegistry (s : LinkedStore) (registry : RegistryPayload) :
    (s.setRegistry registry).registry = registry := rfl

theorem view_setObject (h : s.names name = some o) (object : SegmentMemory) :
    (s.setObject o object).view =
      { s.view with names := Function.update s.view.names name (some object) } := by
  refine congrArg (SegmentStore.mk · s.registry) (funext fun name' => ?_)
  rw [Function.update_apply]
  split_ifs with hname
  · rw [hname]
    simp [setObject, h]
  · refine Option.map_congr fun o' ho' => Function.update_of_ne ?_ _ _
    rintro rfl
    exact hname (s.alone ho' h)

/-- The actions by identity are the actions by name. -/
theorem view_perform (s : LinkedStore) (a : GcAction) : (s.perform a).view = a.apply s.view := by
  cases a with
  | setState name state =>
    cases h : s.names name with
    | none => simp [perform, GcAction.apply, view, h]
    | some o =>
      simp only [perform, h, Option.elim_some, view_setObject h, GcAction.apply]
      simp [view, h]
  | unlink name =>
    refine congrArg (SegmentStore.mk · s.registry) (funext fun name' => ?_)
    simp only [perform, unlink, view, Function.update_apply]
    split_ifs <;> rfl
  | unregister =>
    simp only [perform, setRegistry, view, GcAction.apply, SegmentStore.unregister]
  | refresh => simp only [perform, setRegistry, view, GcAction.apply]

theorem view_foldl_perform (as : List GcAction) (s : LinkedStore) :
    (as.foldl perform s).view = as.foldl GcAction.apply s.view := by
  induction as generalizing s with
  | nil => rfl
  | cons a as ih => rw [List.foldl_cons, ih, view_perform, List.foldl_cons]

/-- Seen by name, `gc` is the pass. -/
theorem view_gc (env : GcEnv) (s : LinkedStore) : (s.gc env).view = gcPass env s.view := by
  rw [gc, view_foldl_perform]
  exact gcLog_apply env _ s.view

/-- What a pass leaves under each name. -/
theorem gc_local {m : EntryMap} (env : GcEnv) (h : RegistryInv s.registry m) :
    ∃ m', RegistryInv (s.gc env).registry m' ∧
      ∀ name, (m name = none →
          (s.gc env).view.names name = s.view.names name ∧ m' name = none) ∧
        ∀ entry, m name = some entry →
          (s.gc env).view.names name =
            (verdict env entry (s.view.names name)).objectAfter (s.view.names name) ∧
          m' name = (verdict env entry (s.view.names name)).entryAfter env entry := by
  have hview : RegistryInv s.view.registry m := h
  rw [← view_registry, view_gc]
  exact gcPass_local env hview

theorem names_perform (s : LinkedStore) (a : GcAction) (name : Name) :
    (s.perform a).names name = s.names name ∨ (s.perform a).names name = none := by
  cases a with
  | setState name' =>
    left
    rw [perform]
    cases s.names name' <;> rfl
  | unlink name' =>
    rw [perform, names_unlink, Function.update_apply]
    split_ifs
    · exact .inr rfl
    · exact .inl rfl
  | unregister | refresh => exact .inl rfl

/-- A pass links nothing. -/
theorem names_gc (env : GcEnv) (s : LinkedStore) (name : Name) :
    (s.gc env).names name = s.names name ∨ (s.gc env).names name = none := by
  rw [gc]
  refine List.foldlRecOn (motive := fun s' => s'.names name = s.names name ∨ s'.names name = none)
    _ perform (.inl rfl) ?_
  intro s' h a _
  rcases names_perform s' a name with hkept | hgone
  · rwa [hkept]
  · exact .inr hgone

theorem view_names_eq_none : s.view.names name = none ↔ s.names name = none :=
  Option.map_eq_none_iff

end Proofs

/-- Names have been unlinked and forgotten, if anything. -/
structure Fades (s : LinkedStore) (m : EntryMap) (s' : LinkedStore) (m' : EntryMap) : Prop where
  registry : RegistryInv s'.registry m'
  names : ∀ name, s'.names name = s.names name ∨ s'.names name = none ∧ m' name = none
  entries : ∀ name entry', m' name = some entry' →
    ∃ entry, m name = some entry ∧ entry'.segmentType = entry.segmentType

section Fading

variable {s s' s'' : LinkedStore} {m m' m'' : EntryMap} {name : Name} {o : Nat}

theorem Fades.refl (h : RegistryInv s.registry m) : Fades s m s m :=
  ⟨h, fun _ => .inl rfl, fun _ entry he => ⟨entry, he, rfl⟩⟩

theorem Fades.trans (h : Fades s m s' m') (h' : Fades s' m' s'' m'') : Fades s m s'' m'' := by
  refine ⟨h'.registry, fun name => ?_, fun name entry'' he => ?_⟩
  · rcases h'.names name with hkept | hgone
    · rcases h.names name with hkept' | ⟨hgone, hforgot⟩
      · exact .inl (hkept.trans hkept')
      · refine .inr ⟨hkept.trans hgone, Option.eq_none_iff_forall_not_mem.mpr fun entry he => ?_⟩
        obtain ⟨_, he', -⟩ := h'.entries name entry he
        cases hforgot.symm.trans he'
    · exact .inr hgone
  · obtain ⟨entry', he', htype'⟩ := h'.entries name entry'' he
    obtain ⟨entry, he, htype⟩ := h.entries name entry' he'
    exact ⟨entry, he, htype'.trans htype⟩

theorem Fades.setObject (h : Fades s m s' m') (o : Nat) (object : SegmentMemory) :
    Fades s m (s'.setObject o object) m' :=
  ⟨h.registry, h.names, h.entries⟩

/-- A name unlinked and forgotten. -/
theorem Fades.forget (h : Fades s m s' m') (name : Name) :
    Fades s m ((s'.unlink name).setRegistry (s'.registry.unregister name).2)
      (Function.update m' name none) := by
  refine ⟨?_, fun name' => ?_, fun name' entry he => ?_⟩
  · rw [registry_setRegistry]
    exact h.registry.unregistered name
  · rw [names_setRegistry, names_unlink]
    by_cases hname : name' = name
    · subst hname
      exact .inr ⟨Function.update_self .., Function.update_self ..⟩
    · rw [Function.update_of_ne hname, Function.update_of_ne hname]
      exact h.names name'
  · by_cases hname : name' = name
    · subst hname
      cases (Function.update_self name' none m').symm.trans he
    · rw [Function.update_of_ne hname] at he
      exact h.entries name' entry he

theorem fades_gc (env : GcEnv) (h : RegistryInv s.registry m) : ∃ m', Fades s m (s.gc env) m' := by
  obtain ⟨m', hinv, hlocal⟩ := gc_local env h
  refine ⟨m', hinv, fun name => ?_, fun name entry' he => ?_⟩
  · rcases names_gc env s name with hkept | hgone
    · exact .inl hkept
    · obtain ⟨habsent, hpresent⟩ := hlocal name
      cases hm : m name with
      | none => exact .inr ⟨hgone, (habsent hm).2⟩
      | some entry =>
        obtain ⟨ho, hm'⟩ := hpresent entry hm
        rw [view_names_eq_none.mpr hgone] at ho
        rw [hgone, hm']
        generalize verdict env entry (s.view.names name) = v at ho
        cases v with
        | keep | forget => exact .inl (view_names_eq_none.mp ho.symm).symm
        | drain => exact .inl (view_names_eq_none.mp (Option.map_eq_none_iff.mp ho.symm)).symm
        | collect | reap => exact .inr ⟨rfl, rfl⟩
  · obtain ⟨habsent, hpresent⟩ := hlocal name
    cases hm : m name with
    | none => cases (habsent hm).2.symm.trans he
    | some entry =>
      refine ⟨entry, rfl, ?_⟩
      have hm' := (hpresent entry hm).2.symm.trans he
      generalize verdict env entry (s.view.names name) = v at hm'
      cases v with
      | forget | collect | reap => cases hm'
      | keep | drain =>
        rw [Verdict.entryAfter] at hm'
        rw [← Option.some.inj hm']
        rfl

theorem fades_attach (env : AttachEnv) (name : Name) (mode : AttachMode)
    (h : RegistryInv s.registry m) : ∃ m', Fades s m (s.attach env name mode).2 m' := by
  unfold attach
  cases parseAndValidateName name with
  | error => exact ⟨m, .refl h⟩
  | ok =>
    have hswept : ∃ m', Fades s m (if name = registryName then s else s.gc env.gc) m' := by
      split_ifs
      · exact ⟨m, .refl h⟩
      · exact fades_gc env.gc h
    obtain ⟨m', hswept⟩ := hswept
    refine ⟨m', ?_⟩
    dsimp only
    generalize (if name = registryName then s else s.gc env.gc) = swept at hswept ⊢
    cases attachChecks env name swept.view with
    | error => cases swept.names name <;> exact hswept
    | ok =>
      cases swept.names name with
      | none => exact hswept
      | some o =>
        cases mode with
        | readOnly => exact hswept
        | readWrite => exact hswept.setObject _ _

theorem attach_linked {env : AttachEnv} {mode : AttachMode}
    (h : (s.attach env name mode).1 = .ok o) :
    (s.attach env name mode).2.names name = some o := by
  unfold attach at h ⊢
  cases hparse : parseAndValidateName name with
  | error =>
    rw [hparse] at h
    cases h
  | ok =>
    rw [hparse] at h
    dsimp only at h ⊢
    generalize (if name = registryName then s else s.gc env.gc) = swept at h ⊢
    cases hn : swept.names name <;> cases hchecks : attachChecks env name swept.view <;>
      rw [hn, hchecks] at h
    · cases h
    · cases h
    · cases h
    · cases mode with
      | readOnly => exact hn.trans (congrArg some (Except.ok.inj h))
      | readWrite => exact hn.trans (congrArg some (Except.ok.inj h))

theorem release_attached (s : LinkedStore) (o : Nat) :
    s.release o false = s.setRefs o ((s.objects o).header.refCount - 1) := by
  unfold release
  dsimp only
  rw [if_neg]
  rintro ⟨h, -⟩
  cases h

theorem fades_release (o : Nat) (owner : Bool) (h : RegistryInv s.registry m) :
    ∃ m', Fades s m (s.release o owner) m' := by
  unfold release
  dsimp only
  split_ifs
  · exact ⟨_, (((Fades.refl h).setObject _ _).setObject _ _).forget _⟩
  · exact ⟨m, (Fades.refl h).setObject _ _⟩

theorem fades_destroy (name : Name) (h : RegistryInv s.registry m)
    (hself : m registryName = none) : ∃ m', Fades s m (s.destroy name).2 m' := by
  unfold destroy
  cases parseAndValidateName name with
  | error => exact ⟨m, .refl h⟩
  | ok =>
    dsimp only
    split_ifs with hn hname
    · exact ⟨m, .refl h⟩
    · subst hname
      refine ⟨m, h, fun name' => ?_, fun _ entry he => ⟨entry, he, rfl⟩⟩
      rw [names_unlink]
      by_cases hname : name' = registryName
      · subst hname
        exact .inr ⟨Function.update_self .., hself⟩
      · exact .inl (Function.update_of_ne hname _ _)
    · exact ⟨_, (Fades.refl h).forget name⟩

end Fading

/-- The two stores agree on a name: its object, and its entry. -/
structure SameAt (name : Name) (s : LinkedStore) (m : EntryMap) (s' : LinkedStore) (m' : EntryMap) :
    Prop where
  left : RegistryInv s.registry m
  right : RegistryInv s'.registry m'
  names : s'.names name = s.names name
  view : s'.view.names name = s.view.names name
  entry : m' name = m name

/-- A pass would do nothing to the name. -/
def Settled (env : GcEnv) (name : Name) (s : LinkedStore) (m : EntryMap) : Prop :=
  ∀ entry, m name = some entry → verdict env entry (s.view.names name) = .keep

section Agreement

variable {s s' s'' : LinkedStore} {m m' m'' : EntryMap} {name : Name}

theorem SameAt.refl (h : RegistryInv s.registry m) : SameAt name s m s m :=
  ⟨h, h, rfl, rfl, rfl⟩

theorem SameAt.trans (h : SameAt name s m s' m') (h' : SameAt name s' m' s'' m'') :
    SameAt name s m s'' m'' :=
  ⟨h.left, h'.right, h'.names.trans h.names, h'.view.trans h.view, h'.entry.trans h.entry⟩

theorem SameAt.settled {env : GcEnv} (h : SameAt name s m s' m') (hs : Settled env name s m) :
    Settled env name s' m' := by
  intro entry hm
  rw [h.view]
  exact hs entry (h.entry.symm.trans hm)

/-- What a name is linked to after a pass follows from what can be seen under it. -/
theorem names_gc_eq (env : GcEnv) (s : LinkedStore) (name : Name) :
    (s.gc env).names name = if (s.gc env).view.names name = none then none else s.names name := by
  split_ifs with h
  · exact view_names_eq_none.mp h
  · exact (names_gc env s name).resolve_right fun hgone => h (view_names_eq_none.mpr hgone)

/-- A pass does the same to the name in both stores. -/
theorem SameAt.gc (env : GcEnv) (h : SameAt name s m s' m') :
    ∃ m₁ m₁', SameAt name (s.gc env) m₁ (s'.gc env) m₁' := by
  obtain ⟨m₁, hinv, hlocal⟩ := gc_local env h.left
  obtain ⟨m₁', hinv', hlocal'⟩ := gc_local env h.right
  have hafter : (s'.gc env).view.names name = (s.gc env).view.names name ∧ m₁' name = m₁ name := by
    cases hm : m name with
    | none =>
      obtain ⟨ho, hm₁⟩ := (hlocal name).1 hm
      obtain ⟨ho', hm₁'⟩ := (hlocal' name).1 (h.entry.trans hm)
      exact ⟨ho'.trans (h.view.trans ho.symm), hm₁'.trans hm₁.symm⟩
    | some entry =>
      obtain ⟨ho, hm₁⟩ := (hlocal name).2 entry hm
      obtain ⟨ho', hm₁'⟩ := (hlocal' name).2 entry (h.entry.trans hm)
      rw [ho, ho', hm₁, hm₁', h.view]
      exact ⟨rfl, rfl⟩
  refine ⟨m₁, m₁', hinv, hinv', ?_, hafter.1, hafter.2⟩
  rw [names_gc_eq, names_gc_eq env s, hafter.1, h.names]

/-- A pass leaves a settled name alone. -/
theorem Settled.gc {env : GcEnv} (hs : Settled env name s m) (h : RegistryInv s.registry m) :
    ∃ m₁, SameAt name s m (s.gc env) m₁ := by
  obtain ⟨m₁, hinv, hlocal⟩ := gc_local env h
  have hafter : (s.gc env).view.names name = s.view.names name ∧ m₁ name = m name := by
    cases hm : m name with
    | none => exact (hlocal name).1 hm
    | some entry =>
      obtain ⟨ho, hm₁⟩ := (hlocal name).2 entry hm
      rw [hs entry hm] at ho hm₁
      obtain ⟨i, -, -, rfl⟩ := (h.represents name entry).mp hm
      exact ⟨ho, hm₁⟩
  refine ⟨m₁, h, hinv, ?_, hafter.1, hafter.2⟩
  rw [names_gc_eq, hafter.1]
  split_ifs with hnone
  · exact (view_names_eq_none.mp hnone).symm
  · rfl

/-- After a pass every name is settled. -/
theorem settled_gc (env : GcEnv) (h : RegistryInv s.registry m) :
    ∃ m₁, RegistryInv (s.gc env).registry m₁ ∧ ∀ name, Settled env name (s.gc env) m₁ := by
  obtain ⟨m₁, hinv, hlocal⟩ := gc_local env h
  refine ⟨m₁, hinv, fun name entry' hm₁ => ?_⟩
  cases hm : m name with
  | none => cases ((hlocal name).1 hm).2.symm.trans hm₁
  | some entry =>
    obtain ⟨ho, hentry⟩ := (hlocal name).2 entry hm
    rw [ho]
    exact verdict_settled (hentry.symm.trans hm₁)

/-- An object linked elsewhere, or nowhere, is not seen under the name. -/
theorem SameAt.setObject (h : SameAt name s m s' m') {o : Nat} (ho : s'.names name ≠ some o)
    (object : SegmentMemory) : SameAt name s m (s'.setObject o object) m' := by
  refine ⟨h.left, h.right, h.names, Eq.trans ?_ h.view, h.entry⟩
  refine Option.map_congr fun o' ho' => Function.update_of_ne ?_ _ _
  rintro rfl
  exact ho ho'

theorem SameAt.expectsHmac (h : SameAt name s m s' m') :
    registryExpectsHmac s'.registry name = registryExpectsHmac s.registry name := by
  by_cases hname : name = registryName
  · rw [registryExpectsHmac, if_pos hname, registryExpectsHmac, if_pos hname]
  · cases hm : m name with
    | none =>
      rw [registryExpectsHmac_of_absent h.left hm,
        registryExpectsHmac_of_absent h.right (h.entry.trans hm)]
    | some entry =>
      rw [registryExpectsHmac_of_entry h.left hname hm,
        registryExpectsHmac_of_entry h.right hname (h.entry.trans hm)]

theorem SameAt.attachChecks_eq (env : AttachEnv) (h : SameAt name s m s' m') :
    attachChecks env name s'.view = attachChecks env name s.view := by
  have hexpects := h.expectsHmac
  unfold attachChecks
  rw [h.view, view_registry, view_registry]
  generalize registryExpectsHmac s'.registry name = expects at hexpects ⊢
  subst hexpects
  rfl

/-- `attach` returns the same in both stores, and maps objects with the same header. -/
theorem SameAt.attach (env : AttachEnv) (mode : AttachMode) (h : SameAt name s m s' m') :
    (s'.attach env name mode).1 = (s.attach env name mode).1 ∧
      ∀ o, (s.attach env name mode).1 = .ok o →
        (s'.attach env name mode).2.objects o = (s.attach env name mode).2.objects o := by
  unfold LinkedStore.attach
  cases parseAndValidateName name with
  | error => exact ⟨rfl, nofun⟩
  | ok =>
    have hswept : ∃ m₁ m₁', SameAt name (if name = registryName then s else s.gc env.gc) m₁
        (if name = registryName then s' else s'.gc env.gc) m₁' := by
      split_ifs
      · exact ⟨m, m', h⟩
      · exact h.gc env.gc
    obtain ⟨m₁, m₁', hswept⟩ := hswept
    dsimp only
    generalize (if name = registryName then s else s.gc env.gc) = t at hswept ⊢
    generalize (if name = registryName then s' else s'.gc env.gc) = t' at hswept ⊢
    rw [hswept.names, hswept.attachChecks_eq]
    cases hn : t.names name with
    | none => cases attachChecks env name t.view <;> exact ⟨rfl, nofun⟩
    | some o =>
      have hobject : t'.objects o = t.objects o := by
        have hview := hswept.view
        simp only [LinkedStore.view, hswept.names, hn, Option.map_some] at hview
        exact Option.some.inj hview
      cases attachChecks env name t.view with
      | error => exact ⟨rfl, nofun⟩
      | ok object =>
        cases mode with
        | readOnly =>
          refine ⟨rfl, fun o' ho' => ?_⟩
          obtain rfl := Except.ok.inj ho'
          exact hobject
        | readWrite =>
          refine ⟨rfl, fun o' ho' => ?_⟩
          obtain rfl := Except.ok.inj ho'
          simp only [setRefs, LinkedStore.setObject, Function.update_self, hobject]

/-- `attach` of another name leaves a settled name alone. -/
theorem Settled.attach {env : AttachEnv} {other : Name} (mode : AttachMode)
    (hs : Settled env.gc name s m) (h : RegistryInv s.registry m) (hne : name ≠ other) :
    ∃ m₁, SameAt name s m (s.attach env other mode).2 m₁ := by
  unfold LinkedStore.attach
  cases parseAndValidateName other with
  | error => exact ⟨m, .refl h⟩
  | ok =>
    have hswept : ∃ m₁, SameAt name s m (if other = registryName then s else s.gc env.gc) m₁ := by
      split_ifs
      · exact ⟨m, .refl h⟩
      · exact hs.gc h
    obtain ⟨m₁, hswept⟩ := hswept
    refine ⟨m₁, ?_⟩
    dsimp only
    generalize (if other = registryName then s else s.gc env.gc) = t at hswept ⊢
    cases hn : t.names other with
    | none => cases attachChecks env other t.view <;> exact hswept
    | some o =>
      cases attachChecks env other t.view with
      | error => exact hswept
      | ok object =>
        cases mode with
        | readOnly => exact hswept
        | readWrite => exact hswept.setObject (fun hname => hne (t.alone hname hn)) _

end Agreement

end LinkedStore

end Shmfx
