import Shmfx.Janitor.Objects

/-! Live segments stay linked and registered while acts by name hit what they were decided on. -/
namespace Shmfx

open Lts

universe u

variable {P : Type u} [DecidableEq P] {c d : JanitorConfig P} {s s' : SegmentObject P}
  {actor : Option P} {p : P} {pc pc' : CallPc} {o : Nat} {e : JanitorEvent} {name : Name}
  {m m' : EntryMap}

/-- Live, or on its way to be. -/
def SegmentObject.Kept (s : SegmentObject P) : Prop :=
  (s.phase = .creating ∨ s.phase = .returned) ∧ s.everDead = false ∧ s.destroyed = false

omit [DecidableEq P] in
theorem SegmentObject.Live.kept (h : s.Live) : s.Kept :=
  ⟨.inr h.1, h.2⟩

omit [DecidableEq P] in
theorem Evolves.unharmed (h : Evolves actor s s')
    (hs : s'.everDead = false ∧ s'.destroyed = false) :
    s.everDead = false ∧ s.destroyed = false := by
  refine ⟨Bool.eq_false_iff.mpr fun hd => ?_, Bool.eq_false_iff.mpr fun hd => ?_⟩
  · exact Bool.false_ne_true (hs.1.symm.trans (h.everDead hd))
  · exact Bool.false_ne_true (hs.2.symm.trans (h.destroyed hd))

omit [DecidableEq P] in
theorem Evolves.kept (h : Evolves actor s s') (hs : s'.Kept) : s.Kept := by
  refine ⟨?_, h.unharmed hs.2⟩
  rcases h.phase with hph | ⟨hph, -⟩
  · rw [← hph]
    exact hs.1
  · exact .inl hph

def Linked (c : JanitorConfig P) : Prop :=
  ∀ o, (c.objects o).Kept → c.names (c.nameOf o) = some o

def Entered (c : JanitorConfig P) : Prop :=
  ∀ o, (c.objects o).Live → c.nameOf o ≠ registryName →
    ∃ seen, c.registry (c.nameOf o) = some ((c.objects o).entry seen)

/-- An unlink decided on one object never hits another that is kept. -/
theorem names_kept (hs : Guarded ActsOnDecided JanitorStep c e d) (ht : Tracks c)
    (hn : c.names name = some o) (hname : c.nameOf o = name) (hc : (c.objects o).Kept)
    (hd : (d.objects o).Kept) : d.names name = some o := by
  obtain ⟨hok, hs⟩ := hs
  cases hs with
  | @createOpen p options env hp hnone =>
    have hne : name ≠ options.name := by
      rintro rfl
      exact absurd (hnone.symm.trans hn) (by simp)
    exact (Function.update_of_ne hne _ _).trans hn
  | @unlink p name' basis pc hu =>
    have hne : name ≠ name' := by
      rintro rfl
      obtain rfl : basis = o := by simpa using hok o hn
      rcases (unlinks_knows hu (ht.threads p)).2 with hdead | hfailed
      · exact Bool.false_ne_true (hc.2.1.symm.trans hdead)
      · rcases hc.1 with hph | hph <;> exact absurd (hph.symm.trans hfailed) (by decide)
    exact (Function.update_of_ne hne _ _).trans hn
  | @destroy p name' o' =>
    have hne : name ≠ name' := by
      rintro rfl
      have hb : (c.objects o).phase ≠ .absent := by rcases hc.1 with hph | hph <;> simp [hph]
      have hdes := destroyed_markDestroyed (c := c.unlink name) hb hname
      exact Bool.false_ne_true (hd.2.2.symm.trans hdes)
    exact (Function.update_of_ne hne _ _).trans hn
  | @crash p =>
    cases hheld : (c.threads p).lockHeld <;> exact hn
  | _ => exact hn

theorem linked_step (hs : Guarded ActsOnDecided JanitorStep c e d) (ht : Tracks c)
    (h : Linked c) : Linked d := by
  intro o hd
  obtain ⟨actor, hev⟩ := janitorStep_evolves hs.2 ht
  rcases hev o with he | ⟨rfl, options, rfl⟩
  · have hc := he.kept hd
    have hname : d.nameOf o = c.nameOf o := congrArg CreateOptions.name he.options
    rw [hname]
    exact names_kept hs ht (h o hc) rfl hc hd
  · obtain ⟨-, hs⟩ := hs
    cases hs with
    | createOpen =>
      simp [JanitorConfig.nameOf, JanitorConfig.setThread, JanitorConfig.make,
        JanitorConfig.setObject, JanitorConfig.link, newObject]

theorem mapStep_register_of_ne {entry : RegistryEntry} {r : RegistryReply}
    (h : MapStep m (.register entry, r) m') (hne : name ≠ entryName entry) : m' name = m name := by
  cases h with
  | insert => exact Function.update_of_ne hne _ _
  | full => rfl

theorem mapStep_unregister_of_ne {name' : Name} {r : RegistryReply}
    (h : MapStep m (.unregister name', r) m') (hne : name ≠ name') : m' name = m name := by
  cases h with
  | delete => exact Function.update_of_ne hne _ _
  | absent => rfl

omit [DecidableEq P] in
/-- The entry of a written object is registered under its own name. -/
theorem HeaderInv.createEntry_eq (h : HeaderInv s) (hw : s.Written) :
    createEntry s.options s.env s.header = s.entry s.env.seenNs ∧
      entryName (s.entry s.env.seenNs) = s.options.name := by
  have hsame : s.header = _ := h.written hw
  constructor
  · rw [hsame]
    rfl
  · exact (h.sound_of_written hw).name

/-- A registry write decided on one object never hits the entry of another that is live. -/
theorem registry_kept (hs : Guarded ActsOnDecided JanitorStep c e d) (ht : Tracks c)
    (hl : Linked c) (hc : (c.objects o).Live) :
    d.registry (c.nameOf o) = c.registry (c.nameOf o) := by
  obtain ⟨hok, hs⟩ := hs
  have hlinked := hl o hc.kept
  cases hs with
  | @createRegister p o' m hp hw hn hm =>
    obtain ⟨heq, hname⟩ := (ht.objects o').createEntry_eq hw
    refine mapStep_register_of_ne hm fun hent => ?_
    have hsame : c.nameOf o = c.nameOf o' := hent.trans ((congrArg entryName heq).trans hname)
    have hk := ht.threads p
    rw [hp] at hk
    obtain rfl : o' = o := by simpa using hok o (hsame ▸ hlinked)
    exact absurd (hk.1.symm.trans hc.1) (by decide)
  | @unregister p name basis pc m r hu hm =>
    refine mapStep_unregister_of_ne hm ?_
    rintro rfl
    rcases (unregisters_knows hu (ht.threads p)).2 o (hok o hlinked) with hdead | hdes
    · exact Bool.false_ne_true (hc.2.1.symm.trans hdead)
    · exact Bool.false_ne_true (hc.2.2.symm.trans hdes)
  | @gcRefresh p now entry entries o' m r hp hm =>
    refine mapStep_register_of_ne hm fun hsame => ?_
    have hk := ht.threads p
    rw [hp] at hk
    obtain rfl : o' = o := by simpa using hok o (hsame ▸ hlinked)
    exact Bool.false_ne_true (hc.2.1.symm.trans hk.2)
  | @crash p =>
    cases hheld : (c.threads p).lockHeld <;> rfl
  | _ => rfl

omit [DecidableEq P] in
theorem objectStep_returned (h : ObjectStep c o pc s pc') (hs : s.phase = .returned) :
    (c.objects o).phase = .returned := by
  cases h with
  | createFail | createRefused => cases hs
  | _ => exact hs

omit [DecidableEq P] in
theorem returned_update {objects : Nat → SegmentObject P} {o' : Nat}
    (h : (Function.update objects o' s o).phase = .returned) :
    (objects o).phase = .returned ∨ o = o' ∧ s.phase = .returned := by
  by_cases ho : o = o'
  · subst ho
    rw [Function.update_self] at h
    exact .inr ⟨rfl, h⟩
  · rw [Function.update_of_ne ho] at h
    exact .inl h

/-- A segment becomes live by the return of its `create`, with its entry registered. -/
theorem returned_step (hs : JanitorStep c e d) (ht : Tracks c)
    (hd : (d.objects o).phase = .returned) :
    (c.objects o).phase = .returned ∨ c.nameOf o = registryName ∨
      ∃ seen, d.registry (c.nameOf o) = some ((c.objects o).entry seen) := by
  cases hs with
  | object hs =>
    rcases returned_update hd with hold | ⟨rfl, hnew⟩
    · exact .inl hold
    · exact .inl (objectStep_returned hs hnew)
  | createOpen =>
    rcases returned_update hd with hold | ⟨-, hnew⟩
    · exact .inl hold
    · cases hnew
  | @createRegister p o' m hp hw hn hm =>
    rcases returned_update hd with hold | ⟨rfl, -⟩
    · exact .inl hold
    · obtain ⟨heq, hname⟩ := (ht.objects o).createEntry_eq hw
      rw [heq] at hm
      refine .inr (.inr ⟨(c.objects o).env.seenNs, ?_⟩)
      cases hm with
      | insert =>
        show Function.update c.registry _ _ _ = _
        rw [hname, JanitorConfig.nameOf, Function.update_self]
        rfl
  | createReturn hp hw hn =>
    rcases returned_update hd with hold | ⟨rfl, -⟩
    · exact .inl hold
    · exact .inr (.inl hn)
  | destroy =>
    left
    have hd : (ite _ _ _ : SegmentObject P).phase = .returned := hd
    split_ifs at hd <;> exact hd
  | @crash p =>
    cases hheld : (c.threads p).lockHeld with
    | none =>
      rw [hheld] at hd
      exact .inl hd
    | some o' =>
      rw [hheld] at hd
      rcases returned_update hd with hold | ⟨rfl, hnew⟩
      · exact .inl hold
      · exact .inl hnew
  | beat =>
    rcases returned_update hd with hold | ⟨rfl, hnew⟩
    · exact .inl hold
    · exact .inl hnew
  | _ => exact .inl hd

theorem entered_step (hs : Guarded ActsOnDecided JanitorStep c e d) (ht : Tracks c)
    (hl : Linked c) (h : Entered c) : Entered d := by
  intro o hd hne
  obtain ⟨actor, hev⟩ := janitorStep_evolves hs.2 ht
  rcases hev o with he | ⟨rfl, options, rfl⟩
  · have hname : d.nameOf o = c.nameOf o := congrArg CreateOptions.name he.options
    have hentry : (d.objects o).entry = (c.objects o).entry := by
      funext seen
      rw [SegmentObject.entry, SegmentObject.entry, he.options, he.env]
    rw [hname] at hne ⊢
    rw [hentry]
    rcases returned_step hs.2 ht hd.1 with hold | hreg | hnew
    · have hc : (c.objects o).Live := ⟨hold, he.unharmed hd.2⟩
      rw [registry_kept hs ht hl hc]
      exact h o hc hne
    · exact absurd hreg hne
    · exact hnew
  · obtain ⟨-, hs⟩ := hs
    cases hs with
    | createOpen =>
      rcases returned_update hd.1 with hold | ⟨-, hnew⟩
      · exact absurd ((ht.unborn _ (Nat.le_refl _)).phase.symm.trans hold) (by decide)
      · cases hnew

theorem janitor_run {processes : ProcessTable} {clock : UInt64} {as : List JanitorEvent}
    (hr : Run (Guarded ActsOnDecided JanitorStep) (.initial processes clock) as c) :
    Linked c ∧ Entered c := by
  have hall : Tracks c ∧ Named c ∧ Linked c ∧ Entered c := by
    refine hr.invariant (I := fun _ c => Tracks c ∧ Named c ∧ Linked c ∧ Entered c) ?_ ?_
    · refine ⟨tracks_initial processes clock, nofun, ?_, ?_⟩
      · rintro o ⟨hph | hph, -⟩ <;> cases hph
      · rintro o ⟨hph, -⟩
        cases hph
    · rintro _ c e d - ⟨ht, hn, hl, he⟩ hs
      exact ⟨tracks_step hs hn ht, named_step hs.2 ht hn, linked_step hs ht hl,
        entered_step hs ht hl he⟩
  exact hall.2.2

/-- Whatever it was decided on, a removal that meets a live segment's name harms it. -/
theorem removal_harms (hs : JanitorStep c e d) (he : e.Removes (c.nameOf o))
    (hl : (c.objects o).Live) (hne : c.nameOf o ≠ registryName) : ¬ LiveKept d := by
  intro hkept
  cases hs with
  | unlink =>
    obtain rfl : _ = c.nameOf o := he
    have hlinked : Function.update c.names (c.nameOf o) none (c.nameOf o) = some o :=
      (hkept o hl).1
    rw [Function.update_self] at hlinked
    cases hlinked
  | @unregister p name basis pc m r hu hm =>
    obtain rfl : name = c.nameOf o := he
    obtain ⟨seen, hentry⟩ : ∃ seen, m (c.nameOf o) = some _ := (hkept o hl).2 hne
    cases hm with
    | delete =>
      rw [Function.update_self] at hentry
      cases hentry
    | absent hnone => exact absurd (hnone.symm.trans hentry) (by simp)
  | _ => exact he

/-- While a pass opens no half-written object of a live owner and every act by name hits the object
it was decided on, live segments stay linked and registered as created; an unlink or unregister
that hits a live segment's name does not leave it so. -/
theorem live_never_collected (processes : ProcessTable) (clock : UInt64) :
    (∀ (as : List JanitorEvent) (c : JanitorConfig P),
      Run (Guarded ActsOnDecided JanitorStep) (.initial processes clock) as c → LiveKept c) ∧
    ∀ (c d : JanitorConfig P) (e : JanitorEvent) (o : Nat), JanitorStep c e d →
      e.Removes (c.nameOf o) → (c.objects o).Live → c.nameOf o ≠ registryName → ¬ LiveKept d := by
  refine ⟨fun as c hr => ?_, fun c d e o => removal_harms⟩
  obtain ⟨hl, he⟩ := janitor_run hr
  exact fun o ho => ⟨hl o ho.kept, he o ho⟩

section Examples

variable (c p) (options : CreateOptions) (env : CreateEnv)

/-- The object of a `create` that has made `n` stores. -/
def builtObject (n : Nat) : SegmentObject P :=
  { newObject options env p with
    truncated := true
    done := n
    header := storedHeader options env n }

/-- The system with a thread creating `s`. -/
def JanitorConfig.building (s : SegmentObject P) : JanitorConfig P :=
  (c.make s).setThread p (.creating c.next)

/-- The system after a `create` that nobody disturbed. -/
def JanitorConfig.created : JanitorConfig P :=
  ((c.setRegistry (Function.update c.registry options.name
      (some ((builtObject p options env 20).entry env.seenNs)))).make
    { builtObject p options env 20 with phase := .returned }).setThread p (.holding c.next true)

theorem created_names : (c.created p options env).names options.name = some c.next :=
  Function.update_self ..

theorem created_registry : (c.created p options env).registry options.name =
    some ((builtObject p options env 20).entry env.seenNs) :=
  Function.update_self ..

variable {c p options env}

theorem building_step {s s' : SegmentObject P}
    (h : ObjectStep (c.building p s) c.next (.creating c.next) s' (.creating c.next))
    (ho : s'.options = s.options) : JanitorStep (c.building p s) .call (c.building p s') := by
  have hp : (c.building p s).threads p = .creating c.next := Function.update_self ..
  rw [← hp] at h
  have hs := JanitorStep.object h
  rw [hp] at hs
  simpa [JanitorConfig.building, JanitorConfig.setObject, JanitorConfig.setThread,
    JanitorConfig.make, JanitorConfig.link, ho] using hs

/-- The owner is alive at every store of `create`. -/
def AliveThroughout (c : JanitorConfig P) (options : CreateOptions) (env : CreateEnv) : Prop :=
  ∀ n ≤ 20, (storedHeader options env n).ownerPid ≠ 0 →
    ownerIsDead c.processes (storedHeader options env n) c.clock = false

theorem stores_run (ha : AliveThroughout c options env) {n : Nat} (hn : n ≤ 20) :
    ∃ as, Run (Guarded ActsOnDecided JanitorStep) (c.building p (builtObject p options env 0)) as
      (c.building p (builtObject p options env n)) := by
  induction n with
  | zero => exact ⟨[], .nil⟩
  | succ n ih =>
    obtain ⟨as, hr⟩ := ih (by omega)
    have hlen : n < (headerStores options env).length := by
      show n < 20
      omega
    have hf := List.getElem?_eq_getElem hlen
    have hobserved : ((builtObject p options env n).store (headerStores options env)[n]).observe
        c.processes c.clock = builtObject p options env (n + 1) := by
      have hh := storedHeader_succ hf
      have hdead : ((storedHeader options env (n + 1)).ownerPid != 0 &&
          ownerIsDead c.processes (storedHeader options env (n + 1)) c.clock) = false := by
        by_cases hpid : (storedHeader options env (n + 1)).ownerPid = 0
        · simp [hpid]
        · simp [ha (n + 1) hn hpid]
      rw [hh] at hdead
      simp [SegmentObject.observe, SegmentObject.store, builtObject, newObject, blankObject, hh,
        hdead]
    have hobj : (c.building p (builtObject p options env n)).objects c.next =
      builtObject p options env n := Function.update_self ..
    have hstore := ObjectStep.createStore (c := c.building p (builtObject p options env n))
      (o := c.next) (f := (headerStores options env)[n]) (by rw [hobj]; rfl) (by rwa [hobj])
    rw [hobj] at hstore
    have hstep : ObjectStep (c.building p (builtObject p options env n)) c.next (.creating c.next)
      (builtObject p options env (n + 1)) (.creating c.next) := hobserved ▸ hstore
    have hnext : Guarded ActsOnDecided JanitorStep (c.building p (builtObject p options env n))
      .call (c.building p (builtObject p options env (n + 1))) :=
        ⟨trivial, building_step hstep rfl⟩
    exact ⟨_, hr.snoc hnext⟩

/-- Nothing stands in the way of a `create`. -/
structure CreateReady (c : JanitorConfig P) (p : P) (options : CreateOptions) (env : CreateEnv) :
    Prop where
  idle : c.threads p = .idle
  parsed : ∃ parsed, parseAndValidateName options.name = .ok parsed
  secure : ∃ existing, MapStep c.registry (.list [], .listed existing) c.registry ∧
    validateCreateSecurity options existing = .ok ()
  layout : checkLayout options = .ok ()
  fits : options.metaSize.toNat + 256 < 2 ^ 64
  pid : env.pid ≠ 0
  free : c.names options.name = none
  room : c.registry.size < maxRegistryEntries
  other : options.name ≠ registryName
  alive : AliveThroughout c options env

theorem building_register (h : CreateReady c p options env) :
    JanitorStep (c.building p (builtObject p options env 20)) (.registered options.name c.next)
      (c.created p options env) := by
  obtain ⟨parsed, hparse⟩ := h.parsed
  have hname : entryName ((builtObject p options env 20).entry env.seenNs) = options.name :=
    fixedNameView_of_parsed hparse
  have hinsert : MapStep c.registry
      (.register ((builtObject p options env 20).entry env.seenNs), .done none) _ :=
    .insert (.inr h.room)
  have hobj : (c.building p (builtObject p options env 20)).objects c.next =
    builtObject p options env 20 := Function.update_self ..
  have hreg := JanitorStep.createRegister (c := c.building p (builtObject p options env 20))
    (p := p) (o := c.next) (Function.update_self ..) (by rw [hobj]; rfl)
    (by rw [JanitorConfig.nameOf, hobj]; exact h.other) (by rw [hobj]; exact hinsert)
  have hcontent : ((builtObject p options env 20).entry env.seenNs).content =
    (builtObject p options env 20).entry env.seenNs := rfl
  have hoptions : (builtObject p options env 20).options = options := rfl
  rw [hname, hcontent, JanitorConfig.nameOf, hobj] at hreg
  simpa [hoptions, JanitorConfig.created, JanitorConfig.building, JanitorConfig.setObject,
    JanitorConfig.setThread, JanitorConfig.setRegistry, JanitorConfig.make, JanitorConfig.link]
    using hreg

theorem create_alone (h : CreateReady c p options env) :
    ∃ as, Run (Guarded ActsOnDecided JanitorStep) c as (c.created p options env) := by
  obtain ⟨parsed, hparse⟩ := h.parsed
  obtain ⟨existing, hlist, hsec⟩ := h.secure
  have hcheck : CallRead c (c.threads p) (.admitted options) := by
    rw [h.idle]
    exact .createCheck hparse hlist hsec h.layout
  have h₁ : Guarded ActsOnDecided JanitorStep c .call (c.setThread p (.admitted options)) :=
    ⟨trivial, .read hcheck⟩
  have h₂ : Guarded ActsOnDecided JanitorStep (c.setThread p (.admitted options))
      (.created options) (c.building p (newObject options env p)) := by
    refine ⟨h.fits, ?_⟩
    have hopen := JanitorStep.createOpen (c := c.setThread p (.admitted options)) (p := p)
      (Function.update_self ..) h.free h.pid
    simpa [JanitorConfig.building, JanitorConfig.setObject, JanitorConfig.setThread,
      JanitorConfig.make, JanitorConfig.link] using hopen
  have hobj : (c.building p (newObject options env p)).objects c.next = newObject options env p :=
    Function.update_self ..
  have htruncate := ObjectStep.createTruncate (c := c.building p (newObject options env p))
    (o := c.next) (by rw [hobj]; rfl)
  rw [hobj] at htruncate
  have h₃ : Guarded ActsOnDecided JanitorStep (c.building p (newObject options env p)) .call
      (c.building p (builtObject p options env 0)) := ⟨trivial, building_step htruncate rfl⟩
  obtain ⟨as, hr⟩ := stores_run h.alive (p := p) (Nat.le_refl 20)
  have h₄ : Guarded ActsOnDecided JanitorStep (c.building p (builtObject p options env 20))
      (.registered options.name c.next) (c.created p options env) := by
    refine ⟨fun o ho => ?_, building_register h⟩
    have hlinked : Function.update c.names options.name (some c.next) options.name = some o := ho
    simpa using hlinked
  exact ⟨_, ((((Run.single h₁).snoc h₂).snoc h₃).append hr).snoc h₄⟩

theorem mapStep_list_single (name : Name) {entry : RegistryEntry} (he : entry.content = entry) :
    MapStep (Function.update (fun _ => none) name (some entry)) (.list [], .listed [entry])
      (Function.update (fun _ => none) name (some entry)) := by
  refine .list (List.nodup_singleton _) fun e => ?_
  constructor
  · intro hmem
    obtain rfl : e = entry := by simpa [he] using hmem
    exact ⟨name, by simp⟩
  · rintro ⟨name', hname, -⟩
    by_cases heq : name' = name
    · simpa [heq, he, eq_comm] using hname
    · simp [heq] at hname

/-- Every process runs, and started at time 1. -/
def quietProcesses : ProcessTable := fun _ => some (some 1)

omit [DecidableEq P] in
theorem quiet_ready (hp : c.threads p = .idle) (hn : c.names (sizedOptions 64).name = none)
    (hr : c.registry = fun _ => none) (hproc : c.processes = quietProcesses) (hc : c.clock = 1) :
    CreateReady c p (sizedOptions 64) quietEnv where
  idle := hp
  parsed := ⟨⟨asciiBytes ['a', 'p', 'p'], asciiBytes ['a'], false⟩, by decide +kernel⟩
  secure := by
    refine ⟨[], .list List.nodup_nil ?_, by decide +kernel⟩
    simp [hr]
  layout := by decide +kernel
  fits := by decide
  pid := by decide
  free := hn
  room := by
    rw [hr, size_empty]
    decide
  other := by decide +kernel
  alive := by
    rw [AliveThroughout, hproc, hc]
    decide +kernel

/-- Its registry entry. -/
def quietEntry : RegistryEntry :=
  (builtObject () (sizedOptions 64) quietEnv 20).entry quietEnv.seenNs

theorem entryName_quietEntry : entryName quietEntry = (sizedOptions 64).name := by
  decide +kernel

theorem not_skipped_quietEntry : ¬ Skipped quietEntry := by
  rw [Skipped, entryName_quietEntry]
  decide +kernel

theorem setThread_setThread (c : JanitorConfig P) (p : P) (pc pc' : CallPc) :
    (c.setThread p pc).setThread p pc' = c.setThread p pc' := by
  simp [JanitorConfig.setThread]

/-- The next read of a thread. -/
theorem read_snoc {as : List JanitorEvent} {c₀ : JanitorConfig P} {pc pc' : CallPc}
    (hr : Run (Guarded ActsOnDecided JanitorStep) c₀ as (c.setThread p pc))
    (h : CallRead (c.setThread p pc) pc pc') :
    Run (Guarded ActsOnDecided JanitorStep) c₀ (as ++ [.call]) (c.setThread p pc') := by
  have hp : (c.setThread p pc).threads p = pc := Function.update_self ..
  rw [← setThread_setThread c p pc pc']
  refine hr.snoc ⟨trivial, .read ?_⟩
  rw [hp]
  exact h

/-- What a pass does with the only segment there is depends on what it has read. -/
theorem sweep_run {entry : RegistryEntry} {o : Nat} {next : Option SweepPc}
    (hp : c.threads p = .idle)
    (hlist : MapStep c.registry (.list [], .listed [entry]) c.registry) (hskip : ¬ Skipped entry)
    (hlinked : c.names (entryName entry) = some o) (hw : (c.objects o).Written)
    (hsize : headerSize ≤ (c.objects o).size)
    (hvalid : janitorHeaderValid (c.objects o).header (c.objects o).size = true)
    (hnext : sweepBranch c.clock entry o (ownerIsDead c.processes (c.objects o).header c.clock)
      (c.objects o).header.refCount (c.objects o).header.state = next) :
    Run (Guarded ActsOnDecided JanitorStep) c
      [.call, .opened o, .call, .call, .call, .call, .call]
      (c.setThread p (sweepTo c.clock entry [] next)) := by
  have hlisted : Run (Guarded ActsOnDecided JanitorStep) c [.call]
      (c.setThread p (.gc c.clock [entry])) := by
    refine .single ⟨trivial, .read ?_⟩
    rw [hp]
    exact .gcList hlist
  have hopened : Run (Guarded ActsOnDecided JanitorStep) c [.call, .opened o]
      (c.setThread p (.sweep c.clock entry [] (.opened o))) := by
    rw [← setThread_setThread c p (.gc c.clock [entry])]
    exact hlisted.snoc ⟨.inl hw, .gcOpen (Function.update_self ..) hskip hlinked⟩
  have hmapped := read_snoc hopened (.gcRead (.map hsize))
  have hjudged := read_snoc (read_snoc hmapped (.gcRead (.valid hvalid))) (.gcRead .judge)
  have hcounted := read_snoc hjudged (.gcRead .count)
  exact hnext ▸ read_snoc hcounted (.gcRead .branch)

/-- A pass opens the segment of a running owner and leaves it. -/
theorem live_never_collected_spared : ∃ (as : List JanitorEvent) (c : JanitorConfig Bool),
    Run (Guarded ActsOnDecided JanitorStep) (.initial quietProcesses 1) as c ∧
      .opened 0 ∈ as ∧ c.threads true = .idle ∧ (c.objects 0).Live ∧ LiveKept c := by
  let c₀ : JanitorConfig Bool := .initial quietProcesses 1
  let c₁ := c₀.created false (sizedOptions 64) quietEnv
  obtain ⟨as, hr⟩ : ∃ as, Run (Guarded ActsOnDecided JanitorStep) c₀ as c₁ :=
    create_alone (quiet_ready rfl rfl rfl rfl rfl)
  have hlinked : c₁.names (entryName quietEntry) = some 0 :=
    entryName_quietEntry ▸ created_names c₀ false (sizedOptions 64) quietEnv
  have hspared := hr.append (sweep_run (c := c₁) (p := true) rfl (mapStep_list_single _ rfl)
    not_skipped_quietEntry hlinked rfl (by decide +kernel) (by decide +kernel)
    (show _ = none by decide +kernel))
  have hrun := read_snoc hspared .gcReturn
  refine ⟨_, _, hrun, by simp, rfl, ⟨rfl, rfl, rfl⟩, ?_⟩
  exact (live_never_collected _ _).1 _ _ hrun

/-- A pass lists a segment that is then destroyed, finds its name unlinked, and is overtaken by a
`create` of the same name: its unregister takes the entry of the new, live segment. -/
theorem stale_pass_unregisters_live : ∃ (as : List JanitorEvent) (c : JanitorConfig (Fin 4)),
    Run JanitorStep (.initial quietProcesses 1) as c ∧ (c.objects 1).Live ∧
      c.nameOf 1 = (sizedOptions 64).name ∧ c.names (c.nameOf 1) = some 1 ∧
      c.registry (c.nameOf 1) = none ∧ ¬ LiveKept c := by
  let name := (sizedOptions 64).name
  let entry := quietEntry
  have hname : entryName entry = name := entryName_quietEntry
  have hne : name ≠ registryName := by decide +kernel
  let c₀ : JanitorConfig (Fin 4) := .initial quietProcesses 1
  let c₁ := c₀.created 0 (sizedOptions 64) quietEnv
  let c₂ := c₁.setThread 1 (.gc 1 [entry])
  let c₃ := ((c₂.unlink name).markDestroyed name).setThread 2 (.destroying name 0)
  let c₄ := (c₃.setRegistry (Function.update c₃.registry name none)).setThread 2 .idle
  let c₅ := c₄.setThread 1 (.sweep 1 entry [] .missing)
  let c₆ := c₅.created 3 (sizedOptions 64) quietEnv
  let c₇ := (c₆.setRegistry (Function.update c₆.registry name none)).setThread 1 (.gc 1 [])
  obtain ⟨as₁, hr₁⟩ : ∃ as, Run (Guarded ActsOnDecided JanitorStep) c₀ as c₁ :=
    create_alone (quiet_ready rfl rfl rfl rfl rfl)
  have h₂ : JanitorStep c₁ .call c₂ := .read (.gcList (mapStep_list_single name rfl))
  have h₃ : JanitorStep c₂ (.destroyed name) c₃ := by
    have hparse : parseAndValidateName name = .ok ⟨asciiBytes ['a', 'p', 'p'], asciiBytes ['a'],
      false⟩ := by decide +kernel
    have hlinked : c₂.names name = some 0 := created_names c₀ 0 (sizedOptions 64) quietEnv
    have hdestroy := JanitorStep.destroy (c := c₂) (p := 2) rfl hparse hlinked
    rwa [if_neg hne] at hdestroy
  have h₄ : JanitorStep c₃ (.unregistered name (some 0)) c₄ := by
    have hentry : c₃.registry name = some entry := created_registry c₀ 0 (sizedOptions 64) quietEnv
    exact .unregister .destroyed (.delete (by simp [hentry]))
  have hnone : c₄.names name = none := by
    show Function.update c₂.names name none name = none
    rw [Function.update_self]
  have h₅ : JanitorStep c₄ .call c₅ := .read (.gcMissing not_skipped_quietEntry (hname ▸ hnone))
  have hempty : c₅.registry = fun _ => none := by
    show Function.update (Function.update c₀.registry name (some entry)) name none = _
    rw [Function.update_idem]
    exact Function.update_eq_self name c₀.registry
  obtain ⟨as₂, hr₂⟩ : ∃ as, Run (Guarded ActsOnDecided JanitorStep) c₅ as c₆ :=
    create_alone (quiet_ready rfl hnone hempty rfl rfl)
  have hentry : c₆.registry name = some _ := created_registry c₅ 3 (sizedOptions 64) quietEnv
  have h₇ : JanitorStep c₆ (.unregistered name none) c₇ := by
    have hu : Unregisters c₆ (c₆.threads 1) (entryName entry) none (.gc 1 []) := .missing
    rw [hname] at hu
    exact .unregister hu (.delete (by simp [hentry]))
  have hlive : (c₆.objects 1).Live := ⟨rfl, rfl, rfl⟩
  have hnamed : c₆.nameOf 1 = name := rfl
  refine ⟨_, c₇, ((((((hr₁.unguard).snoc h₂).snoc h₃).snoc h₄).snoc h₅).append
    hr₂.unguard).snoc h₇, hlive, hnamed, ?_, ?_, ?_⟩
  · exact created_names c₅ 3 (sizedOptions 64) quietEnv
  · show Function.update c₆.registry name none name = none
    rw [Function.update_self]
  · exact removal_harms h₇ hnamed.symm hlive hne

end Examples

end Shmfx
