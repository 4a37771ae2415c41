import Shmfx.Janitor.Model

/-! What threads know of the objects they work on, in runs whose acts hit what they were decided
on. -/
namespace Shmfx

open Lts

universe u

variable {P : Type u} {c d : JanitorConfig P} {s s' : SegmentObject P} {actor : Option P} {p q : P}
  {pc pc' : CallPc} {o : Nat} {e : JanitorEvent}

theorem heartbeatStale_mono {last now later : UInt64} (hle : now ≤ later)
    (h : heartbeatStale last now = true) : heartbeatStale last later = true := by
  unfold heartbeatStale at h ⊢
  split_ifs at h with hlast
  obtain ⟨hzero, hge⟩ := not_or.mp hlast
  have hge' := UInt64.le_trans (UInt64.not_lt.mp hge) hle
  have hsub := UInt64.toNat_sub_of_le _ _ (UInt64.not_lt.mp hge)
  have hsub' := UInt64.toNat_sub_of_le _ _ hge'
  rw [if_neg (not_or.mpr ⟨hzero, UInt64.not_lt.mpr hge'⟩)]
  rw [decide_eq_true_eq, gt_iff_lt, UInt64.lt_iff_toNat_lt] at h ⊢
  rw [UInt64.le_iff_toNat_le] at hle
  omega

/-- A later clock finds dead whatever an earlier one did. -/
theorem ownerIsDead_mono {processes : ProcessTable} {h : ShmHeader} {now later : UInt64}
    (hle : now ≤ later) (hd : ownerIsDead processes h now = true) :
    ownerIsDead processes h later = true := by
  unfold ownerIsDead at hd ⊢
  by_cases hpid : h.ownerPid = 0
  · rw [if_pos hpid]
  · rw [if_neg hpid] at hd ⊢
    cases hproc : processes h.ownerPid with
    | none => rfl
    | some started =>
      rw [hproc] at hd
      dsimp only at hd ⊢
      split_ifs at hd ⊢ with hstart
      · rfl
      · exact heartbeatStale_mono hle hd

/-- The three words others than the creator write. -/
def SameButWords (h h' : ShmHeader) : Prop :=
  h' = { h with
    refCount := h'.refCount
    state := h'.state
    heartbeatLastNs := h'.heartbeatLastNs }

theorem headerStores_sameButWords {options : CreateOptions} {env : CreateEnv}
    {f : ShmHeader → ShmHeader} (hf : f ∈ headerStores options env) {h h' : ShmHeader}
    (hs : SameButWords h h') : SameButWords (f h) (f h') := by
  rw [SameButWords] at hs
  rw [hs]
  simp only [headerStores, List.mem_cons, List.not_mem_nil, or_false] at hf
  rcases hf with rfl | rfl | rfl | rfl | rfl | rfl | rfl | rfl | rfl | rfl | rfl | rfl | rfl | rfl |
    rfl | rfl | rfl | rfl | rfl | rfl <;> rfl

/-- No store of `create` makes a segment DRAINING. -/
theorem headerStores_draining {options : CreateOptions} {env : CreateEnv}
    {f : ShmHeader → ShmHeader} (hf : f ∈ headerStores options env) {h : ShmHeader}
    (hs : (f h).state = SegmentState.draining.code) : h.state = SegmentState.draining.code := by
  simp only [headerStores, List.mem_cons, List.not_mem_nil, or_false] at hf
  rcases hf with rfl | rfl | rfl | rfl | rfl | rfl | rfl | rfl | rfl | rfl | rfl | rfl | rfl | rfl |
    rfl | rfl | rfl | rfl | rfl | rfl
  case inl => exact absurd (show zeroHeader.state = _ from hs) (by decide)
  all_goals first
    | exact hs
    | exact absurd (show SegmentState.active.code = _ from hs) (by decide)

/-- The checks `create` makes before it opens anything. -/
structure Admitted (options : CreateOptions) : Prop where
  name : fixedNameView (copyName options.name) = options.name
  sizes : SizesChecked options

structure Sound (options : CreateOptions) (env : CreateEnv) : Prop extends Admitted options where
  fits : options.metaSize.toNat + 256 < 2 ^ 64
  pid : env.pid ≠ 0

/-- The header after the first `n` stores of `create`. -/
def storedHeader (options : CreateOptions) (env : CreateEnv) (n : Nat) : ShmHeader :=
  ((headerStores options env).take n).foldl (fun h store => store h) zeroHeader

theorem storedHeader_succ {options : CreateOptions} {env : CreateEnv} {n : Nat}
    {f : ShmHeader → ShmHeader} (hf : (headerStores options env)[n]? = some f) :
    storedHeader options env (n + 1) = f (storedHeader options env n) := by
  rw [storedHeader, List.take_add_one, hf, List.foldl_append]
  rfl

/-- How an object's header comes from its `create`. -/
structure HeaderInv (s : SegmentObject P) : Prop where
  sound : s.phase ≠ .absent → Sound s.options s.env
  born : 0 < s.done → s.phase ≠ .absent
  truncated : 0 < s.done → s.truncated = true
  stored : SameButWords (storedHeader s.options s.env s.done) s.header
  draining : s.header.state = SegmentState.draining.code → s.everDead = true

structure ObjectInv (processes : ProcessTable) (clock : UInt64) (s : SegmentObject P) : Prop
    extends HeaderInv s where
  dead : s.header.ownerPid ≠ 0 → ownerIsDead processes s.header clock = true → s.everDead = true

theorem HeaderInv.written (h : HeaderInv s) (hw : s.Written) :
    SameButWords (writeHeader s.options s.env) s.header := by
  have hstored := h.stored
  rw [hw] at hstored
  exact hstored

theorem HeaderInv.sound_of_written (h : HeaderInv s) (hw : s.Written) :
    Sound s.options s.env :=
  h.sound (h.born (by rw [hw]; decide))

/-- A written header passes the janitor. -/
theorem HeaderInv.valid (h : HeaderInv s) (hw : s.Written) :
    janitorHeaderValid s.header s.size = true ∧ headerSize ≤ s.size := by
  have hs := h.sound_of_written hw
  have hvalid := writeHeader_valid s.env hs.sizes hs.fits
  have hjanitor := janitorHeaderValid_iff.mpr hvalid
  have hsame : s.header = _ := h.written hw
  rw [SegmentObject.size, if_pos (h.truncated (by rw [hw]; decide)), hsame]
  exact ⟨hjanitor, UInt64.le_iff_toNat_le.mpr hvalid.header⟩

/-- A written header names its owner, so only a dead one is found dead. -/
theorem ObjectInv.judged {processes : ProcessTable} {clock now : UInt64}
    (h : ObjectInv processes clock s) (hw : s.Written) (hle : now ≤ clock)
    (hd : ownerIsDead processes s.header now = true) : s.everDead = true := by
  have hsame : s.header = _ := h.written hw
  refine h.dead ?_ (ownerIsDead_mono hle hd)
  rw [hsame]
  exact (h.sound_of_written hw).pid

theorem HeaderInv.observe (h : HeaderInv s) (processes : ProcessTable) (clock : UInt64) :
    ObjectInv processes clock (s.observe processes clock) where
  sound := h.sound
  born := h.born
  truncated := h.truncated
  stored := h.stored
  draining hs := by simp [SegmentObject.observe, h.draining hs]
  dead hp hd := by
    have hpid : s.header.ownerPid ≠ 0 := hp
    have hdead : ownerIsDead processes s.header clock = true := hd
    simp [SegmentObject.observe, hpid, hdead]

theorem SameButWords.setWords {h h' : ShmHeader} (hs : SameButWords h h') (rc state : UInt32)
    (beat : UInt64) :
    SameButWords h { h' with refCount := rc, state := state, heartbeatLastNs := beat } := by
  rw [SameButWords] at hs
  rw [hs]
  rfl

theorem ObjectInv.setPhase {processes : ProcessTable} {clock : UInt64}
    (h : ObjectInv processes clock s) (hb : s.phase ≠ .absent) {phase : CreatePhase}
    (hp : phase ≠ .absent) : ObjectInv processes clock { s with phase := phase } :=
  ⟨⟨fun _ => h.sound hb, fun _ => hp, h.truncated, h.stored, h.draining⟩, h.dead⟩

theorem HeaderInv.store (h : HeaderInv s) {f : ShmHeader → ShmHeader} (hb : s.phase ≠ .absent)
    (ht : s.truncated = true) (hf : (headerStores s.options s.env)[s.done]? = some f) :
    HeaderInv (s.store f) where
  sound := h.sound
  born _ := hb
  truncated _ := ht
  stored := by
    show SameButWords (storedHeader s.options s.env (s.done + 1)) (f s.header)
    rw [storedHeader_succ hf]
    exact headerStores_sameButWords (List.mem_of_getElem? hf) h.stored
  draining hs := h.draining (headerStores_draining (List.mem_of_getElem? hf) hs)

/-- Nothing has been stored yet. -/
theorem objectInv_zero {processes : ProcessTable} {clock : UInt64} (hd : s.done = 0)
    (hh : s.header = zeroHeader) (hs : s.phase ≠ .absent → Sound s.options s.env) :
    ObjectInv processes clock s := by
  refine ⟨⟨hs, ?_, ?_, ?_, ?_⟩, ?_⟩
  · exact fun hpos => absurd hpos (by omega)
  · exact fun hpos => absurd hpos (by omega)
  · rw [hd, hh]
    rfl
  · rw [hh]
    exact fun hst => absurd hst (by decide)
  · rw [hh]
    exact fun hpid => absurd rfl hpid

/-- What a step of `actor` can do to an object: flags only rise, and only its creator decides how
a `create` ends. -/
structure Evolves (actor : Option P) (s s' : SegmentObject P) : Prop where
  options : s'.options = s.options
  env : s'.env = s.env
  creator : s'.creator = s.creator
  everDead : s.everDead = true → s'.everDead = true
  destroyed : s.destroyed = true → s'.destroyed = true
  written : s.Written → s'.Written
  phase : s'.phase = s.phase ∨ s.phase = .creating ∧ s.creator = actor ∧ s'.phase ≠ .absent

/-- Not made yet; nothing is known of it. -/
structure Unborn (s : SegmentObject P) : Prop where
  phase : s.phase = .absent
  everDead : s.everDead = false
  destroyed : s.destroyed = false
  done : s.done = 0
  ownerPid : s.header.ownerPid = 0

theorem Evolves.refl (actor : Option P) (s : SegmentObject P) : Evolves actor s s :=
  ⟨rfl, rfl, rfl, id, id, id, .inl rfl⟩

theorem Evolves.setPhase {phase : CreatePhase} (hs : s.phase = .creating)
    (hc : s.creator = actor) (hp : phase ≠ .absent) : Evolves actor s { s with phase := phase } :=
  ⟨rfl, rfl, rfl, id, id, id, .inr ⟨hs, hc, hp⟩⟩

/-- The header is complete, or its owner has died. -/
def SegmentObject.Settled (s : SegmentObject P) : Prop := s.Written ∨ s.everDead = true

/-- What a pass knows of the object it is at. -/
def SweepKnows (objects : Nat → SegmentObject P) : SweepPc → Prop
  | .missing => True
  | .opened o | .mapped o | .valid o => (objects o).Settled
  | .judged o dead | .counted o dead _ =>
    (objects o).Settled ∧ (dead = true → (objects o).everDead = true)
  | .broken o | .locking o | .locked o | .rechecked o | .condemned o | .unlinking o
  | .unregistering o | .unlocking o | .draining o | .refreshing o | .scanning o
  | .zombieUnlinking o | .zombieUnregistering o => (objects o).everDead = true

/-- What a thread knows of the objects its call is about. -/
def Knows (objects : Nat → SegmentObject P) (clock : UInt64) (p : P) : CallPc → Prop
  | .admitted options => Admitted options
  | .creating o => (objects o).phase = .creating ∧ (objects o).creator = some p
  | .failing o | .undoing o => (objects o).phase = .failed
  | .retiring o | .retireUnlinking o | .retireUnregistering o => (objects o).everDead = true
  | .destroying _ o => (objects o).destroyed = true
  | .gc now _ => now ≤ clock
  | .sweep now _ _ pc => now ≤ clock ∧ SweepKnows objects pc
  | .idle | .crashed | .holding .. | .dropped .. | .attaching .. | .checked _ | .bumped _
  | .rollingBack _ => True

/-- An object evolves, or is made at this step. -/
def Changes (actor : Option P) (s s' : SegmentObject P) : Prop := Evolves actor s s' ∨ Unborn s

theorem Changes.everDead (h : Changes actor s s') (hd : s.everDead = true) :
    s'.everDead = true := by
  rcases h with h | h
  · exact h.everDead hd
  · exact absurd hd (by simp [h.everDead])

theorem Changes.settled (h : Changes actor s s') (hs : s.Settled) : s'.Settled := by
  rcases hs with hw | hd
  · rcases h with h | h
    · exact .inl (h.written hw)
    · exact absurd (h.done.symm.trans hw) (by decide)
  · exact .inr (h.everDead hd)

theorem SweepKnows.change {objects objects' : Nat → SegmentObject P} {pc : SweepPc}
    (ho : ∀ o, Changes actor (objects o) (objects' o)) (h : SweepKnows objects pc) :
    SweepKnows objects' pc := by
  cases pc with
  | missing => trivial
  | opened o | mapped o | valid o => exact (ho o).settled h
  | judged o dead | counted o dead rc =>
    exact ⟨(ho o).settled h.1, fun hd => (ho o).everDead (h.2 hd)⟩
  | _ => exact (ho _).everDead h

/-- What one thread knows survives the steps of the others. -/
theorem Knows.change {objects objects' : Nat → SegmentObject P} {clock clock' : UInt64}
    (ho : ∀ o, Changes actor (objects o) (objects' o)) (hc : clock ≤ clock')
    (hp : some p ≠ actor) (h : Knows objects clock p pc) : Knows objects' clock' p pc := by
  cases pc with
  | creating o =>
    rcases ho o with he | hu
    · rcases he.phase with hph | ⟨-, hact, -⟩
      · exact ⟨hph.trans h.1, he.creator.trans h.2⟩
      · exact absurd (h.2.symm.trans hact) hp
    · exact absurd (h.1.symm.trans hu.phase) (by decide)
  | failing o | undoing o =>
    have hf : (objects o).phase = .failed := h
    rcases ho o with he | hu
    · rcases he.phase with hph | ⟨hph, -⟩
      · exact hph.trans hf
      · exact absurd (hf.symm.trans hph) (by decide)
    · exact absurd (hf.symm.trans hu.phase) (by decide)
  | destroying name o =>
    have hd : (objects o).destroyed = true := h
    rcases ho o with he | hu
    · exact he.destroyed hd
    · exact absurd hd (by simp [hu.destroyed])
  | retiring o | retireUnlinking o | retireUnregistering o => exact (ho o).everDead h
  | gc now entries => exact UInt64.le_trans h hc
  | sweep now entry entries pc => exact ⟨UInt64.le_trans h.1 hc, h.2.change ho⟩
  | _ => exact h

/-- The bookkeeping of all objects and threads. -/
structure Tracks (c : JanitorConfig P) : Prop where
  unborn : ∀ o, c.next ≤ o → Unborn (c.objects o)
  objects : ∀ o, ObjectInv c.processes c.clock (c.objects o)
  threads : ∀ p, Knows c.objects c.clock p (c.threads p)

/-- Which object `unregister` may be about: one that is dead or destroyed. -/
theorem unregisters_knows {name : Name} {basis : Option Nat} (h : Unregisters c pc name basis pc')
    (hk : Knows c.objects c.clock p pc) :
    Knows c.objects c.clock p pc' ∧
      ∀ o, basis = some o → (c.objects o).everDead = true ∨ (c.objects o).destroyed = true := by
  cases h with
  | retired | destroyed =>
    refine ⟨trivial, ?_⟩
    rintro o ⟨⟩
    first | exact .inl hk | exact .inr hk
  | missing =>
    refine ⟨hk.1, ?_⟩
    rintro o ⟨⟩
  | broken | zombie =>
    refine ⟨hk.1, ?_⟩
    rintro o ⟨⟩
    exact .inl hk.2
  | collected =>
    refine ⟨hk, ?_⟩
    rintro o ⟨⟩
    exact .inl hk.2

/-- Which object `shm_unlink` may be about: one that is dead or whose `create` has failed. -/
theorem unlinks_knows {name : Name} (h : Unlinks c pc name o pc')
    (hk : Knows c.objects c.clock p pc) :
    Knows c.objects c.clock p pc' ∧
      ((c.objects o).everDead = true ∨ (c.objects o).phase = .failed) := by
  cases h with
  | createFailed | createUndone => exact ⟨trivial, .inr hk⟩
  | retired => exact ⟨hk, .inl hk⟩
  | collected | zombie => exact ⟨hk, .inl hk.2⟩

theorem sweepBranch_knows {now : UInt64} {entry : RegistryEntry} {entries : List RegistryEntry}
    {dead : Bool} {rc : UInt32} (ht : Tracks c) (hle : now ≤ c.clock)
    (hd : dead = true → (c.objects o).everDead = true) :
    Knows c.objects c.clock p
      (sweepTo now entry entries (sweepBranch now entry o dead rc (c.objects o).header.state)) := by
  unfold sweepBranch
  split_ifs with h₁ h₂ h₃
  · exact ⟨hle, hd h₁.1⟩
  · exact ⟨hle, hd h₂.1⟩
  · exact ⟨hle, (ht.objects o).draining h₃.1⟩
  · exact hle

/-- A settled object that a pass finds broken or ownerless has a dead owner. -/
theorem sweepRead_knows {now : UInt64} {entry : RegistryEntry} {entries : List RegistryEntry}
    {pc : SweepPc} {next : Option SweepPc} (h : SweepRead c now entry pc next) (ht : Tracks c)
    (hle : now ≤ c.clock) (hk : SweepKnows c.objects pc) :
    Knows c.objects c.clock p (sweepTo now entry entries next) := by
  cases h with
  | @short o hsize =>
    rcases hk with hw | hd
    · exact absurd hsize (UInt64.not_lt.mpr ((ht.objects o).valid hw).2)
    · exact ⟨hle, hd⟩
  | @invalid o hinvalid =>
    rcases hk with hw | hd
    · exact absurd ((ht.objects o).valid hw).1 (by simp [hinvalid])
    · exact ⟨hle, hd⟩
  | @judge o =>
    refine ⟨hle, hk, ?_⟩
    intro hd
    rcases hk with hw | hdead
    · exact (ht.objects o).judged hw hle hd
    · exact hdead
  | branch => exact sweepBranch_knows ht hle hk.2
  | map | valid | count | recount | busy | rejudge | alive | nowhereMapped => exact ⟨hle, hk⟩
  | mapFailed | lockFailed | stillMapped | refreshFailed => exact hle

theorem callRead_knows (h : CallRead c pc pc') (ht : Tracks c)
    (hk : Knows c.objects c.clock p pc) : Knows c.objects c.clock p pc' := by
  cases h with
  | createCheck hparse hlist hsec hlayout =>
    exact ⟨fixedNameView_of_parsed hparse, sizesChecked_of_ok hsec hlayout⟩
  | @resetRetire o owner last hdrain => exact (ht.objects o).draining hdrain.2.2.2
  | gcList => exact UInt64.le_refl _
  | gcSkip | gcOpenFailed => exact hk
  | gcMissing => exact ⟨hk, trivial⟩
  | gcRead hread => exact sweepRead_knows hread ht hk.1 hk.2
  | unregisterFailed hun => exact (unregisters_knows hun hk).1
  | _ => trivial

theorem Evolves.update {objects : Nat → SegmentObject P} (h : Evolves actor (objects o) s)
    (o' : Nat) : Evolves actor (objects o') (Function.update objects o s o') := by
  by_cases ho : o' = o
  · subst ho
    simpa using h
  · simpa [ho] using Evolves.refl actor (objects o')

theorem objectStep_evolves (h : ObjectStep c o pc s pc') (hk : Knows c.objects c.clock p pc) :
    Evolves (some p) (c.objects o) s := by
  cases h with
  | @createStore f _ hf =>
    refine ⟨rfl, rfl, rfl, ?_, id, ?_, .inl rfl⟩
    · intro hd
      exact Bool.or_eq_true_iff.mpr (.inl hd)
    · intro hw
      rw [hw] at hf
      cases hf
  | createFail | createRefused => exact .setPhase hk.1 hk.2 (by decide)
  | _ => exact ⟨rfl, rfl, rfl, id, id, id, .inl rfl⟩

/-- An object step of a thread that is not creating leaves its own object as it is known. -/
theorem objectStep_inv (h : ObjectStep c o pc s pc') (ht : Tracks c)
    (hk : Knows c.objects c.clock p pc) :
    ObjectInv c.processes c.clock s ∧ (Unborn (c.objects o) → Unborn s) := by
  have hi := ht.objects o
  have hlive : ∀ {n st}, (st = SegmentState.draining.code → (c.objects o).everDead = true) →
      ObjectInv c.processes c.clock { c.objects o with
        header := { (c.objects o).header with refCount := n, state := st } } :=
    fun hd => ⟨⟨hi.sound, hi.born, hi.truncated, hi.stored.setWords _ _ _, hd⟩, hi.dead⟩
  cases h with
  | createTruncate =>
    refine ⟨⟨⟨hi.sound, hi.born, fun _ => rfl, hi.stored, hi.draining⟩, hi.dead⟩, ?_⟩
    intro hu
    exact ⟨hu.phase, hu.everDead, hu.destroyed, hu.done, hu.ownerPid⟩
  | createStore htr hf =>
    have hb : (c.objects o).phase ≠ .absent := by simp [hk.1]
    exact ⟨(hi.store hb htr hf).observe _ _, fun hu => absurd hu.phase hb⟩
  | createFail | createRefused =>
    have hb : (c.objects o).phase ≠ .absent := by simp [hk.1]
    exact ⟨hi.setPhase hb (by decide), fun hu => absurd hu.phase hb⟩
  | attachBump | attachRollback | resetDrop =>
    exact ⟨hlive hi.draining, fun hu => ⟨hu.phase, hu.everDead, hu.destroyed, hu.done, hu.ownerPid⟩⟩
  | resetRetire | gcCondemn =>
    exact ⟨hlive (fun hd => absurd hd (by decide)),
      fun hu => ⟨hu.phase, hu.everDead, hu.destroyed, hu.done, hu.ownerPid⟩⟩
  | gcDrain =>
    exact ⟨hlive (fun _ => hk.2),
      fun hu => ⟨hu.phase, hu.everDead, hu.destroyed, hu.done, hu.ownerPid⟩⟩
  | gcDrainLost => exact ⟨hi, id⟩
  | gcLock | gcUnlock =>
    exact ⟨⟨⟨hi.sound, hi.born, hi.truncated, hi.stored, hi.draining⟩, hi.dead⟩,
      fun hu => ⟨hu.phase, hu.everDead, hu.destroyed, hu.done, hu.ownerPid⟩⟩

theorem objectStep_knows (h : ObjectStep c o pc s pc') (hk : Knows c.objects c.clock p pc) :
    Knows (Function.update c.objects o s) c.clock p pc' := by
  have hchange := fun o' => Changes.everDead (.inl ((objectStep_evolves h hk).update o'))
  cases h with
  | createTruncate | createStore =>
    show (Function.update c.objects o _ o).phase = _ ∧ (Function.update c.objects o _ o).creator = _
    rw [Function.update_self]
    exact hk
  | createFail | createRefused =>
    show (Function.update c.objects o _ o).phase = _
    rw [Function.update_self]
  | attachBump | attachRollback | resetDrop => trivial
  | resetRetire => exact hchange o hk
  | gcUnlock => exact hk.1
  | gcLock | gcCondemn | gcDrain | gcDrainLost => exact ⟨hk.1, hchange o hk.2⟩

theorem Evolves.observe (actor : Option P) (s : SegmentObject P) (processes : ProcessTable)
    (clock : UInt64) : Evolves actor s (s.observe processes clock) :=
  ⟨rfl, rfl, rfl, fun hd => Bool.or_eq_true_iff.mpr (.inl hd), id, id, .inl rfl⟩

theorem evolves_beat (actor : Option P) (s : SegmentObject P) (now : UInt64)
    (processes : ProcessTable) (clock : UInt64) :
    Evolves actor s ((s.beat now).observe processes clock) :=
  ⟨rfl, rfl, rfl, (Evolves.observe actor (s.beat now) processes clock).everDead, id, id, .inl rfl⟩

theorem Unborn.observe (h : Unborn s) (processes : ProcessTable) (clock : UInt64) :
    Unborn (s.observe processes clock) :=
  ⟨h.phase, by simp [SegmentObject.observe, h.everDead, h.ownerPid], h.destroyed, h.done,
    h.ownerPid⟩

theorem evolves_release (actor : Option P) (c : JanitorConfig P) (held : Option Nat) (o : Nat) :
    Evolves actor (c.objects o) ((c.release held).objects o) := by
  cases held with
  | none => exact .refl _ _
  | some o' =>
    have hfree : Evolves actor (c.objects o') { c.objects o' with locked := false } :=
      ⟨rfl, rfl, rfl, id, id, id, .inl rfl⟩
    exact hfree.update o

theorem evolves_markDestroyed (actor : Option P) (c : JanitorConfig P) (name : Name) (o : Nat) :
    Evolves actor (c.objects o) ((c.markDestroyed name).objects o) := by
  unfold JanitorConfig.markDestroyed
  dsimp only
  split_ifs
  · exact ⟨rfl, rfl, rfl, id, fun _ => rfl, id, .inl rfl⟩
  · exact .refl _ _

variable [DecidableEq P]

/-- Every step changes objects as its thread may, and makes at most the next one. -/
theorem janitorStep_evolves (hs : JanitorStep c e d) (h : Tracks c) :
    ∃ actor, ∀ o, Evolves actor (c.objects o) (d.objects o) ∨
      o = c.next ∧ ∃ options, e = .created options := by
  cases hs with
  | @object p o s pc hs =>
    exact ⟨some p, fun o' => .inl ((objectStep_evolves hs (h.threads p)).update o')⟩
  | @createOpen p options env =>
    refine ⟨some p, fun o => ?_⟩
    by_cases ho : o = c.next
    · exact .inr ⟨ho, options, rfl⟩
    · left
      show Evolves _ _ (Function.update c.objects c.next _ o)
      rw [Function.update_of_ne ho]
      exact .refl _ _
  | @createRegister p o m hp | @createReturn p o hp =>
    have hk := h.threads p
    rw [hp] at hk
    exact ⟨some p, fun o' => .inl ((Evolves.setPhase hk.1 hk.2 (by decide)).update o')⟩
  | @destroy p name =>
    exact ⟨some p, fun o => .inl (evolves_markDestroyed _ (c.unlink name) name o)⟩
  | @crash p => exact ⟨some p, fun o => .inl (evolves_release _ c _ o)⟩
  | @beat o now => exact ⟨none, fun o' => .inl ((evolves_beat _ _ now _ _).update o')⟩
  | tick | processes => exact ⟨none, fun o => .inl (.observe _ _ _ _)⟩
  | _ => exact ⟨none, fun o => .inl (.refl _ _)⟩

/-- A thread acts: it moves on and changes objects as it may. -/
theorem Tracks.act (h : Tracks c) (ho : ∀ o, Changes (some p) (c.objects o) (d.objects o))
    (hc : d.clock = c.clock) (ht : d.threads = Function.update c.threads p pc)
    (hu : ∀ o, d.next ≤ o → Unborn (d.objects o))
    (hi : ∀ o, ObjectInv d.processes d.clock (d.objects o)) (hk : Knows d.objects d.clock p pc) :
    Tracks d where
  unborn := hu
  objects := hi
  threads := by
    rw [ht]
    refine (Function.forall_update_iff _ fun q pc => Knows d.objects d.clock q pc).mpr ⟨hk, ?_⟩
    intro q hq
    exact (h.threads q).change ho (hc ▸ UInt64.le_refl _) (by simpa using hq)

theorem Tracks.setThread (h : Tracks c) (hk : Knows c.objects c.clock p pc) :
    Tracks (c.setThread p pc) :=
  h.act (fun _ => .inl (.refl _ _)) rfl rfl h.unborn h.objects hk

theorem Tracks.setObject (h : Tracks c) (he : Evolves (some p) (c.objects o) s)
    (hi : ObjectInv c.processes c.clock s) (hu : Unborn (c.objects o) → Unborn s)
    (hk : Knows (Function.update c.objects o s) c.clock p pc) :
    Tracks ((c.setObject o s).setThread p pc) := by
  refine h.act (fun o' => .inl (he.update o')) rfl rfl ?_ ?_ hk
  · exact (Function.forall_update_iff _ fun o' s => c.next ≤ o' → Unborn s).mpr
      ⟨fun ho => hu (h.unborn o ho), fun o' _ => h.unborn o'⟩
  · exact (Function.forall_update_iff _ fun _ s => ObjectInv c.processes c.clock s).mpr
      ⟨hi, fun o' _ => h.objects o'⟩

theorem Tracks.setPhase (h : Tracks c) (hp : c.threads p = .creating o) {phase : CreatePhase}
    (hphase : phase ≠ .absent) (hk : ∀ objects, Knows objects c.clock p pc) :
    Tracks ((c.setObject o { c.objects o with phase := phase }).setThread p pc) := by
  have hc := h.threads p
  rw [hp] at hc
  have hb : (c.objects o).phase ≠ .absent := by simp [hc.1]
  exact h.setObject (.setPhase hc.1 hc.2 hphase) ((h.objects o).setPhase hb hphase)
    (fun hu => absurd hu.phase hb) (hk _)

omit [DecidableEq P] in
/-- Time passes, or processes come and go. -/
theorem Tracks.observe (h : Tracks c) {processes : ProcessTable} {clock : UInt64}
    (hc : c.clock ≤ clock) :
    Tracks { c with processes := processes, clock := clock }.observe where
  unborn o ho := (h.unborn o ho).observe _ _
  objects o := (h.objects o).toHeaderInv.observe _ _
  threads q := (h.threads q).change (fun _ => .inl (.observe none _ _ _)) hc nofun

theorem Tracks.make (h : Tracks c) {options : CreateOptions} {env : CreateEnv}
    (hs : Sound options env) :
    Tracks ((c.make (newObject options env p)).setThread p (.creating c.next)) := by
  refine h.act ?_ rfl rfl ?_ ?_ ?_
  · exact (Function.forall_update_iff _ fun o s => Changes (some p) (c.objects o) s).mpr
      ⟨.inr (h.unborn _ (Nat.le_refl _)), fun _ _ => .inl (.refl _ _)⟩
  · exact (Function.forall_update_iff _ fun o' s => c.next + 1 ≤ o' → Unborn s).mpr
      ⟨fun ho => absurd ho (by omega), fun o _ ho => h.unborn o (by omega)⟩
  · exact (Function.forall_update_iff _ fun _ s => ObjectInv c.processes c.clock s).mpr
      ⟨objectInv_zero rfl rfl fun _ => hs, fun o _ => h.objects o⟩
  · show (Function.update c.objects c.next _ c.next).phase = _ ∧
      (Function.update c.objects c.next _ c.next).creator = _
    rw [Function.update_self]
    exact ⟨rfl, rfl⟩

theorem Tracks.markDestroyed (h : Tracks c) {name : Name}
    (hk : Knows (c.markDestroyed name).objects c.clock p pc) :
    Tracks ((c.markDestroyed name).setThread p pc) := by
  refine h.act (fun o => .inl (evolves_markDestroyed _ c name o)) rfl rfl ?_ ?_ hk
  · intro o ho
    have hu := h.unborn o ho
    show Unborn (ite _ _ _)
    rw [if_neg (by simp [hu.phase])]
    exact hu
  · intro o
    have hi := h.objects o
    show ObjectInv _ _ (ite _ _ _)
    split_ifs
    · exact ⟨⟨hi.sound, hi.born, hi.truncated, hi.stored, hi.draining⟩, hi.dead⟩
    · exact hi

omit [DecidableEq P] in
theorem destroyed_markDestroyed {name : Name} (hb : (c.objects o).phase ≠ .absent)
    (hn : c.nameOf o = name) : ((c.markDestroyed name).objects o).destroyed = true := by
  simp [JanitorConfig.markDestroyed, hb, hn]

/-- A thread that dies leaves its mutex to the next one. -/
theorem Tracks.crash (h : Tracks c) (held : Option Nat) :
    Tracks ((c.release held).setThread p .crashed) := by
  cases held with
  | none => exact h.setThread trivial
  | some o =>
    have hi := h.objects o
    refine h.setObject ⟨rfl, rfl, rfl, id, id, id, .inl rfl⟩
      ⟨⟨hi.sound, hi.born, hi.truncated, hi.stored, hi.draining⟩, hi.dead⟩ ?_ trivial
    exact fun hu => ⟨hu.phase, hu.everDead, hu.destroyed, hu.done, hu.ownerPid⟩

omit [DecidableEq P] in
theorem Tracks.beat (h : Tracks c) {now : UInt64} (hw : (c.objects o).Written) :
    Tracks (c.setObject o (((c.objects o).beat now).observe c.processes c.clock)) where
  unborn := (Function.forall_update_iff _ fun o' s => c.next ≤ o' → Unborn s).mpr
    ⟨fun ho => absurd ((h.unborn o ho).done.symm.trans hw) (by decide), fun o' _ => h.unborn o'⟩
  objects := by
    have hi := h.objects o
    have hbeat : HeaderInv ((c.objects o).beat now) :=
      ⟨hi.sound, hi.born, hi.truncated, hi.stored.setWords _ _ _, hi.draining⟩
    exact (Function.forall_update_iff _ fun _ s => ObjectInv c.processes c.clock s).mpr
      ⟨hbeat.observe _ _, fun o' _ => h.objects o'⟩
  threads q := (h.threads q).change (fun o' => .inl ((evolves_beat none _ _ _ _).update o'))
    (UInt64.le_refl _) nofun

/-- A linked name is the one the object was created under. -/
def Named (c : JanitorConfig P) : Prop :=
  ∀ name o, c.names name = some o → (c.objects o).phase ≠ .absent ∧ c.nameOf o = name

omit [DecidableEq P] in
theorem names_unlink {name name' : Name} (hn : (c.unlink name').names name = some o) :
    c.names name = some o ∧ name ≠ name' := by
  have hn : Function.update c.names name' none name = some o := hn
  by_cases heq : name = name'
  · simp [heq] at hn
  · exact ⟨by simpa [heq] using hn, heq⟩

/-- Names are only linked when objects are made. -/
theorem names_step (hs : JanitorStep c e d) {name : Name} (hn : d.names name = some o) :
    c.names name = some o ∨ (d.objects o).phase = .creating ∧ d.nameOf o = name := by
  cases hs with
  | @createOpen p options env =>
    have hn : Function.update c.names options.name (some c.next) name = some o := hn
    by_cases heq : name = options.name
    · obtain rfl : c.next = o := by simpa [heq] using hn
      right
      simp [JanitorConfig.nameOf, JanitorConfig.setThread, JanitorConfig.make,
        JanitorConfig.setObject, newObject, heq]
    · exact .inl (by simpa [heq] using hn)
  | unlink | destroy => exact .inl (names_unlink hn).1
  | @crash p =>
    cases hheld : (c.threads p).lockHeld <;> rw [hheld] at hn <;> exact .inl hn
  | _ => exact .inl hn

theorem named_step (hs : JanitorStep c e d) (ht : Tracks c) (h : Named c) : Named d := by
  intro name o hn
  rcases names_step hs hn with hold | ⟨hnew, hname⟩
  · obtain ⟨hb, hname⟩ := h name o hold
    obtain ⟨actor, hev⟩ := janitorStep_evolves hs ht
    rcases hev o with he | ⟨rfl, -⟩
    · refine ⟨?_, (congrArg CreateOptions.name he.options).trans hname⟩
      rcases he.phase with hph | ⟨-, -, hph⟩
      · rwa [hph]
      · exact hph
    · exact absurd (ht.unborn _ (Nat.le_refl _)).phase hb
  · exact ⟨by simp [hnew], hname⟩

theorem tracks_step (hs : Guarded ActsOnDecided JanitorStep c e d) (hn : Named c) (h : Tracks c) :
    Tracks d := by
  obtain ⟨hok, hs⟩ := hs
  cases hs with
  | @read p pc hr => exact h.setThread (callRead_knows hr h (h.threads p))
  | @object p o s pc hs =>
    have hk := h.threads p
    obtain ⟨hi, hu⟩ := objectStep_inv hs h hk
    exact h.setObject (objectStep_evolves hs hk) hi hu (objectStep_knows hs hk)
  | @gcOpen p now entry entries o hp =>
    have hk := h.threads p
    rw [hp] at hk
    exact h.setThread ⟨hk, hok⟩
  | @createOpen p options env hp hn hpid =>
    have hk := h.threads p
    rw [hp] at hk
    exact h.make ⟨hk, hok, hpid⟩
  | @createRegister p o m hp =>
    exact Tracks.setPhase (c := c.setRegistry m) ⟨h.unborn, h.objects, h.threads⟩ hp (by decide)
      fun _ => trivial
  | createReturn hp => exact h.setPhase hp (by decide) fun _ => trivial
  | @unlink p name o pc hu =>
    have hk := (unlinks_knows hu (h.threads p)).1
    exact Tracks.setThread (c := c.unlink name) ⟨h.unborn, h.objects, h.threads⟩ hk
  | @unregister p name basis pc m r hu hm =>
    have hk := (unregisters_knows hu (h.threads p)).1
    exact Tracks.setThread (c := c.setRegistry m) ⟨h.unborn, h.objects, h.threads⟩ hk
  | @gcRefresh p now entry entries o m r hp hm =>
    have hk := h.threads p
    rw [hp] at hk
    exact Tracks.setThread (c := c.setRegistry m) ⟨h.unborn, h.objects, h.threads⟩ hk.1
  | @destroy p name o parsed hp hparse ho =>
    refine Tracks.markDestroyed (c := c.unlink name) ⟨h.unborn, h.objects, h.threads⟩ ?_
    split_ifs
    · trivial
    · obtain ⟨hb, hname⟩ := hn name o ho
      exact destroyed_markDestroyed (c := c.unlink name) hb hname
  | crash => exact h.crash _
  | beat hle hw => exact h.beat hw
  | tick hle => exact h.observe hle
  | processes => exact h.observe (UInt64.le_refl _)

omit [DecidableEq P] in
theorem tracks_initial (processes : ProcessTable) (clock : UInt64) :
    Tracks (.initial processes clock : JanitorConfig P) where
  unborn _ _ := ⟨rfl, rfl, rfl, rfl, rfl⟩
  objects _ := objectInv_zero rfl rfl fun hb => absurd rfl hb
  threads _ := trivial

end Shmfx
