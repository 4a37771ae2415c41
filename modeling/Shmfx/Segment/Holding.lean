import Shmfx.Segment.OwnedCreate

/-! The handles of a process against its descriptors and mappings: whatever it creates, attaches,
collects and drops among the calls of others. -/
namespace Shmfx

open Lts Rollback

/-- A process with the handles it has. -/
structure Holder (A : Type) where
  process : Process A
  handles : List (ShmHandle A)

/-- The descriptor and the address the system answers are not in use. -/
structure ProcessEnv.Fresh {A : Type} (env : ProcessEnv A) (p : Process A) : Prop where
  fd : p.fds env.fd = none
  base : p.mapped env.base = none
  nonneg : 0 ≤ env.fd

/-- A call of the process, or whatever the others did meanwhile. -/
inductive HolderEvent (A : Type)
  | created (options : CreateOptions) (env : CreateEnv) (error : Option ErrorCode)
  | attached (env : ProcessEnv A) (name : Name) (mode : AttachMode)
  | collected (env : ProcessEnv A)
  | reset (h : ShmHandle A) (o : Nat)
  | others (s : LinkedStore)

/-- What the event does to the shared objects. A failed `create` leaves at most an object that no
name leads to. -/
def HolderEvent.Acts {A : Type} (s : LinkedStore) : HolderEvent A → LinkedStore → Prop
  | .created options env none, t => ∃ o, s.create options env = (.ok o, t)
  | .created options env (some e), t => s.create options env = (.error e, s) ∧
    ∃ made : Option SegmentMemory, t = made.elim s s.leave
  | .attached env name mode, t => t = (s.attach env.toAttachEnv name mode).2
  | .collected env, t => t = s.gc env.gc
  | .reset h o, t => t = Process.dropped h.mode h.owner o s
  | .others s', t => t = s'

section Holder

variable {A : Type}

/-- A process that has just started. -/
def Holder.idle (s : LinkedStore) : Holder A := ⟨⟨s, fun _ => none, fun _ => none, []⟩, []⟩

/-- The handles are all the process has. -/
structure Holds (c : Holder A) : Prop where
  fds : ∀ fd, c.process.fds fd ≠ none → ∃ h ∈ c.handles, h.fd = fd
  mapped : ∀ a, c.process.mapped a ≠ none → ∃ h ∈ c.handles, h.base = some a
  /-- What a handle has open is what it has mapped. -/
  held : ∀ h ∈ c.handles, 0 ≤ h.fd ∧ ∃ a o, h.base = some a ∧ c.process.mapped a = some o ∧
    c.process.fds h.fd = some o
  /-- No two handles share a descriptor or an address. -/
  apart : ∀ h ∈ c.handles, ∀ h' ∈ c.handles, h.fd = h'.fd ∨ h.base = h'.base → h = h'
  nodup : c.handles.Nodup
  heartbeat : ∀ a, a ∈ c.process.heartbeat ↔ ∃ h ∈ c.handles, h.owner = true ∧ h.base = some a

theorem Holds.idle (s : LinkedStore) : Holds (.idle s : Holder A) where
  fds := fun _ h => absurd rfl h
  mapped := fun _ h => absurd rfl h
  held := fun _ h => absurd h List.not_mem_nil
  apart := fun _ h => absurd h List.not_mem_nil
  nodup := List.nodup_nil
  heartbeat := by
    intro a
    simp [Holder.idle]

section Holds

variable {c : Holder A} {env : ProcessEnv A} {h : ShmHandle A} {a : A} {o : Nat}

theorem Holds.fd_ne (hc : Holds c) (hfresh : env.Fresh c.process) (hmem : h ∈ c.handles) :
    h.fd ≠ env.fd := by
  intro heq
  obtain ⟨-, _, o, -, -, hfd⟩ := hc.held h hmem
  rw [heq, hfresh.fd] at hfd
  cases hfd

theorem Holds.base_ne (hc : Holds c) (hfresh : env.Fresh c.process) (hmem : h ∈ c.handles) :
    h.base ≠ some env.base := by
  intro heq
  obtain ⟨-, a, o, hbase, hmapped, -⟩ := hc.held h hmem
  cases hbase.symm.trans heq
  rw [hfresh.base] at hmapped
  cases hmapped

theorem Holds.unlisted (hc : Holds c) (hfresh : env.Fresh c.process) :
    env.base ∉ c.process.heartbeat := by
  intro hmem
  obtain ⟨h, hmem, -, hbase⟩ := (hc.heartbeat env.base).mp hmem
  exact hc.base_ne hfresh hmem hbase

theorem Holds.setStore (hc : Holds c) (s : LinkedStore) : Holds ⟨c.process.setStore s, c.handles⟩ :=
  ⟨hc.fds, hc.mapped, hc.held, hc.apart, hc.nodup, hc.heartbeat⟩

variable [DecidableEq A]

/-- What was opened for a new handle. -/
theorem Holds.open (hc : Holds c) (hfresh : env.Fresh c.process) (hbase : h.base = some env.base)
    (hfd : h.fd = env.fd) {s : LinkedStore} {beats : List A}
    (hbeats : beats =
      if h.owner then c.process.heartbeat ++ [env.base] else c.process.heartbeat) :
    Holds ⟨{ (c.process.opened env o).setStore s with heartbeat := beats }, h :: c.handles⟩ where
  fds := by
    intro fd hopen
    by_cases heq : fd = env.fd
    · exact ⟨h, List.mem_cons_self, hfd.trans heq.symm⟩
    · have hold : c.process.fds fd ≠ none := by
        simpa [heq] using hopen
      obtain ⟨h', hmem, hfd'⟩ := hc.fds fd hold
      exact ⟨h', List.mem_cons_of_mem _ hmem, hfd'⟩
  mapped := by
    intro a hopen
    by_cases heq : a = env.base
    · exact ⟨h, List.mem_cons_self, heq ▸ hbase⟩
    · have hold : c.process.mapped a ≠ none := by
        simpa [heq] using hopen
      obtain ⟨h', hmem, hbase'⟩ := hc.mapped a hold
      exact ⟨h', List.mem_cons_of_mem _ hmem, hbase'⟩
  held := by
    intro h' hmem
    rcases List.mem_cons.mp hmem with rfl | hmem
    · refine ⟨hfd ▸ hfresh.nonneg, env.base, o, hbase, Process.mapped_opened_base, ?_⟩
      simp [hfd]
    · obtain ⟨hpos, a, o', hbase', hmapped, hopen⟩ := hc.held h' hmem
      have hfd' : h'.fd ≠ env.fd := hc.fd_ne hfresh hmem
      have ha : a ≠ env.base := fun heq => hc.base_ne hfresh hmem (heq ▸ hbase')
      refine ⟨hpos, a, o', hbase', ?_, ?_⟩
      · simpa [ha] using hmapped
      · simpa [hfd'] using hopen
  apart := by
    have hold : ∀ h' ∈ c.handles, ¬ (h.fd = h'.fd ∨ h.base = h'.base) := by
      rintro h' hmem (heq | heq)
      · exact hc.fd_ne hfresh hmem (heq.symm.trans hfd)
      · exact hc.base_ne hfresh hmem (heq.symm.trans hbase)
    intro h₁ hmem₁ h₂ hmem₂ hshared
    rcases List.mem_cons.mp hmem₁ with rfl | hold₁ <;>
      rcases List.mem_cons.mp hmem₂ with rfl | hold₂
    · rfl
    · exact absurd hshared (hold h₂ hold₂)
    · exact absurd (hshared.imp Eq.symm Eq.symm) (hold h₁ hold₁)
    · exact hc.apart h₁ hold₁ h₂ hold₂ hshared
  nodup := List.nodup_cons.mpr ⟨fun hmem => hc.fd_ne hfresh hmem hfd, hc.nodup⟩
  heartbeat := by
    intro a
    simp only [List.mem_cons, exists_eq_or_imp]
    rw [← hc.heartbeat a, hbeats]
    cases h.owner with
    | false => simp
    | true => simp [hbase, eq_comm, or_comm]

/-- What was given back with a handle. -/
theorem Holds.reset (hc : Holds c) (hmem : h ∈ c.handles) (hbase : h.base = some a)
    {s : LinkedStore} :
    Holds ⟨{ store := s
             fds := Function.update c.process.fds h.fd none
             mapped := Function.update c.process.mapped a none
             heartbeat := if h.owner then c.process.heartbeat.filter (· ≠ a)
               else c.process.heartbeat }, c.handles.erase h⟩ := by
  have hkept {h'} : h' ∈ c.handles.erase h ↔ h' ≠ h ∧ h' ∈ c.handles := hc.nodup.mem_erase_iff
  have hbase_ne {h' a'} (hmem' : h' ∈ c.handles.erase h) (hbase' : h'.base = some a') : a' ≠ a := by
    rintro rfl
    obtain ⟨hne, hmem'⟩ := hkept.mp hmem'
    exact hne (hc.apart h' hmem' h hmem (.inr (hbase'.trans hbase.symm)))
  constructor
  · intro fd hopen
    have hne : fd ≠ h.fd := by
      rintro rfl
      simp at hopen
    obtain ⟨h', hmem', hfd'⟩ := hc.fds fd (by simpa [hne] using hopen)
    refine ⟨h', hkept.mpr ⟨?_, hmem'⟩, hfd'⟩
    rintro rfl
    exact hne hfd'.symm
  · intro a' hopen
    have hne : a' ≠ a := by
      rintro rfl
      simp at hopen
    obtain ⟨h', hmem', hbase'⟩ := hc.mapped a' (by simpa [hne] using hopen)
    refine ⟨h', hkept.mpr ⟨?_, hmem'⟩, hbase'⟩
    rintro rfl
    exact hne (Option.some.inj (hbase'.symm.trans hbase))
  · intro h' hmem'
    obtain ⟨hne, hmem₀⟩ := hkept.mp hmem'
    obtain ⟨hpos, a', o, hbase', hmapped, hopen⟩ := hc.held h' hmem₀
    have hfd : h'.fd ≠ h.fd := fun heq => hne (hc.apart h' hmem₀ h hmem (.inl heq))
    refine ⟨hpos, a', o, hbase', ?_, ?_⟩
    · simpa [hbase_ne hmem' hbase'] using hmapped
    · simpa [hfd] using hopen
  · intro h₁ hmem₁ h₂ hmem₂ hshared
    exact hc.apart h₁ (List.mem_of_mem_erase hmem₁) h₂ (List.mem_of_mem_erase hmem₂) hshared
  · exact hc.nodup.erase h
  · intro a'
    have hsplit :
        a' ∈ (if h.owner then c.process.heartbeat.filter (· ≠ a) else c.process.heartbeat) ↔
          a' ∈ c.process.heartbeat ∧ (h.owner = true → a' ≠ a) := by
      cases h.owner with
      | false => simp
      | true => simp
    refine hsplit.trans ?_
    rw [hc.heartbeat a']
    constructor
    · rintro ⟨⟨h', hmem', howner, hbase'⟩, hother⟩
      refine ⟨h', hkept.mpr ⟨?_, hmem'⟩, howner, hbase'⟩
      rintro rfl
      exact hother howner (Option.some.inj (hbase'.symm.trans hbase))
    · rintro ⟨h', hmem', howner, hbase'⟩
      exact ⟨⟨h', (hkept.mp hmem').2, howner, hbase'⟩, fun _ => hbase_ne hmem' hbase'⟩

end Holds

variable [DecidableEq A]

inductive HolderStep : Holder A → HolderEvent A → Holder A → Prop
  | create {c : Holder A} {env : ProcessEnv A} {options : CreateOptions} {cenv : CreateEnv}
      {h : ShmHandle A} {p : Process A} (hfresh : env.Fresh c.process)
      (hcall : Process.createCall env options cenv c.process = (.ok h, p)) :
      HolderStep c (.created options cenv none) ⟨p, h :: c.handles⟩
  | createFailed {c : Holder A} {env : ProcessEnv A} {options : CreateOptions} {cenv : CreateEnv}
      {e : ErrorCode} {p : Process A} (hfresh : env.Fresh c.process)
      (hcall : Process.createCall env options cenv c.process = (.error e, p)) :
      HolderStep c (.created options cenv (some e)) ⟨p, c.handles⟩
  | attach {c : Holder A} {env : ProcessEnv A} {name : Name} {mode : AttachMode} {h : ShmHandle A}
      {p : Process A} (hfresh : env.Fresh c.process)
      (hcall : Process.attachCall env name mode c.process = (.ok h, p)) :
      HolderStep c (.attached env name mode) ⟨p, h :: c.handles⟩
  | refused {c : Holder A} {env : ProcessEnv A} {name : Name} {mode : AttachMode} {e : ErrorCode}
      {p : Process A} (hfresh : env.Fresh c.process)
      (hcall : Process.attachCall env name mode c.process = (.error e, p)) :
      HolderStep c (.attached env name mode) ⟨p, c.handles⟩
  | gc {c : Holder A} {env : ProcessEnv A} (hfresh : env.Fresh c.process) :
      HolderStep c (.collected env) ⟨c.process.gcCall env, c.handles⟩
  | reset {c : Holder A} {h : ShmHandle A} {a : A} {o : Nat} (hmem : h ∈ c.handles)
      (hbase : h.base = some a) (hmapped : c.process.mapped a = some o) :
      HolderStep c (.reset h o) ⟨c.process.resetHandle h, c.handles.erase h⟩
  | others {c : Holder A} (s : LinkedStore) :
      HolderStep c (.others s) ⟨c.process.setStore s, c.handles⟩

/-- What holds after any calls of a process among those of others. -/
structure HandlesHoldAll (s : LinkedStore) (log : List (HolderEvent A)) (c : Holder A) : Prop where
  holds : Holds c
  /-- The shared objects went through the calls alone. -/
  store : Run HolderEvent.Acts s log c.process.store

/-- A step keeps what the handles hold, and does to the shared objects what its event says. -/
theorem Holds.holderStep {c c' : Holder A} {e : HolderEvent A} (hc : Holds c)
    (h : HolderStep c e c') : Holds c' ∧ HolderEvent.Acts c.process.store e c'.process.store := by
  cases h with
  | create hfresh hcall =>
    obtain ⟨rfl, s, hstore, rfl⟩ := (Process.createCall_owned hfresh.fd hfresh.base hfresh.nonneg
      (hc.unlisted hfresh)).ok _ _ hcall
    exact ⟨hc.open hfresh rfl rfl rfl, _, hstore⟩
  | createFailed hfresh hcall =>
    obtain ⟨hstore, made, rfl⟩ := (Process.createCall_owned hfresh.fd hfresh.base hfresh.nonneg
      (hc.unlisted hfresh)).error _ _ hcall
    exact ⟨hc.setStore _, hstore, made, rfl⟩
  | attach hfresh hcall =>
    rename_i env name mode h p
    rw [Process.attachCall_eq hfresh.fd hfresh.base] at hcall
    cases hstore : c.process.store.attach env.toAttachEnv name mode with
    | mk r t =>
      rw [hstore] at hcall
      cases r with
      | error e => cases hcall
      | ok o =>
        cases hcall
        exact ⟨hc.open hfresh rfl rfl rfl, (congrArg Prod.snd hstore).symm⟩
  | refused hfresh hcall =>
    rename_i env name mode e p
    rw [Process.attachCall_eq hfresh.fd hfresh.base] at hcall
    cases hstore : c.process.store.attach env.toAttachEnv name mode with
    | mk r t =>
      rw [hstore] at hcall
      cases r with
      | ok o => cases hcall
      | error e =>
        cases hcall
        exact ⟨hc.setStore t, (congrArg Prod.snd hstore).symm⟩
  | gc hfresh =>
    have hgc := Process.gc_gives_back hfresh.fd hfresh.base
    refine ⟨?_, ?_⟩
    · rw [hgc]
      exact hc.setStore _
    · rw [HolderEvent.Acts, hgc]
  | reset hmem hbase hmapped =>
    rename_i h a o
    rw [Process.resetHandle_eq hbase hmapped (hc.held h hmem).1]
    exact ⟨hc.reset hmem hbase, rfl⟩
  | others s' => exact ⟨hc.setStore s', rfl⟩

/-- Among any calls of others, a process that creates, attaches, collects and drops handles has open
and mapped what its handles have and nothing else, and does to the shared objects what its calls
say. -/
theorem handles_hold_all {s : LinkedStore} {log : List (HolderEvent A)} {c : Holder A}
    (h : Run HolderStep (.idle s) log c) : HandlesHoldAll s log c :=
  h.invariant (I := HandlesHoldAll s) ⟨.idle s, .nil⟩ fun _ _ _ _ _ hc hstep =>
    ⟨(hc.holds.holderStep hstep).1, hc.store.snoc (hc.holds.holderStep hstep).2⟩

end Holder

/-- What the system answers with a descriptor and an address free. -/
def freeEnv (fd : Int) (base : Nat) : ProcessEnv Nat := ⟨keyedAttachEnv desertedEnv, fd, base⟩

/-- A system that does not map new objects. -/
def unmappableEnv : CreateEnv :=
  { quietEnv with os := fun call => if call = .mmap then .error .quotaExceeded else .ok () }

/-- A process whose first `create` has failed. -/
def refusedOnce : Process Nat :=
  (Process.createCall (freeEnv 3 0) (sizedOptions 0) unmappableEnv
    (Holder.idle LinkedStore.initial).process).2

/-- The same, with the segment created. -/
def createdOnce : Process Nat :=
  (Process.createCall (freeEnv 3 0) (sizedOptions 0) quietEnv refusedOnce).2

/-- A `create` that fails, one that succeeds, and an `attach` to the segment. -/
theorem handles_hold_all_attached : ∃ (log : List (HolderEvent Nat)) (c : Holder Nat),
    Run HolderStep (.idle LinkedStore.initial) log c ∧ log.length = 3 ∧
      c.handles.map ShmHandle.fd = [4, 3] ∧ HandlesHoldAll LinkedStore.initial log c := by
  have hfirst : Process.createCall (freeEnv 3 0) (sizedOptions 0) unmappableEnv
      (Holder.idle LinkedStore.initial).process = (.error .quotaExceeded, refusedOnce) :=
    outcome_eq (by decide +kernel)
  have hsecond : Process.createCall (freeEnv 3 0) (sizedOptions 0) quietEnv refusedOnce =
      (.ok (Process.ownedHandle (freeEnv 3 0) (sizedOptions 0)), createdOnce) :=
    outcome_eq (by decide +kernel)
  have hthird : (Process.attachCall (freeEnv 4 1) (sizedOptions 0).name .readOnly
      createdOnce).1 = .ok ⟨some 1, 4096, 4, .readOnly, false, 0⟩ := by decide +kernel
  have hfresh₁ : (freeEnv 3 0).Fresh (Holder.idle LinkedStore.initial).process :=
    ⟨rfl, rfl, by decide⟩
  have hfresh₂ : (freeEnv 3 0).Fresh refusedOnce :=
    ⟨by decide +kernel, by decide +kernel, by decide⟩
  have hfresh₃ : (freeEnv 4 1).Fresh createdOnce :=
    ⟨by decide +kernel, by decide +kernel, by decide⟩
  -- from here on nobody should compute what the calls left
  generalize createdOnce = p₂ at hsecond hthird hfresh₃
  generalize refusedOnce = p₁ at hfirst hsecond hfresh₂
  have hrun := ((Run.single (HolderStep.createFailed hfresh₁ hfirst)).snoc
    (.create hfresh₂ hsecond)).snoc (.attach hfresh₃ (outcome_eq hthird))
  exact ⟨_, _, hrun, rfl, rfl, handles_hold_all hrun⟩

end Shmfx
