import Shmfx.Janitor.Live

/-! The state of a segment over whole runs: from ACTIVE over DRAINING to DEAD, and never back. -/
namespace Shmfx

open Lts

universe u

variable {P : Type u}

/-- A state of a segment whose `create` has come past its store of `state`. -/
def Known (state : UInt32) : Prop :=
  state = SegmentState.active.code ∨ state = SegmentState.draining.code ∨
    state = SegmentState.dead.code

/-- The store of `state` by `create` is the nineteenth of its header. -/
def SegmentObject.Stated (s : SegmentObject P) : Prop := 19 ≤ s.done

/-- What a step may do to an object: `create` goes on, and a stored state does not go back. -/
structure Onward (s s' : SegmentObject P) : Prop where
  done : s.done ≤ s'.done
  state : s.Stated → s.header.state ≤ s'.header.state
  known : (s.Stated → Known s.header.state) → s'.Stated → Known s'.header.state

/-- What the state of a written segment can become, and who may still attach. -/
structure Lifecycle (o : Nat) (c d : JanitorConfig P) : Prop where
  known : Known (d.objects o).header.state
  forward : (c.objects o).header.state ≤ (d.objects o).header.state
  /-- Nobody obtains a handle on a dead segment from a read-write `attach`. -/
  closed : (c.objects o).header.state = SegmentState.dead.code →
    ∀ p, d.threads p = .holding o false → c.threads p = .holding o false

section Objects

variable {c : JanitorConfig P} {s s' : SegmentObject P} {o : Nat} {pc pc' : CallPc}
  {options : CreateOptions} {env : CreateEnv} {f : ShmHeader → ShmHeader} {h : ShmHeader}

theorem Known.le_dead {state : UInt32} (h : Known state) : state ≤ SegmentState.dead.code := by
  rcases h with rfl | rfl | rfl <;> decide

/-- Nothing comes after DEAD. -/
theorem Known.eq_dead {state : UInt32} (h : Known state) (hle : SegmentState.dead.code ≤ state) :
    state = SegmentState.dead.code :=
  UInt32.le_antisymm h.le_dead hle

theorem Onward.refl (s : SegmentObject P) : Onward s s :=
  ⟨Nat.le_refl _, fun _ => UInt32.le_refl _, id⟩

/-- A step that leaves the state alone. -/
theorem Onward.of_eq (hdone : s'.done = s.done) (hstate : s'.header.state = s.header.state) :
    Onward s s' where
  done := Nat.le_of_eq hdone.symm
  state _ := by rw [hstate]; exact UInt32.le_refl _
  known hk hs := by
    rw [hstate]
    rw [SegmentObject.Stated, hdone] at hs
    exact hk hs

theorem Onward.dead (hdone : s'.done = s.done)
    (hstate : s'.header.state = SegmentState.dead.code)
    (hk : s.Stated → Known s.header.state) : Onward s s' where
  done := Nat.le_of_eq hdone.symm
  state hs := by rw [hstate]; exact (hk hs).le_dead
  known _ _ := .inr (.inr hstate)

/-- Once `state` is stored, `create` does not store it again. -/
theorem headerStores_stated {n : Nat} (hf : (headerStores options env)[n]? = some f)
    (hn : 19 ≤ n) : (f h).state = h.state := by
  obtain ⟨hlt, rfl⟩ := List.getElem?_eq_some_iff.mp hf
  obtain rfl : n = 19 := by
    have hlength : (headerStores options env).length = 20 := rfl
    omega
  rfl

theorem headerStores_state (hf : (headerStores options env)[18]? = some f) :
    (f h).state = SegmentState.active.code := by
  obtain rfl := Option.some.inj hf
  rfl

theorem Onward.store (hf : (headerStores s.options s.env)[s.done]? = some f)
    (processes : ProcessTable) (clock : UInt64) :
    Onward s ((s.store f).observe processes clock) where
  done := Nat.le_succ _
  state hs := by
    show _ ≤ (f s.header).state
    rw [headerStores_stated hf hs]
    exact UInt32.le_refl _
  known hk hs := by
    show Known (f s.header).state
    by_cases hstated : 19 ≤ s.done
    · rw [headerStores_stated hf hstated]
      exact hk hstated
    · have hs : 19 ≤ s.done + 1 := hs
      obtain hlast : s.done = 18 := by omega
      rw [hlast] at hf
      exact .inl (headerStores_state hf)

theorem objectStep_onward (h : ObjectStep c o pc s pc')
    (hk : (c.objects o).Stated → Known (c.objects o).header.state) : Onward (c.objects o) s := by
  cases h with
  | createTruncate => exact .of_eq rfl rfl
  | createStore _ hf => exact .store hf _ _
  | createFail | createRefused => exact .of_eq rfl rfl
  | attachBump | attachRollback | resetDrop => exact .of_eq rfl rfl
  | gcLock | gcUnlock => exact .of_eq rfl rfl
  | gcDrainLost => exact .refl _
  | resetRetire | gcCondemn => exact .dead rfl rfl hk
  | gcDrain hactive =>
    refine ⟨Nat.le_refl _, fun _ => ?_, fun _ _ => .inr (.inl rfl)⟩
    rw [hactive]
    exact (by decide : SegmentState.active.code ≤ SegmentState.draining.code)

end Objects

/-- Where a thread goes on. -/
inductive Moves (c d : JanitorConfig P) : CallPc → CallPc → Prop
  | read {pc pc' : CallPc} (h : CallRead c pc pc') : Moves c d pc pc'
  | object {pc pc' : CallPc} {o : Nat} {s : SegmentObject P} (h : ObjectStep c o pc s pc') :
      Moves c d pc pc'
  | opened {now : UInt64} {entry : RegistryEntry} {entries : List RegistryEntry} {o : Nat} :
      Moves c d (.gc now (entry :: entries)) (.sweep now entry entries (.opened o))
  | made {options : CreateOptions} (h : c.next < d.next) :
      Moves c d (.admitted options) (.creating c.next)
  | returned {o : Nat} : Moves c d (.creating o) (.holding o true)
  | unlinked {pc pc' : CallPc} {name : Name} {o : Nat} (h : Unlinks c pc name o pc') :
      Moves c d pc pc'
  | refreshed {now : UInt64} {entry : RegistryEntry} {entries : List RegistryEntry} {o : Nat} :
      Moves c d (.sweep now entry entries (.refreshing o)) (.gc now entries)
  | destroyed {name : Name} {o : Nat} {pc pc' : CallPc} (h : pc = .idle)
      (h' : pc' = .idle ∨ pc' = .destroying name o) : Moves c d pc pc'
  | crashed {pc : CallPc} : Moves c d pc .crashed

section Threads

variable {c d : JanitorConfig P} {pc pc' : CallPc} {o : Nat}

theorem sweepTo_ne_creating (now : UInt64) (entry : RegistryEntry) (entries : List RegistryEntry)
    (next : Option SweepPc) (o : Nat) : sweepTo now entry entries next ≠ .creating o := by
  cases next <;> exact CallPc.noConfusion

theorem sweepTo_ne_holding (now : UInt64) (entry : RegistryEntry) (entries : List RegistryEntry)
    (next : Option SweepPc) (o : Nat) : sweepTo now entry entries next ≠ .holding o false := by
  cases next <;> exact CallPc.noConfusion

/-- Only `shm_open` starts the header of an object. -/
theorem Moves.creating (h : Moves c d pc (.creating o)) :
    pc = .creating o ∨ o = c.next ∧ c.next < d.next := by
  generalize hpc : CallPc.creating o = pc' at h
  cases h with
  | read h =>
    cases h with
    | gcRead => exact absurd hpc.symm (sweepTo_ne_creating _ _ _ _ o)
    | unregisterFailed h => cases h <;> cases hpc
    | _ => cases hpc
  | object h =>
    cases h with
    | createTruncate | createStore => exact .inl rfl
    | _ => cases hpc
  | made hlt => exact .inr ⟨CallPc.creating.inj hpc, hlt⟩
  | unlinked h => cases h <;> cases hpc
  | destroyed _ h =>
    subst hpc
    rcases h with h | h <;> cases h
  | _ => cases hpc

/-- Only the second look of `attach` at the state ends in a handle that is not the creator's. -/
theorem Moves.holding (h : Moves c d pc (.holding o false)) :
    (c.objects o).header.state ≠ SegmentState.dead.code := by
  generalize hpc : CallPc.holding o false = pc' at h
  cases h with
  | read h =>
    cases h with
    | attachReturn hstate =>
      obtain ⟨rfl, -⟩ := CallPc.holding.inj hpc
      exact hstate
    | gcRead => exact absurd hpc.symm (sweepTo_ne_holding _ _ _ _ o)
    | unregisterFailed h => cases h <;> cases hpc
    | _ => cases hpc
  | object h => cases h <;> cases hpc
  | unlinked h => cases h <;> cases hpc
  | destroyed _ h =>
    subst hpc
    rcases h with h | h <;> cases h
  | _ => cases hpc

/-- Objects from `next` on have not been made. -/
structure Stocked (c : JanitorConfig P) : Prop where
  unmade : ∀ o, c.next ≤ o → (c.objects o).done = 0
  creating : ∀ p o, c.threads p = .creating o → o < c.next
  known : ∀ o, (c.objects o).Stated → Known (c.objects o).header.state

theorem Stocked.made (h : Stocked c) (hs : (c.objects o).Stated) : o < c.next := by
  by_contra hge
  have hzero := h.unmade o (Nat.not_lt.mp hge)
  rw [SegmentObject.Stated, hzero] at hs
  omega

theorem onward_update (objects : Nat → SegmentObject P) {s : SegmentObject P}
    (h : Onward (objects o) s) (o' : Nat) :
    Onward (objects o') (Function.update objects o s o') := by
  by_cases ho : o' = o
  · subst ho
    rw [Function.update_self]
    exact h
  · rw [Function.update_of_ne ho]
    exact .refl _

theorem markDestroyed_same (c : JanitorConfig P) (name : Name) (o : Nat) :
    ((c.markDestroyed name).objects o).done = (c.objects o).done ∧
      ((c.markDestroyed name).objects o).header = (c.objects o).header := by
  unfold JanitorConfig.markDestroyed
  dsimp only
  split_ifs
  · exact ⟨rfl, rfl⟩
  · exact ⟨rfl, rfl⟩

end Threads

section Steps

variable [DecidableEq P] {c d : JanitorConfig P} {e : JanitorEvent} {o : Nat} {p : P} {pc : CallPc}

theorem threads_setThread (hm : Moves c d (c.threads p) pc)
    (hd : d.threads = Function.update c.threads p pc) (q : P) :
    d.threads q = c.threads q ∨ Moves c d (c.threads q) (d.threads q) := by
  by_cases hq : q = p
  · subst hq
    rw [hd, Function.update_self]
    exact .inr hm
  · rw [hd, Function.update_of_ne hq]
    exact .inl rfl

theorem threads_step (hs : JanitorStep c e d) (q : P) :
    d.threads q = c.threads q ∨ Moves c d (c.threads q) (d.threads q) := by
  cases hs with
  | read h => exact threads_setThread (.read h) rfl q
  | object h => exact threads_setThread (.object h) rfl q
  | gcOpen h => exact threads_setThread (h ▸ .opened) rfl q
  | createOpen h => exact threads_setThread (h ▸ .made (Nat.lt_succ_self _)) rfl q
  | createRegister h | createReturn h => exact threads_setThread (h ▸ .returned) rfl q
  | unlink h => exact threads_setThread (.unlinked h) rfl q
  | unregister h => exact threads_setThread (.read (.unregisterFailed h)) rfl q
  | gcRefresh h => exact threads_setThread (h ▸ .refreshed) rfl q
  | destroy h => exact threads_setThread (.destroyed h (ite_eq_or_eq ..)) rfl q
  | @crash p =>
    refine threads_setThread (p := p) .crashed ?_ q
    cases (c.threads p).lockHeld <;> rfl
  | beat | tick | processes => exact .inl rfl

/-- No step takes the state of a segment back. -/
theorem onward_step (hs : JanitorStep c e d) (h : Stocked c) (ho : o < c.next) :
    Onward (c.objects o) (d.objects o) := by
  cases hs with
  | object hs => exact onward_update c.objects (objectStep_onward hs (h.known _)) o
  | createOpen =>
    show Onward _ (Function.update c.objects c.next _ o)
    rw [Function.update_of_ne (Nat.ne_of_lt ho)]
    exact .refl _
  | createRegister | createReturn =>
    refine onward_update c.objects ?_ o
    exact .of_eq rfl rfl
  | @destroy p name =>
    obtain ⟨hdone, hheader⟩ := markDestroyed_same (c.unlink name) name o
    exact .of_eq hdone (congrArg ShmHeader.state hheader)
  | @crash p =>
    cases (c.threads p).lockHeld with
    | none => exact .refl _
    | some o' =>
      refine onward_update c.objects ?_ o
      exact .of_eq rfl rfl
  | beat =>
    refine onward_update c.objects ?_ o
    exact .of_eq rfl rfl
  | tick | processes => exact .of_eq rfl rfl
  | _ => exact .refl _

/-- A written segment goes through a step. -/
theorem Lifecycle.step {c₀ : JanitorConfig P} (hl : Lifecycle o c₀ c) (hs : JanitorStep c e d)
    (h : Stocked c) (hstated : (c.objects o).Stated) : Lifecycle o c₀ d := by
  have honward := onward_step hs h (h.made hstated)
  refine ⟨honward.known (fun _ => hl.known) (Nat.le_trans hstated honward.done),
    UInt32.le_trans hl.forward (honward.state hstated), ?_⟩
  intro hdead p hp
  refine hl.closed hdead p ?_
  rcases threads_step hs p with hsame | hmoves
  · exact hsame.symm.trans hp
  · rw [hp] at hmoves
    exact absurd (hl.known.eq_dead (hdead ▸ hl.forward)) hmoves.holding

end Steps

end Shmfx
