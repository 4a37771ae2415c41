import Shmfx.Lifecycle.Freshness
import Shmfx.Segment.Create

/-! `owner_is_dead` one system call at a time, while processes exit, their pids are given away again
and the owner goes on beating. -/
namespace Shmfx

open Lts

universe u

/-- What a judgement came to. -/
inductive Finding
  | noOwner
  | noProcess
  | replaced (start : UInt64)
  | silent (last : UInt64)
  /-- `confirmed` if the start time of the process has been read and was the entered one. -/
  | beating (confirmed : Bool) (last : UInt64)

def Finding.dead : Finding → Bool
  | .beating .. => false
  | _ => true

/-- Where a call of `owner_is_dead` stands: before `kill`, before the start time is read, or before
the stamp is loaded. -/
inductive JudgePc
  | idle
  | asking (now : UInt64)
  | comparing (now : UInt64)
  | loading (now : UInt64) (confirmed : Bool)

/-- The processes of a host, and a segment that one of them has made. -/
structure OwnedSegment (J : Type u) where
  /-- The start time of the process under a pid. -/
  running : UInt32 → Option UInt64
  /-- The start times of all the processes there have been under it. -/
  used : UInt32 → List UInt64
  clock : Nat
  header : ShmHeader
  /-- When the owner was started. -/
  owner : UInt64
  judges : J → JudgePc

inductive OwnedEvent (J : Type u)
  | tau
  | verdict (j : J) (now : UInt64) (finding : Finding)

variable {J : Type u}

/-- The process that made the segment runs. -/
def OwnedSegment.Alive (c : OwnedSegment J) : Prop := c.running c.header.ownerPid = some c.owner

variable [DecidableEq J]

def OwnedSegment.setJudge (c : OwnedSegment J) (j : J) (pc : JudgePc) : OwnedSegment J :=
  { c with judges := Function.update c.judges j pc }

/-- No two processes under one pid have the same start time. An exit is over when the process has
been waited for: until then `kill` and `/proc` show it as running. -/
inductive OwnedStep (c : OwnedSegment J) : OwnedEvent J → OwnedSegment J → Prop
  | spawned {pid : UInt32} {start : UInt64} (hfree : c.running pid = none)
      (hnew : start ∉ c.used pid) :
      OwnedStep c .tau { c with
        running := Function.update c.running pid (some start)
        used := Function.update c.used pid (start :: c.used pid) }
  | exited (pid : UInt32) :
      OwnedStep c .tau { c with running := Function.update c.running pid none }
  | passed {later : Nat} (hle : c.clock ≤ later) : OwnedStep c .tau { c with clock := later }
  | beat {now : UInt64} (halive : c.Alive) (hnow : now.toNat ≤ c.clock) :
      OwnedStep c .tau { c with
        header := { c.header with
          heartbeatCounter := c.header.heartbeatCounter + 1
          heartbeatLastNs := now } }
  | stored {header : ShmHeader} (hpid : header.ownerPid = c.header.ownerPid)
      (hstart : header.ownerStartTime = c.header.ownerStartTime)
      (hlast : header.heartbeatLastNs = c.header.heartbeatLastNs) :
      OwnedStep c .tau { c with header := header }
  | noOwner {j : J} {now : UInt64} (hj : c.judges j = .idle) (hnow : now.toNat ≤ c.clock)
      (hpid : c.header.ownerPid = 0) : OwnedStep c (.verdict j now .noOwner) c
  | judging {j : J} {now : UInt64} (hj : c.judges j = .idle) (hnow : now.toNat ≤ c.clock)
      (hpid : c.header.ownerPid ≠ 0) : OwnedStep c .tau (c.setJudge j (.asking now))
  | noProcess {j : J} {now : UInt64} (hj : c.judges j = .asking now)
      (hnone : c.running c.header.ownerPid = none) :
      OwnedStep c (.verdict j now .noProcess) (c.setJudge j .idle)
  | found {j : J} {now : UInt64} (hj : c.judges j = .asking now)
      (hsome : c.running c.header.ownerPid ≠ none) :
      OwnedStep c .tau (c.setJudge j (.comparing now))
  | replaced {j : J} {now start : UInt64} (hj : c.judges j = .comparing now)
      (hentered : c.header.ownerStartTime ≠ 0)
      (hread : c.running c.header.ownerPid = some start)
      (hne : start ≠ c.header.ownerStartTime) :
      OwnedStep c (.verdict j now (.replaced start)) (c.setJudge j .idle)
  | confirmed {j : J} {now : UInt64} (hj : c.judges j = .comparing now)
      (hentered : c.header.ownerStartTime ≠ 0)
      (hread : c.running c.header.ownerPid = some c.header.ownerStartTime) :
      OwnedStep c .tau (c.setJudge j (.loading now true))
  -- no start time was entered, or none could be read: the process may just have exited
  | unread {j : J} {now : UInt64} (hj : c.judges j = .comparing now) :
      OwnedStep c .tau (c.setJudge j (.loading now false))
  | silent {j : J} {now : UInt64} {confirmed : Bool} (hj : c.judges j = .loading now confirmed)
      (hstale : heartbeatStale c.header.heartbeatLastNs now = true) :
      OwnedStep c (.verdict j now (.silent c.header.heartbeatLastNs)) (c.setJudge j .idle)
  | beating {j : J} {now : UInt64} {confirmed : Bool} (hj : c.judges j = .loading now confirmed)
      (hstale : heartbeatStale c.header.heartbeatLastNs now = false) :
      OwnedStep c (.verdict j now (.beating confirmed c.header.heartbeatLastNs))
        (c.setJudge j .idle)

/-- The entered owner is the process that made the segment, as far as it is entered. -/
structure OwnerInv (c : OwnedSegment J) : Prop where
  pid : c.header.ownerPid ≠ 0
  entered : c.header.ownerStartTime = 0 ∨ c.header.ownerStartTime = c.owner
  owner : c.owner ∈ c.used c.header.ownerPid

section Proofs

variable {c c' c₀ : OwnedSegment J} {e : OwnedEvent J} {log log' : List (OwnedEvent J)} {j : J}
  {now : UInt64} {finding : Finding}

/-- Nobody enters another owner. -/
theorem OwnedStep.owner_eq (hs : OwnedStep c e c') : c'.owner = c.owner ∧
    c'.header.ownerPid = c.header.ownerPid ∧
    c'.header.ownerStartTime = c.header.ownerStartTime := by
  cases hs with
  | stored hpid hstart => exact ⟨rfl, hpid, hstart⟩
  | _ => exact ⟨rfl, rfl, rfl⟩

theorem OwnedStep.used_subset (hs : OwnedStep c e c') (pid : UInt32) :
    c.used pid ⊆ c'.used pid := by
  cases hs with
  | @spawned pid' start =>
    show c.used pid ⊆ Function.update c.used pid' (start :: c.used pid') pid
    by_cases h : pid = pid'
    · subst h
      rw [Function.update_self]
      exact List.subset_cons_self ..
    · rw [Function.update_of_ne h]
      exact List.Subset.refl _
  | _ => exact List.Subset.refl _

theorem ownerInv_step (h : OwnerInv c) (hs : OwnedStep c e c') : OwnerInv c' := by
  obtain ⟨howner, hpid, hstart⟩ := hs.owner_eq
  refine ⟨hpid ▸ h.pid, ?_, ?_⟩
  · rw [hstart, howner]
    exact h.entered
  · rw [howner, hpid]
    exact hs.used_subset _ h.owner

theorem ownerInv_run (h : OwnerInv c₀) (hrun : Run OwnedStep c₀ log c) : OwnerInv c := by
  induction hrun with
  | nil => exact h
  | snoc _ hs ih => exact ownerInv_step ih hs

/-- An owner that is gone does not come back, and does not beat. -/
theorem gone_step (h : OwnerInv c) (hgone : ¬ c.Alive) (hs : OwnedStep c e c') :
    ¬ c'.Alive ∧ c'.header.heartbeatLastNs = c.header.heartbeatLastNs := by
  cases hs with
  | @spawned pid start _ hnew =>
    refine ⟨fun halive => ?_, rfl⟩
    have hrun : Function.update c.running pid (some start) c.header.ownerPid =
        some c.owner := halive
    by_cases hpid : c.header.ownerPid = pid
    · subst hpid
      rw [Function.update_self] at hrun
      exact hnew (Option.some.inj hrun ▸ h.owner)
    · rw [Function.update_of_ne hpid] at hrun
      exact hgone hrun
  | exited pid =>
    refine ⟨fun halive => ?_, rfl⟩
    have hrun : Function.update c.running pid none c.header.ownerPid = some c.owner := halive
    by_cases hpid : c.header.ownerPid = pid
    · subst hpid
      rw [Function.update_self] at hrun
      cases hrun
    · rw [Function.update_of_ne hpid] at hrun
      exact hgone hrun
  | beat halive => exact absurd halive hgone
  | @stored header hpid _ hlast =>
    refine ⟨fun halive => hgone ?_, hlast⟩
    have hrun : c.running header.ownerPid = some c.owner := halive
    rwa [hpid] at hrun
  | _ => exact ⟨hgone, rfl⟩

theorem gone_run (h : OwnerInv c) (hgone : ¬ c.Alive) (hrun : Run OwnedStep c log c') :
    ¬ c'.Alive ∧ c'.header.heartbeatLastNs = c.header.heartbeatLastNs := by
  induction hrun with
  | nil => exact ⟨hgone, rfl⟩
  | snoc hr hs ih =>
    obtain ⟨hgone', hlast⟩ := gone_step (ownerInv_run h hr) ih.1 hs
    exact ⟨hgone', hlast.trans ih.2⟩

/-- What is found dead is gone, or has been silent. -/
theorem gone_of_dead (h : OwnerInv c) (hs : OwnedStep c (.verdict j now finding) c')
    (hdead : finding.dead = true) : ¬ c.Alive ∨ finding = .silent c.header.heartbeatLastNs ∧
      c.header.heartbeatLastNs.toNat + heartbeatDeadNs.toNat < now.toNat := by
  cases hs with
  | noOwner _ _ hpid => exact absurd hpid h.pid
  | noProcess _ hnone =>
    left
    intro halive
    rw [OwnedSegment.Alive, hnone] at halive
    cases halive
  | replaced _ hentered hread hne =>
    left
    intro halive
    rw [OwnedSegment.Alive, hread] at halive
    exact hne ((Option.some.inj halive).trans (h.entered.resolve_left hentered).symm)
  | silent _ hstale => exact .inr ⟨rfl, (heartbeatStale_iff.mp hstale).2⟩
  | beating => cases hdead

/-- The judge is not about to clear the owner on account of its start time. -/
def Unconfirmed (c : OwnedSegment J) (j : J) : Prop := ∀ now, c.judges j ≠ .loading now true

theorem unconfirmed_setJudge {i : J} {pc : JudgePc} (hu : Unconfirmed c j)
    (hpc : ∀ now, pc ≠ .loading now true) : Unconfirmed (c.setJudge i pc) j := by
  intro now hj
  have hj' : Function.update c.judges i pc j = .loading now true := hj
  by_cases hi : j = i
  · subst hi
    rw [Function.update_self] at hj'
    exact hpc now hj'
  · rw [Function.update_of_ne hi] at hj'
    exact hu now hj'

/-- Only a running owner has the entered start time. -/
theorem unconfirmed_step (h : OwnerInv c) (hgone : ¬ c.Alive) (hu : Unconfirmed c j)
    (hs : OwnedStep c e c') : Unconfirmed c' j := by
  cases hs with
  | confirmed _ hentered hread =>
    rw [h.entered.resolve_left hentered] at hread
    exact absurd hread hgone
  | spawned | exited | passed | beat | stored | noOwner => exact hu
  | _ => exact unconfirmed_setJudge hu (by rintro _ ⟨⟩)

theorem unconfirmed_run (h : OwnerInv c) (hgone : ¬ c.Alive) (hu : Unconfirmed c j)
    (hrun : Run OwnedStep c log c') : Unconfirmed c' j := by
  induction hrun with
  | nil => exact hu
  | snoc hr hs ih => exact unconfirmed_step (ownerInv_run h hr) (gone_run h hgone hr).1 ih hs

/-- A judge that started when the owner was gone finds it dead, or could not compare start times
and came less than three seconds after its last beat. -/
theorem dead_of_gone (hu : Unconfirmed c j) (hs : OwnedStep c (.verdict j now finding) c') :
    finding.dead = true ∨ finding = .beating false c.header.heartbeatLastNs ∧
      heartbeatStale c.header.heartbeatLastNs now = false := by
  cases hs with
  | @beating _ _ confirmed hj hstale =>
    cases confirmed with
    | true => exact absurd hj (hu now)
    | false => exact .inr ⟨rfl, hstale⟩
  | _ => exact .inl rfl

/-- The processes as a judge may find them: of some it cannot read the start time. -/
structure Depicts (table : ProcessTable) (c : OwnedSegment J) : Prop where
  none_iff : ∀ pid, table pid = none ↔ c.running pid = none
  some : ∀ pid start, table pid = some (some start) → c.running pid = some start

theorem setJudge_setJudge (c : OwnedSegment J) (j : J) (pc pc' : JudgePc) :
    (c.setJudge j pc).setJudge j pc' = c.setJudge j pc' := by
  simp [OwnedSegment.setJudge]

theorem setJudge_idle (hidle : c.judges j = .idle) : c.setJudge j .idle = c := by
  rw [OwnedSegment.setJudge, ← hidle, Function.update_eq_self]

theorem judges_setJudge (c : OwnedSegment J) (j : J) (pc : JudgePc) :
    (c.setJudge j pc).judges j = pc := Function.update_self ..

/-- The judgement from the load of the stamp on. -/
theorem judge_loading (hidle : c.judges j = .idle) (confirmed : Bool) :
    ∃ finding, OwnedStep (c.setJudge j (.loading now confirmed)) (.verdict j now finding) c ∧
      finding.dead = heartbeatStale c.header.heartbeatLastNs now := by
  have hj := judges_setJudge c j (.loading now confirmed)
  have hback : (c.setJudge j (.loading now confirmed)).setJudge j .idle = c := by
    rw [setJudge_setJudge, setJudge_idle hidle]
  cases hstale : heartbeatStale c.header.heartbeatLastNs now with
  | true =>
    have hs := OwnedStep.silent hj hstale
    rw [hback] at hs
    exact ⟨_, hs, rfl⟩
  | false =>
    have hs := OwnedStep.beating hj hstale
    rw [hback] at hs
    exact ⟨_, hs, rfl⟩

/-- The start time is read unless it is of no use, and is the entered one unless it is another. -/
theorem judge_comparing {table : ProcessTable} {started : Option UInt64} (ht : Depicts table c)
    (hstarted : table c.header.ownerPid = some started)
    (hsame : ¬ (c.header.ownerStartTime ≠ 0 ∧
      started.any (· != c.header.ownerStartTime) = true)) :
    ∃ confirmed, OwnedStep (c.setJudge j (.comparing now)) .tau
      (c.setJudge j (.loading now confirmed)) := by
  have hj := judges_setJudge c j (.comparing now)
  have hunread := OwnedStep.unread hj
  rw [setJudge_setJudge] at hunread
  cases started with
  | none => exact ⟨false, hunread⟩
  | some start =>
    by_cases hentered : c.header.ownerStartTime = 0
    · exact ⟨false, hunread⟩
    · have hstart : start = c.header.ownerStartTime := by
        by_contra hne
        exact hsame ⟨hentered, by simpa using hne⟩
      have hs := OwnedStep.confirmed hj hentered (ht.some _ _ (hstart ▸ hstarted))
      rw [setJudge_setJudge] at hs
      exact ⟨true, hs⟩

/-- A judge that nothing interferes with comes to what `owner_is_dead` makes of the processes it
finds. -/
theorem judge_alone {table : ProcessTable} (hidle : c.judges j = .idle)
    (hnow : now.toNat ≤ c.clock) (ht : Depicts table c) :
    ∃ n finding, Run OwnedStep c (List.replicate n .tau ++ [.verdict j now finding]) c ∧
      finding.dead = ownerIsDead table c.header now := by
  unfold ownerIsDead
  split_ifs with hpid
  · exact ⟨0, .noOwner, .single (.noOwner hidle hnow hpid), rfl⟩
  have hasking : Run OwnedStep c [.tau] (c.setJudge j (.asking now)) :=
    .single (.judging hidle hnow hpid)
  have hback : ∀ pc, (c.setJudge j pc).setJudge j .idle = c := fun pc => by
    rw [setJudge_setJudge, setJudge_idle hidle]
  cases hstarted : table c.header.ownerPid with
  | none =>
    have hs := OwnedStep.noProcess (judges_setJudge c j (.asking now))
      ((ht.none_iff _).mp hstarted)
    rw [hback] at hs
    exact ⟨1, .noProcess, hasking.snoc hs, rfl⟩
  | some started =>
    have hsome : c.running c.header.ownerPid ≠ none := by
      rw [Ne, ← ht.none_iff, hstarted]
      exact Option.some_ne_none _
    have hs := OwnedStep.found (judges_setJudge c j (.asking now)) hsome
    rw [setJudge_setJudge] at hs
    have hcomparing := hasking.snoc hs
    have hj := judges_setJudge c j (.comparing now)
    dsimp only
    split_ifs with hother
    · obtain ⟨hentered, hany⟩ := hother
      cases started with
      | none => cases hany
      | some start =>
        have hne : start ≠ c.header.ownerStartTime := by simpa using hany
        have hs := OwnedStep.replaced hj hentered (ht.some _ _ hstarted) hne
        rw [hback] at hs
        exact ⟨2, .replaced start, hcomparing.snoc hs, rfl⟩
    · obtain ⟨confirmed, hs⟩ := judge_comparing ht hstarted hother
      obtain ⟨finding, hverdict, hdead⟩ := judge_loading hidle confirmed
      exact ⟨3, finding, (hcomparing.snoc hs).snoc hverdict, hdead⟩

/-- What every judgement of the owner is worth, at any point of the history. -/
structure JudgedRightly (log : List (OwnedEvent J)) (c : OwnedSegment J) : Prop where
  /-- Who was found dead is gone for good, or had not beaten for three seconds. -/
  sound : ∀ j now finding, .verdict j now finding ∈ log → finding.dead = true →
    ¬ c.Alive ∨ ∃ last, finding = .silent last ∧ last.toNat + heartbeatDeadNs.toNat < now.toNat
  /-- Whoever starts to judge an owner that is gone finds it dead, even if its pid is in use again,
  unless its start time was not entered or not read and its last beat is recent. -/
  complete : ¬ c.Alive → ∀ j, c.judges j = .idle → ∀ log' c', Run OwnedStep c log' c' →
    ∀ now finding, .verdict j now finding ∈ log' → finding.dead = true ∨
      finding = .beating false c.header.heartbeatLastNs ∧
        heartbeatStale c.header.heartbeatLastNs now = false
  alone : ∀ j now table, c.judges j = .idle → now.toNat ≤ c.clock → Depicts table c →
    ∃ n finding, Run OwnedStep c (List.replicate n .tau ++ [.verdict j now finding]) c ∧
      finding.dead = ownerIsDead table c.header now

/-- Over any life of the system from the `create` that entered the owner. -/
theorem owners_judged_rightly {options : CreateOptions} {env : CreateEnv}
    {p p' : RegistryPayload} (hcreated : create options env p = .ok (c₀.header, p'))
    (hpid : env.pid ≠ 0) (hread : ∀ start ∈ env.startTime, start = c₀.owner)
    (hused : c₀.owner ∈ c₀.used env.pid) (hrun : Run OwnedStep c₀ log c) :
    JudgedRightly log c := by
  have hheader := created_eq hcreated
  have hentered : c₀.header.ownerPid = env.pid ∧
      c₀.header.ownerStartTime = env.startTime.getD 0 := by
    rw [hheader]
    exact ⟨rfl, rfl⟩
  have hinv : OwnerInv c₀ := by
    refine ⟨hentered.1 ▸ hpid, ?_, hentered.1 ▸ hused⟩
    rw [hentered.2]
    cases hstart : env.startTime with
    | none => exact .inl rfl
    | some start => exact .inr (hread start (by rw [hstart]; rfl))
  refine ⟨?_, ?_, fun _ _ _ hidle hnow ht => judge_alone hidle hnow ht⟩
  · intro j now finding hmem hdead
    obtain ⟨before, after, rfl⟩ := List.append_of_mem hmem
    obtain ⟨s, hbefore, hlater⟩ := hrun.split
    obtain ⟨s', hverdict, -⟩ := hlater.uncons
    have hinv' := ownerInv_run hinv hbefore
    rcases gone_of_dead hinv' hverdict hdead with hgone | ⟨hsilent, hlate⟩
    · exact .inl (gone_run hinv' hgone hlater).1
    · exact .inr ⟨_, hsilent, hlate⟩
  · intro hgone j hidle log' c' hrun' now finding hmem
    have hinv' := ownerInv_run hinv hrun
    have hu : Unconfirmed c j := by
      intro now hj
      rw [hidle] at hj
      cases hj
    obtain ⟨before, after, s, s', rfl, hbefore, hs⟩ := hrun'.exists_step hmem
    have hlast := (gone_run hinv' hgone hbefore).2
    have hjudged := dead_of_gone (unconfirmed_run hinv' hgone hu hbefore) hs
    rwa [hlast] at hjudged

end Proofs

/-- The pid of an owner that has exited is in use again, and the judge sees the difference. -/
theorem owners_judged_rightly_reused : ∃ (c₀ c : OwnedSegment Unit) (log : List (OwnedEvent Unit)),
    c₀.Alive ∧ Run OwnedStep c₀ log c ∧ c.running 1 = some 2 ∧
      .verdict () 1 (.replaced 2) ∈ log ∧ JudgedRightly log c := by
  have hok : (create (sizedOptions 64) quietEnv zeroPayload).toBool = true := by decide +kernel
  obtain ⟨h, p', hc⟩ := exists_created hok
  have hheader := created_eq hc
  have hpid : h.ownerPid = 1 := by rw [hheader]; rfl
  have hstart : h.ownerStartTime = 1 := by rw [hheader]; rfl
  let c₀ : OwnedSegment Unit := ⟨fun _ => some 1, fun _ => [1], 1, h, 1, fun _ => .idle⟩
  let c₁ : OwnedSegment Unit := { c₀ with running := Function.update c₀.running 1 none }
  let c₂ : OwnedSegment Unit := { c₁ with
    running := Function.update c₁.running 1 (some 2)
    used := Function.update c₁.used 1 (2 :: c₁.used 1) }
  have hrunning : c₂.running h.ownerPid = some 2 := by simp [c₂, hpid]
  have s₁ : OwnedStep c₀ .tau c₁ := .exited 1
  have s₂ : OwnedStep c₁ .tau c₂ := .spawned (by simp [c₁]) (by simp [c₁, c₀])
  have s₃ : OwnedStep c₂ .tau (c₂.setJudge () (.asking 1)) :=
    .judging rfl le_rfl (by rw [hpid]; decide)
  have s₄ := OwnedStep.found (judges_setJudge c₂ () (.asking 1)) (by
    show c₂.running h.ownerPid ≠ none
    rw [hrunning]
    exact Option.some_ne_none _)
  rw [setJudge_setJudge] at s₄
  have s₅ := OwnedStep.replaced (judges_setJudge c₂ () (.comparing 1))
    (by rw [show (c₂.setJudge () (.comparing 1)).header = h from rfl, hstart]; decide) hrunning
    (by rw [show (c₂.setJudge () (.comparing 1)).header = h from rfl, hstart]; decide)
  have hrun := ((((Run.single s₁).snoc s₂).snoc s₃).snoc s₄).snoc s₅
  refine ⟨c₀, _, _, rfl, hrun, hpid ▸ hrunning, ?_, ?_⟩
  · exact List.mem_append_right _ (List.mem_singleton_self _)
  · refine owners_judged_rightly hc (by decide) ?_ (List.mem_singleton_self _) hrun
    rintro start ⟨⟩
    rfl

end Shmfx
