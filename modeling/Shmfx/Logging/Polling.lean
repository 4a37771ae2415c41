import Shmfx.Logging.Service

/-! The polling loop: `poll_once` and its backoff among everything that loggers and other processes
do. -/
namespace Shmfx

open Lts

/-- How a poll that delivered nothing passes its time. -/
inductive Pause
  | relax
  | yield
  | sleep
  deriving DecidableEq

structure AdaptiveBackoff where
  spinCount : UInt32

namespace AdaptiveBackoff

def reset (_ : AdaptiveBackoff) : AdaptiveBackoff := ⟨0⟩

def idle (b : AdaptiveBackoff) : Pause × AdaptiveBackoff :=
  let spinCount := b.spinCount + 1
  (if spinCount < 64 then .relax else if spinCount < 512 then .yield else .sleep, ⟨spinCount⟩)

/-- The end of `poll_once`. -/
def afterPoll (b : AdaptiveBackoff) (drained : UInt32) : Option Pause × AdaptiveBackoff :=
  if drained = 0 then (some b.idle.1, b.idle.2) else (none, b.reset)

end AdaptiveBackoff

structure Poller where
  service : Service
  backoff : AdaptiveBackoff

inductive PollEvent
  | other (e : ServiceEvent)
  | poll (attached : List Nat) (records : List (Nat × LogRecord)) (pause : Option Pause)

def PollEvent.event : PollEvent → ServiceEvent
  | .other e => e
  | .poll _ records _ => .drain records

/-- The `discover_once` at the start of a poll, whose error it ignores, is one of the other calls:
what comes between it and the drain is anybody's. -/
inductive PollStep (options : CenterOptions) (start : Name) (c : Poller) :
    PollEvent → Poller → Prop
  | other {e : ServiceEvent} {s : Service} (hs : ServiceStep options start c.service e s)
      (he : ∀ records, e ≠ .drain records) :
      PollStep options start c (.other e) { c with service := s }
  | poll {records : List (Nat × LogRecord)} {s : Service}
      (hs : ServiceStep options start c.service (.drain records) s) :
      PollStep options start c
        (.poll (c.service.center.rings.map AttachedRing.ring) records
          (c.backoff.afterPoll (UInt32.ofNat records.length)).1)
        ⟨s, (c.backoff.afterPoll (UInt32.ofNat records.length)).2⟩

def Poller.start (store : LinkedStore) (contents : Nat → Ring) : Poller :=
  ⟨.start store contents, ⟨0⟩⟩

def PollEvent.isPoll : PollEvent → Bool
  | .other _ => false
  | .poll .. => true

def polls (log : List PollEvent) : Nat := log.countP PollEvent.isPoll

/-- Pauses in a row up to and including this event. -/
def PollEvent.pauses (n : Nat) : PollEvent → Nat
  | .other _ => n
  | .poll _ _ none => 0
  | .poll _ _ (some _) => n + 1

/-- Polls since the last one that delivered something. -/
def pausesInARow (log : List PollEvent) : Nat := log.foldl PollEvent.pauses 0

/-- The pause that belongs to a count. -/
def pauseFor (n : Nat) : Pause := if n < 64 then .relax else if n < 512 then .yield else .sleep

/-- What the polls do for the ring a logger made. -/
structure Polled (options : CenterOptions) (lo : LoggerOptions) (l : Logger)
    (log : List PollEvent) : Prop where
  /-- Every poll that finds the ring attached takes a whole batch out of it, if there is one,
  however much there is in other rings. -/
  share : ∀ before after, log = before ++ after → .other (.init lo (.ok l)) ∈ before →
    (∀ attached records pause, .poll attached records pause ∈ after → l.ring ∈ attached) →
    min (acceptedInto l.ring (before.map PollEvent.event)).length
        ((sunkFrom l.ring (before.map PollEvent.event)).length +
          polls after * options.drainBatch.toNat) ≤
      (sunkFrom l.ring (log.map PollEvent.event)).length
  /-- No poll pauses while there is a record in it. -/
  busy : ∀ before attached records pause after,
    log = before ++ .poll attached records (some pause) :: after →
    .other (.init lo (.ok l)) ∈ before → l.ring ∈ attached → records.length < 2 ^ 32 →
    0 < options.drainBatch.toNat →
    (sunkFrom l.ring (before.map PollEvent.event)).length =
      (acceptedInto l.ring (before.map PollEvent.event)).length
  /-- The pauses grow with the polls in a row that deliver nothing. -/
  paced : ∀ before attached records pause after,
    log = before ++ .poll attached records pause :: after →
    pause = if records.length % 2 ^ 32 = 0
      then some (pauseFor ((pausesInARow before + 1) % 2 ^ 32)) else none

section Proofs

variable {options : CenterOptions} {start : Name} {c c' : Poller} {e : PollEvent}
  {log : List PollEvent} {store : LinkedStore} {contents : Nat → Ring} {lo : LoggerOptions}
  {l : Logger}

theorem PollStep.service (hs : PollStep options start c e c') :
    ServiceStep options start c.service e.event c'.service := by
  cases hs with
  | other hs => exact hs
  | poll hs => exact hs

theorem service_run (hrun : Run (PollStep options start) c log c') :
    Run (ServiceStep options start) c.service (log.map PollEvent.event) c'.service :=
  hrun.map Poller.service PollEvent.event fun _ _ _ => PollStep.service

/-- One drain of a service takes a batch out of every attached ring that has one. -/
theorem ServiceInv.drain_share {log : List ServiceEvent} {c : Service}
    (h : ServiceInv options log c) (hroom : log.length < 2 ^ 64) (hmade : .init lo (.ok l) ∈ log)
    (howner : l.owner = true) (hattached : l.ring ∈ c.center.rings.map AttachedRing.ring) :
    min (acceptedInto l.ring log).length
        ((sunkFrom l.ring log).length + options.drainBatch.toNat) ≤
      (sunkFrom l.ring
        (log ++ [.drain (drainRings options c.center.rings c.contents).1])).length := by
  obtain ⟨hnamed, hrest⟩ := h.made lo l hmade howner
  have hnames : ∀ a ∈ c.center.rings, a.ring = l.ring → a.name = l.name := by
    rintro a ha hring
    rw [← (h.attached a ha).name, hring, hnamed.name]
  obtain ⟨k, hk, hrecords, -, hbatch⟩ := drainRings_represents options c.center.rings c.contents
    hnames hrest.ring ((length_acceptedInto_le l.ring log).trans_lt hroom)
  have hsunk : ((ServiceEvent.drain (drainRings options c.center.rings c.contents).1).sunk
      l.ring).length = k := by
    rw [ServiceEvent.sunk, hrecords, List.length_map, List.length_take]
    exact Nat.min_eq_left hk
  have hbatch' := hbatch hattached
  rw [List.length_map, List.length_drop] at hbatch'
  rw [sunkFrom_snoc, List.length_append, hsunk]
  omega

theorem serviceInv_pollRun (hrun : Run (PollStep options start) (.start store contents) log c)
    (hslots : TwoSlots (log.map PollEvent.event)) (hroom : log.length < 2 ^ 64) :
    ServiceInv options (log.map PollEvent.event) c.service :=
  serviceInv_run (service_run hrun) hslots (by rwa [List.length_map])

/-- A poll of an attached ring. -/
theorem poll_share (hrun : Run (PollStep options start) (.start store contents) log c)
    (hs : PollStep options start c e c') (hslots : TwoSlots (log.map PollEvent.event))
    (hroom : log.length < 2 ^ 64) (hmade : .other (.init lo (.ok l)) ∈ log)
    (howner : l.owner = true) {attached : List Nat} {records : List (Nat × LogRecord)}
    {pause : Option Pause} (he : e = .poll attached records pause) (hmem : l.ring ∈ attached) :
    min (acceptedInto l.ring (log.map PollEvent.event)).length
        ((sunkFrom l.ring (log.map PollEvent.event)).length + options.drainBatch.toNat) ≤
      (sunkFrom l.ring ((log ++ [e]).map PollEvent.event)).length := by
  have hinv := serviceInv_pollRun hrun hslots hroom
  have hmade' : .init lo (.ok l) ∈ log.map PollEvent.event := List.mem_map.mpr ⟨_, hmade, rfl⟩
  cases hs with
  | other => cases he
  | @poll records' s hs =>
    obtain ⟨hattached, -⟩ := PollEvent.poll.inj he
    rw [← hattached] at hmem
    cases hs with
    | drain =>
      rw [List.map_append]
      exact hinv.drain_share (by rwa [List.length_map]) hmade' howner hmem

theorem sunkFrom_other {e : ServiceEvent} {log : List ServiceEvent} {o : Nat}
    (he : ∀ records, e ≠ .drain records) : sunkFrom o (log ++ [e]) = sunkFrom o log := by
  rw [sunkFrom_snoc]
  cases e with
  | drain records => exact absurd rfl (he records)
  | _ => exact List.append_nil _

theorem acceptedInto_le_append (o : Nat) (as bs : List ServiceEvent) :
    (acceptedInto o as).length ≤ (acceptedInto o (as ++ bs)).length := by
  rw [acceptedInto, acceptedInto, List.filterMap_append, List.length_append]
  exact Nat.le_add_right ..

/-- Poll after poll takes its batch, up to what had been accepted at the start. -/
theorem share_run {before after : List PollEvent}
    (hbefore : Run (PollStep options start) (.start store contents) before c)
    (hafter : Run (PollStep options start) c after c')
    (hslots : TwoSlots ((before ++ after).map PollEvent.event))
    (hroom : (before ++ after).length < 2 ^ 64) (hmade : .other (.init lo (.ok l)) ∈ before)
    (howner : l.owner = true)
    (hattached : ∀ attached records pause, .poll attached records pause ∈ after →
      l.ring ∈ attached) :
    min (acceptedInto l.ring (before.map PollEvent.event)).length
        ((sunkFrom l.ring (before.map PollEvent.event)).length +
          polls after * options.drainBatch.toNat) ≤
      (sunkFrom l.ring ((before ++ after).map PollEvent.event)).length := by
  induction hafter with
  | nil =>
    rw [List.append_nil]
    exact (Nat.min_le_right ..).trans (by simp [polls])
  | @snoc after d e d' hr hs ih =>
    rw [← List.append_assoc] at hslots hroom ⊢
    have hslots' : TwoSlots ((before ++ after).map PollEvent.event) := by
      rw [List.map_append] at hslots
      exact hslots.left
    have hroom' : (before ++ after).length < 2 ^ 64 := by
      rw [List.length_append] at hroom
      omega
    have hshare := ih hslots' hroom' fun attached records pause hmem =>
      hattached attached records pause (List.mem_append_left _ hmem)
    have hmore := acceptedInto_le_append l.ring (before.map PollEvent.event)
      (after.map PollEvent.event)
    rw [← List.map_append] at hmore
    have hpolls : polls (after ++ [e]) = polls after + polls [e] := List.countP_append
    cases e with
    | other e =>
      cases hs with
      | other hs he =>
        rw [hpolls, show polls [.other e] = 0 from rfl, Nat.add_zero, List.map_append,
          show [PollEvent.other e].map PollEvent.event = [e] from rfl, sunkFrom_other he]
        exact hshare
    | poll attached records pause =>
      have hmem := hattached attached records pause
        (List.mem_append_right _ (List.mem_singleton_self _))
      have hpoll := poll_share (hbefore.append hr) hs hslots' hroom'
        (List.mem_append_left _ hmade) howner rfl hmem
      rw [hpolls, show polls [.poll attached records pause] = 1 from rfl, Nat.succ_mul]
      omega

/-- The count of the backoff is that of the pauses. -/
theorem spinCount_run (hrun : Run (PollStep options start) (.start store contents) log c) :
    c.backoff.spinCount = UInt32.ofNat (pausesInARow log) := by
  induction hrun with
  | nil => rfl
  | @snoc log d e d' _ hs ih =>
    rw [pausesInARow, List.foldl_append, List.foldl_cons, List.foldl_nil]
    cases hs with
    | other => exact ih
    | @poll records s hs =>
      unfold AdaptiveBackoff.afterPoll
      split_ifs with hzero
      · show d.backoff.spinCount + 1 = UInt32.ofNat (pausesInARow log + 1)
        rw [ih, UInt32.ofNat_add]
        rfl
      · rfl

theorem pause_step (hrun : Run (PollStep options start) (.start store contents) log c)
    {attached : List Nat} {records : List (Nat × LogRecord)} {pause : Option Pause}
    (hs : PollStep options start c (.poll attached records pause) c') :
    pause = if records.length % 2 ^ 32 = 0
      then some (pauseFor ((pausesInARow log + 1) % 2 ^ 32)) else none := by
  have hcount := spinCount_run hrun
  have hzero : UInt32.ofNat records.length = 0 ↔ records.length % 2 ^ 32 = 0 := by
    rw [← UInt32.toNat_inj, UInt32.toNat_ofNat']
    rfl
  have hnext : (c.backoff.spinCount + 1).toNat = (pausesInARow log + 1) % 2 ^ 32 := by
    rw [hcount, UInt32.toNat_add, UInt32.toNat_ofNat', UInt32.toNat_one]
    omega
  cases hs with
  | poll hs =>
    unfold AdaptiveBackoff.afterPoll
    rw [if_congr hzero rfl rfl]
    split_ifs with h
    · simp only [AdaptiveBackoff.idle, pauseFor, UInt32.lt_iff_toNat_lt, hnext]
      rfl
    · rfl

/-- Over any history of the service: every attached ring gets a batch per poll whatever the others
hold, no poll pauses over a record, and pauses get longer only while nothing is delivered. -/
theorem polling_fair (hrun : Run (PollStep options start) (.start store contents) log c)
    (hslots : TwoSlots (log.map PollEvent.event)) (hroom : log.length < 2 ^ 64)
    (howner : l.owner = true) : Polled options lo l log := by
  constructor
  · rintro before after rfl hmade hattached
    obtain ⟨d, hbefore, hafter⟩ := hrun.split
    exact share_run hbefore hafter hslots hroom hmade howner hattached
  · rintro before attached records pause after rfl hmade hmem hfew hbatch
    obtain ⟨d, hbefore, hafter⟩ := hrun.split
    obtain ⟨d', hs, -⟩ := hafter.uncons
    have hslots' : TwoSlots (before.map PollEvent.event) := by
      rw [List.map_append] at hslots
      exact hslots.left
    have hroom' : before.length < 2 ^ 64 := by
      rw [List.length_append] at hroom
      omega
    have hinv := serviceInv_pollRun hbefore hslots' hroom'
    obtain ⟨-, hrest⟩ := hinv.made lo l (List.mem_map.mpr ⟨_, hmade, rfl⟩) howner
    have hshare := poll_share hbefore hs hslots' hroom' hmade howner rfl hmem
    have hempty : records = [] := by
      have hpause := pause_step hbefore hs
      split_ifs at hpause with hzero
      rw [Nat.mod_eq_of_lt hfew] at hzero
      exact List.length_eq_zero_iff.mp hzero
    have hnone : sunkFrom l.ring ((before ++ [PollEvent.poll attached records (some pause)]).map
        PollEvent.event) = sunkFrom l.ring (before.map PollEvent.event) := by
      rw [List.map_append, hempty]
      exact sunkFrom_snoc.trans (List.append_nil _)
    rw [hnone] at hshare
    have hle := hrest.length_le
    omega
  · rintro before attached records pause after rfl
    obtain ⟨d, hbefore, hafter⟩ := hrun.split
    obtain ⟨d', hs, -⟩ := hafter.uncons
    exact pause_step hbefore hs

end Proofs

/-- One record is logged, found and delivered by a poll. -/
theorem polling_fair_one : ∃ log c,
    Run (PollStep smallCenter Center.logStart) (.start .initial fun _ => zeroRing) log c ∧
      polls log = 1 ∧ sunkFrom 0 (log.map PollEvent.event) =
        [⟨smallLogger.name, .warn, 0, 7, [65]⟩] ∧
      Polled smallCenter smallOptions smallLogger log := by
  have hinit : PollStep smallCenter Center.logStart (.start .initial fun _ => zeroRing)
      (.other (.init smallOptions (.ok smallLogger))) ⟨smallReady, ⟨0⟩⟩ :=
    .other small_init (by rintro _ ⟨⟩)
  have hlog : PollStep smallCenter Center.logStart ⟨smallReady, ⟨0⟩⟩
      (.other (.log smallLogger smallPush (.ok ()))) ⟨smallLogged, ⟨0⟩⟩ :=
    .other small_log (by rintro _ ⟨⟩)
  have hfound : PollStep smallCenter Center.logStart ⟨smallLogged, ⟨0⟩⟩ (.other .other)
      ⟨smallFound, ⟨0⟩⟩ := .other small_discover (by rintro _ ⟨⟩)
  have hpoll : PollStep smallCenter Center.logStart ⟨smallFound, ⟨0⟩⟩ _ _ := .poll small_drain
  have hrun := (((Run.single hinit).snoc hlog).snoc hfound).snoc hpoll
  exact ⟨_, _, hrun, rfl, rfl, polling_fair hrun smallLog_twoSlots (by simp) rfl⟩

end Shmfx
