import Shmfx.Lifecycle.Heartbeat
import Shmfx.Janitor.Model

/-! The heartbeat against the clock: a registered header always has a worker that goes on ticking,
and with bounded delays `owner_is_dead` never finds its stamp too old. -/
namespace Shmfx

open Lts Word

universe u v

/-- The heartbeat of a process with `CLOCK_MONOTONIC`, and when each worker was started or ticked
last. -/
structure TimedHeartbeat (T : Type u) (H : Type v) where
  heart : HeartbeatConfig T H
  clock : Nat
  since : Nat → Nat

inductive TimedEvent (T : Type u) (H : Type v)
  | act (e : HeartbeatEvent T H)
  | pass

variable {T : Type u} {H : Type v}

def TimedHeartbeat.initial (beats : H → Beat) (clock : Nat) : TimedHeartbeat T H :=
  ⟨.initial beats, clock, fun _ => clock⟩

/-- The time of the workers after a step at `clock`. -/
def HeartbeatEvent.since (clock : Nat) (since : Nat → Nat) : HeartbeatEvent T H → Nat → Nat
  | .started _ _ w | .ticked w => Function.update since w clock
  | _ => since

/-- Every live worker ticks again, and every registration that has stamped its header enters it
into the list, before `later` is too late. -/
structure Punctual (period lag : Nat) (c : TimedHeartbeat T H) (later : Nat) : Prop where
  workers : ∀ w, (c.heart.workers w).Alive → later ≤ c.since w + period
  callers : ∀ t header, c.heart.callers t = .enlisting header →
    later ≤ (c.heart.beats header).lastNs + lag

/-- A worker that will go on ticking serves the listed headers. -/
structure Served (c : HeartbeatConfig T H) : Prop where
  thread : c.headers ≠ [] → c.thread ≠ none
  worker : ∀ w, c.thread = some w → (c.workers w).Alive ∧ c.stop = false

variable [DecidableEq T] [DecidableEq H]

/-- The stamps a step stores are those of a clock that showed `now`. -/
def StampsAt (now : Nat) (c : HeartbeatConfig T H) :
    HeartbeatEvent T H → HeartbeatConfig T H → Prop
  | .beat _ header, c' => c'.beats = beatHeader now c.beats header
  | .ticked _, c' => c'.beats = heartbeatTickLocked c.headers now c.beats
  | _, _ => True

/-- A step of the heartbeat, whose stamps are at most `lag` old when they are stored; or time
passes, to the next deadline at most. -/
inductive TimedStep (period lag : Nat) :
    TimedHeartbeat T H → TimedEvent T H → TimedHeartbeat T H → Prop
  | act {c : TimedHeartbeat T H} {e : HeartbeatEvent T H} {heart : HeartbeatConfig T H} {now : Nat}
      (hs : HeartbeatStep c.heart e heart) (hstamp : StampsAt now c.heart e heart)
      (hnow : now ≤ c.clock) (hlag : c.clock ≤ now + lag) :
      TimedStep period lag c (.act e) ⟨heart, c.clock, e.since c.clock c.since⟩
  | pass {c : TimedHeartbeat T H} {later : Nat} (hle : c.clock ≤ later)
      (hp : Punctual period lag c later) :
      TimedStep period lag c .pass { c with clock := later }

section Served

variable {c c' : HeartbeatConfig T H} {e : HeartbeatEvent T H} {w : Nat} {pc : WorkerPc}

omit [DecidableEq T] [DecidableEq H] in
theorem Served.setWorker (h : Served c) (hpc : c.thread = some w → pc.Alive) :
    Served (c.setWorker w pc) := by
  refine ⟨h.thread, fun v hv => ⟨?_, (h.worker v hv).2⟩⟩
  by_cases hvw : v = w
  · subst hvw
    simpa [HeartbeatConfig.setWorker] using hpc hv
  · simpa [HeartbeatConfig.setWorker, Function.update_of_ne hvw] using (h.worker v hv).1

/-- The stop flag is raised only when the list has become empty, and lowered before the next
header is entered: no worker that still has headers to serve is stopped. -/
theorem served_step (h : Served c) (hs : HeartbeatStep c e c') : Served c' := by
  cases hs with
  | beat | joined => exact ⟨h.thread, h.worker⟩
  | enlisted _ hj => exact ⟨fun _ => hj, h.worker⟩
  | started =>
    refine ⟨fun _ => Option.some_ne_none _, fun w hw => ⟨?_, rfl⟩⟩
    obtain rfl : c.started = w := Option.some.inj hw
    show (Function.update c.workers c.started .ready c.started).Alive
    rw [Function.update_self]
    trivial
  | delisted _ header =>
    refine ⟨fun hne => h.thread ?_, h.worker⟩
    intro hnil
    exact hne (by simp [HeartbeatConfig.remaining, hnil])
  | moved => exact ⟨fun hne => absurd rfl hne, fun w hw => absurd hw (Option.some_ne_none w).symm⟩
  | ticked | woke => exact Served.setWorker ⟨h.thread, h.worker⟩ fun _ => trivial
  | halted _ hstop =>
    refine h.setWorker fun hw => ?_
    have := (h.worker _ hw).2
    simp [hstop] at this

omit [DecidableEq T] [DecidableEq H] in
theorem served_initial (beats : H → Beat) : Served (.initial beats : HeartbeatConfig T H) :=
  ⟨fun hne => absurd rfl hne, fun w hw => absurd hw (Option.some_ne_none w).symm⟩

end Served

section Stamps

variable {header : H}

omit [DecidableEq T] in
theorem lastNs_beatHeader (now : Nat) (beats : H → Beat) (a header : H) :
    (beatHeader now beats header a).lastNs = if a = header then now else (beats a).lastNs := by
  rw [beatHeader, Function.update_apply]
  split_ifs <;> rfl

omit [DecidableEq T] in
theorem lastNs_tick (now : Nat) (headers : List H) (beats : H → Beat) (a : H) :
    (heartbeatTickLocked headers now beats a).lastNs =
      if a ∈ headers then now else (beats a).lastNs := by
  induction headers generalizing beats with
  | nil => rfl
  | cons header headers ih =>
    rw [heartbeatTickLocked, List.foldl_cons, ← heartbeatTickLocked, ih, lastNs_beatHeader]
    simp only [List.mem_cons]
    split_ifs <;> first | rfl | tauto

end Stamps

/-- Every listed header was stamped not long before the worker that serves it ticked last. -/
structure Timely (period lag : Nat) (c : TimedHeartbeat T H) : Prop where
  served : Served c.heart
  past : ∀ w, c.since w ≤ c.clock
  worker : ∀ w, c.heart.thread = some w → c.clock ≤ c.since w + period
  listed : ∀ w header, c.heart.thread = some w → header ∈ c.heart.headers →
    c.since w ≤ (c.heart.beats header).lastNs + lag
  caller : ∀ t header, c.heart.callers t = .enlisting header →
    c.clock ≤ (c.heart.beats header).lastNs + lag

variable {period lag : Nat} {c c' : TimedHeartbeat T H}

omit [DecidableEq T] [DecidableEq H] in
theorem Timely.pass (h : Timely period lag c) {later : Nat} (hle : c.clock ≤ later)
    (hp : Punctual period lag c later) : Timely period lag { c with clock := later } where
  served := h.served
  past w := (h.past w).trans hle
  worker w hw := hp.workers w (h.served.worker w hw).1
  listed := h.listed
  caller := hp.callers

omit [DecidableEq T] [DecidableEq H] in
/-- Steps that store no stamp and start no worker. -/
theorem Timely.keep (h : Timely period lag c) {heart : HeartbeatConfig T H} (hserved : Served heart)
    (hbeats : heart.beats = c.heart.beats)
    (hthread : ∀ w, heart.thread = some w → c.heart.thread = some w)
    (hheaders : ∀ header ∈ heart.headers,
      header ∈ c.heart.headers ∨ c.clock ≤ (c.heart.beats header).lastNs + lag)
    (hcallers : ∀ t header, heart.callers t = .enlisting header →
      c.heart.callers t = .enlisting header) :
    Timely period lag ⟨heart, c.clock, c.since⟩ := by
  refine ⟨hserved, h.past, fun w hw => h.worker w (hthread w hw), ?_, ?_⟩
  · intro w header hw hmem
    rw [hbeats]
    rcases hheaders header hmem with hmem | hnew
    · exact h.listed w header (hthread w hw) hmem
    · exact (h.past w).trans hnew
  · intro t header ht
    rw [hbeats]
    exact h.caller t header (hcallers t header ht)

omit [DecidableEq H] in
theorem enlisting_of_setCaller {d : HeartbeatConfig T H} {t t' : T} {pc : CallerPc H} {header : H}
    (hpc : ∀ a, pc ≠ .enlisting a) (h : (d.setCaller t pc).callers t' = .enlisting header) :
    d.callers t' = .enlisting header := by
  by_cases ht : t' = t
  · subst ht
    exact absurd ((Function.update_self ..).symm.trans h) (hpc header)
  · exact (Function.update_of_ne ht ..).symm.trans h

omit [DecidableEq T] in
theorem mem_enlist {d : HeartbeatConfig T H} {a header : H} (h : a ∈ (d.enlist header).headers) :
    a ∈ d.headers ∨ a = header := by
  simp only [HeartbeatConfig.enlist] at h
  split_ifs at h
  · exact .inl h
  · simpa using h

/-- A registration starts a worker only for the first header of the list. -/
theorem Timely.started (h : Timely period lag c) {t : T} {header : H}
    (hc : c.heart.callers t = .enlisting header) (hj : c.heart.thread = none)
    (hserved : Served ((c.heart.enlist header).spawn.setCaller t .idle)) :
    Timely period lag ⟨(c.heart.enlist header).spawn.setCaller t .idle, c.clock,
      Function.update c.since c.heart.started c.clock⟩ := by
  have hempty : c.heart.headers = [] := by
    by_contra hne
    exact h.served.thread hne hj
  have hnew : Function.update c.since c.heart.started c.clock c.heart.started = c.clock :=
    Function.update_self ..
  refine ⟨hserved, ?_, ?_, ?_, ?_⟩
  · intro w
    simp only [Function.update_apply]
    split_ifs
    · exact le_rfl
    · exact h.past w
  · intro w hw
    obtain rfl : c.heart.started = w := Option.some.inj hw
    exact hnew.ge.trans (Nat.le_add_right ..)
  · intro w a hw ha
    obtain rfl : c.heart.started = w := Option.some.inj hw
    rcases mem_enlist ha with hold | rfl
    · exact absurd hold (hempty ▸ List.not_mem_nil)
    · exact hnew.le.trans (h.caller t a hc)
  · intro t' a ha
    exact h.caller t' a (enlisting_of_setCaller (by rintro a ⟨⟩) ha)

omit [DecidableEq T] [DecidableEq H] in
/-- Steps that stamp some headers; a worker is taken to have ticked only if it stamps all that
are listed. -/
theorem Timely.stamped (h : Timely period lag c) {heart : HeartbeatConfig T H} {since : Nat → Nat}
    {now : Nat} (hserved : Served heart) (hthread : heart.thread = c.heart.thread)
    (hheaders : heart.headers = c.heart.headers) (hlag : c.clock ≤ now + lag)
    (hlast : ∀ a, (heart.beats a).lastNs = now ∨
      (heart.beats a).lastNs = (c.heart.beats a).lastNs)
    (hsince : ∀ w, since w = c.since w ∨
      since w = c.clock ∧ ∀ a ∈ c.heart.headers, (heart.beats a).lastNs = now)
    (hcallers : ∀ t a, heart.callers t = .enlisting a →
      c.heart.callers t = .enlisting a ∨ (heart.beats a).lastNs = now) :
    Timely period lag ⟨heart, c.clock, since⟩ := by
  have hkeep : ∀ a x, x ≤ c.clock → x ≤ (c.heart.beats a).lastNs + lag →
      x ≤ (heart.beats a).lastNs + lag := by
    intro a x hx ha
    rcases hlast a with hl | hl <;> omega
  have hpast := h.past
  refine ⟨hserved, ?_, ?_, ?_, ?_⟩
  · intro w
    rcases hsince w with hw | ⟨hw, -⟩
    · exact hw.le.trans (hpast w)
    · exact hw.le
  · intro w hw
    have hold := h.worker w (hthread ▸ hw)
    rcases hsince w with hs | ⟨hs, -⟩ <;> simp only [hs] <;> omega
  · intro w a hw ha
    rw [hheaders] at ha
    rcases hsince w with hs | ⟨hs, hall⟩
    · exact hs.le.trans (hkeep a _ (hpast w) (h.listed w a (hthread ▸ hw) ha))
    · simp only [hs, hall a ha]
      exact hlag
  · intro t a ht
    rcases hcallers t a ht with hold | hnow
    · exact hkeep a _ le_rfl (h.caller t a hold)
    · simp only [hnow]
      exact hlag

theorem Timely.act (h : Timely period lag c) {e : HeartbeatEvent T H} {heart : HeartbeatConfig T H}
    {now : Nat} (hs : HeartbeatStep c.heart e heart) (hstamp : StampsAt now c.heart e heart)
    (hlag : c.clock ≤ now + lag) :
    Timely period lag ⟨heart, c.clock, e.since c.clock c.since⟩ := by
  have hserved := served_step h.served hs
  have hidle : ∀ a : H, CallerPc.idle ≠ .enlisting a := by
    rintro a ⟨⟩
  cases hs with
  | beat t header =>
    have hlast := fun a => (congrArg (fun b => (b a).lastNs) hstamp).trans (lastNs_beatHeader ..)
    refine h.stamped hserved rfl rfl hlag (fun a => ?_) (fun _ => .inl rfl) fun t' a ha => ?_
    · rw [hlast]
      exact ite_eq_or_eq ..
    · by_cases ht : t' = t
      · subst ht
        have ha := (Function.update_self ..).symm.trans ha
        cases ha
        exact .inr ((hlast header).trans (if_pos rfl))
      · exact .inl ((Function.update_of_ne ht ..).symm.trans ha)
  | enlisted hc =>
    refine h.keep hserved rfl (fun _ => id) (fun a ha => ?_) fun _ _ => enlisting_of_setCaller hidle
    rcases mem_enlist ha with ha | rfl
    · exact .inl ha
    · exact .inr (h.caller _ _ hc)
  | started hc hj => exact h.started hc hj hserved
  | delisted =>
    exact h.keep hserved rfl (fun _ => id) (fun a ha => .inl (List.mem_of_mem_filter ha))
      fun _ _ => id
  | moved =>
    refine h.keep hserved rfl ?_ (fun a ha => absurd ha List.not_mem_nil) fun _ _ =>
      enlisting_of_setCaller (by rintro a ⟨⟩)
    intro w hw
    exact absurd hw (Option.some_ne_none w).symm
  | joined =>
    exact h.keep hserved rfl (fun _ => id) (fun _ => .inl) fun _ _ => enlisting_of_setCaller hidle
  | @ticked v =>
    have hlast := fun a => (congrArg (fun b => (b a).lastNs) hstamp).trans (lastNs_tick ..)
    refine h.stamped hserved rfl rfl hlag (fun a => ?_) (fun w => ?_) fun _ _ => .inl
    · rw [hlast]
      exact ite_eq_or_eq ..
    · by_cases hw : w = v
      · subst hw
        exact .inr ⟨Function.update_self .., fun a ha => (hlast a).trans (if_pos ha)⟩
      · exact .inl (Function.update_of_ne hw ..)
  | halted | woke => exact h.keep hserved rfl (fun _ => id) (fun _ => .inl) fun _ _ => id

theorem timely_run {beats : H → Beat} {start : Nat} {log : List (TimedEvent T H)}
    (hrun : Run (TimedStep period lag) (.initial beats start) log c) : Timely period lag c := by
  induction hrun with
  | nil =>
    refine ⟨served_initial beats, fun _ => le_rfl, ?_, ?_, ?_⟩
    · intro w _
      exact Nat.le_add_right ..
    · intro w header _ hmem
      exact absurd hmem List.not_mem_nil
    · rintro t header ⟨⟩
  | snoc _ hs ih =>
    cases hs with
    | act hs hstamp _ hlag => exact ih.act hs hstamp hlag
    | pass hle hp => exact ih.pass hle hp

/-- The entered owner runs, and `/proc` shows no other start time for it. -/
structure OwnerRuns (processes : ProcessTable) (h : ShmHeader) : Prop where
  pid : h.ownerPid ≠ 0
  running : ∃ started, processes h.ownerPid = some started ∧
    (h.ownerStartTime = 0 ∨ ∀ s ∈ started, s = h.ownerStartTime)

theorem heartbeatStale_iff {last now : UInt64} :
    heartbeatStale last now = true ↔
      last ≠ 0 ∧ last.toNat + heartbeatDeadNs.toNat < now.toNat := by
  unfold heartbeatStale
  split_ifs with h
  · rw [UInt64.lt_iff_toNat_lt] at h
    refine iff_of_false not_false fun hlate => ?_
    rcases h with h | h
    · exact hlate.1 h
    · omega
  · rw [not_or, UInt64.not_lt, UInt64.le_iff_toNat_le] at h
    rw [decide_eq_true_iff, gt_iff_lt, UInt64.lt_iff_toNat_lt, UInt64.toNat_sub_of_le _ _
      (UInt64.le_iff_toNat_le.mpr h.2)]
    constructor
    · intro hlate
      exact ⟨h.1, by omega⟩
    · rintro ⟨-, hlate⟩
      omega

/-- A running owner is taken for dead exactly if it has beaten, and not for too long. -/
theorem OwnerRuns.ownerIsDead_iff {processes : ProcessTable} {h : ShmHeader} {now : UInt64}
    (hr : OwnerRuns processes h) :
    ownerIsDead processes h now = true ↔
      h.heartbeatLastNs ≠ 0 ∧ h.heartbeatLastNs.toNat + heartbeatDeadNs.toNat < now.toNat := by
  obtain ⟨started, htable, hstart⟩ := hr.running
  have hsame : ¬ (h.ownerStartTime ≠ 0 ∧ started.any (· != h.ownerStartTime) = true) := by
    rintro ⟨hne, hany⟩
    rcases hstart with hzero | hall
    · exact hne hzero
    · cases started with
      | none => cases hany
      | some s => simp [hall s rfl] at hany
  rw [← heartbeatStale_iff, ownerIsDead, if_neg hr.pid, htable]
  simp only [if_neg hsame]

/-- Whatever registrations, removals and worker generations have come before, a listed header is
served by a live worker that nothing has told to stop. If every live worker ticks within `period`
of its start or last tick, and every stamp is stored, and its header listed, within `lag` of reading
the clock, then the stamp of a listed header is never older than the two together; up to three
seconds, no judge that reads the clock before the stamp takes the running owner for dead. -/
theorem heartbeat_fresh {beats : H → Beat} {start : Nat} {log : List (TimedEvent T H)}
    {header : H} (hrun : Run (TimedStep period lag) (.initial beats start) log c)
    (hlisted : header ∈ c.heart.headers) :
    (∃ w, c.heart.thread = some w ∧ (c.heart.workers w).Alive ∧ c.heart.stop = false) ∧
      c.clock ≤ (c.heart.beats header).lastNs + (period + lag) ∧
      (period + lag ≤ heartbeatDeadNs.toNat →
        ∀ (processes : ProcessTable) (h : ShmHeader) (now : UInt64), OwnerRuns processes h →
          h.heartbeatLastNs.toNat = (c.heart.beats header).lastNs → now.toNat ≤ c.clock →
          ownerIsDead processes h now = false) := by
  have htimely := timely_run hrun
  obtain ⟨w, hw⟩ := Option.ne_none_iff_exists'.mp
    (htimely.served.thread (List.ne_nil_of_mem hlisted))
  have hage : c.clock ≤ (c.heart.beats header).lastNs + (period + lag) := by
    have hworker := htimely.worker w hw
    have hstamp := htimely.listed w header hw hlisted
    omega
  refine ⟨⟨w, hw, htimely.served.worker w hw⟩, hage, ?_⟩
  intro hbound processes h now hr hlast hnow
  rw [← Bool.not_eq_true, hr.ownerIsDead_iff]
  rintro ⟨-, hlate⟩
  omega

/-- A tenth of a second after its first tick the worker has ticked again. -/
theorem heartbeat_fresh_second_tick :
    ∃ log c, Run (TimedStep 150000000 1000000)
        (.initial (fun _ => ⟨0, 0⟩) 1000000000 : TimedHeartbeat Unit Unit) log c ∧
      c.clock = 1100000000 ∧
      ownerIsDead (fun _ => some none)
        { zeroHeader with ownerPid := 7, heartbeatLastNs := 1100000000 } 1100000000 = false := by
  let c₀ : TimedHeartbeat Unit Unit := .initial (fun _ => ⟨0, 0⟩) 1000000000
  let h₁ := { c₀.heart with beats := beatHeader 1000000000 c₀.heart.beats () }.setCaller ()
    (.enlisting ())
  let h₂ := (h₁.enlist ()).spawn.setCaller () .idle
  let h₃ := { h₂ with beats := heartbeatTickLocked h₂.headers 1000000000 h₂.beats }.setWorker 0
    .sleeping
  let h₄ := h₃.setWorker 0 .ready
  let h₅ := { h₄ with beats := heartbeatTickLocked h₄.headers 1100000000 h₄.beats }.setWorker 0
    .sleeping
  let tick : HeartbeatEvent Unit Unit := .ticked 0
  let c₁ : TimedHeartbeat Unit Unit := ⟨h₁, 1000000000, c₀.since⟩
  let c₂ : TimedHeartbeat Unit Unit := ⟨h₂, c₁.clock, Function.update c₁.since 0 c₁.clock⟩
  let c₃ : TimedHeartbeat Unit Unit := ⟨h₃, c₂.clock, tick.since c₂.clock c₂.since⟩
  let c₄ : TimedHeartbeat Unit Unit := { c₃ with clock := 1100000000 }
  let c₅ : TimedHeartbeat Unit Unit := ⟨h₄, c₄.clock, c₄.since⟩
  let c₆ : TimedHeartbeat Unit Unit := ⟨h₅, c₅.clock, tick.since c₅.clock c₅.since⟩
  let step := TimedStep (T := Unit) (H := Unit) 150000000 1000000
  have s₁ : step c₀ (.act (.beat () ())) c₁ :=
    .act (.beat () () 1000000000 rfl) rfl le_rfl (Nat.le_add_right ..)
  have s₂ : step c₁ (.act (.started () () 0)) c₂ :=
    .act (.started rfl rfl) trivial le_rfl (Nat.le_add_right ..)
  have s₃ : step c₂ (.act tick) c₃ :=
    .act (.ticked 1000000000 rfl rfl) rfl le_rfl (Nat.le_add_right ..)
  have hpunctual : Punctual 150000000 1000000 c₃ 1100000000 := by
    refine ⟨fun w _ => ?_, by rintro _ _ ⟨⟩⟩
    have hsince : c₃.since w = 1000000000 := by
      simp [c₃, c₂, c₁, c₀, tick, HeartbeatEvent.since, TimedHeartbeat.initial,
        Function.update_apply]
    rw [hsince]
    decide
  have s₄ : step c₃ .pass c₄ := .pass (by decide) hpunctual
  have s₅ : step c₄ (.act (.woke 0)) c₅ := .act (.woke rfl) trivial le_rfl (Nat.le_add_right ..)
  have s₆ : step c₅ (.act tick) c₆ :=
    .act (.ticked 1100000000 rfl rfl) rfl le_rfl (Nat.le_add_right ..)
  have hrun := (((((Run.single s₁).snoc s₂).snoc s₃).snoc s₄).snoc s₅).snoc s₆
  have hlisted : () ∈ c₆.heart.headers := List.mem_singleton.mpr rfl
  refine ⟨_, c₆, hrun, rfl, ?_⟩
  refine (heartbeat_fresh hrun hlisted).2.2 (by decide) _ _ _ ⟨by decide, none, rfl, .inl rfl⟩ ?_ ?_
  · rfl
  · exact le_rfl

end Shmfx
