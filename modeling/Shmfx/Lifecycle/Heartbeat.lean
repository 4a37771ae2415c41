import Shmfx.Lib.Lts
import Shmfx.Lib.Word
import Mathlib.Logic.Function.Basic

/-! The heartbeat worker of one process: registration, shutdown and successive worker generations
(`shm_lifecycle.cpp`), one critical section per step. -/
namespace Shmfx

open Word Lts

universe u v

/-- The two heartbeat words of a header. -/
structure Beat where
  counter : Nat
  lastNs : Nat

inductive WorkerPc
  | unborn
  | ready
  | sleeping
  | finished
  deriving DecidableEq

/-- A worker that has not returned from `heartbeat_worker`. -/
def WorkerPc.Alive : WorkerPc → Prop
  | .ready | .sleeping => True
  | .unborn | .finished => False

/-- A thread outside calls, between the stores and the lock of `register_heartbeat_owner`, or in
the join of `unregister_heartbeat_owner`. -/
inductive CallerPc (H : Type v)
  | idle
  | enlisting (header : H)
  | joining (worker : Nat)

/-- The process's heartbeat globals with its threads. `thread` is the joinable
`g_heartbeat_thread`; workers are numbered in the order they are started. -/
structure HeartbeatConfig (T : Type u) (H : Type v) where
  headers : List H
  thread : Option Nat
  stop : Bool
  started : Nat
  workers : Nat → WorkerPc
  callers : T → CallerPc H
  beats : H → Beat

inductive HeartbeatEvent (T : Type u) (H : Type v)
  | beat (t : T) (header : H)
  | enlisted (t : T) (header : H)
  | started (t : T) (header : H) (worker : Nat)
  | delisted (t : T) (header : H)
  | moved (t : T) (header : H) (worker : Nat)
  | joined (t : T) (worker : Nat)
  | ticked (worker : Nat)
  | halted (worker : Nat)
  | woke (worker : Nat)

variable {T : Type u} {H : Type v}

def HeartbeatConfig.initial (beats : H → Beat) : HeartbeatConfig T H :=
  ⟨[], none, false, 0, fun _ => .unborn, fun _ => .idle, beats⟩

variable [DecidableEq T] [DecidableEq H]

/-- One header's share of a tick. -/
def beatHeader (now : Nat) (beats : H → Beat) (header : H) : H → Beat :=
  Function.update beats header ⟨u64 ((beats header).counter + 1), now⟩

def heartbeatTickLocked (headers : List H) (now : Nat) (beats : H → Beat) : H → Beat :=
  headers.foldl (beatHeader now) beats

namespace HeartbeatConfig

def setCaller (c : HeartbeatConfig T H) (t : T) (pc : CallerPc H) : HeartbeatConfig T H :=
  { c with callers := Function.update c.callers t pc }

def setWorker (c : HeartbeatConfig T H) (w : Nat) (pc : WorkerPc) : HeartbeatConfig T H :=
  { c with workers := Function.update c.workers w pc }

def enlist (c : HeartbeatConfig T H) (header : H) : HeartbeatConfig T H :=
  { c with headers := if header ∈ c.headers then c.headers else c.headers ++ [header] }

/-- The header list after `erase(remove(...))`. -/
def remaining (c : HeartbeatConfig T H) (header : H) : List H := c.headers.filter (· ≠ header)

/-- A new worker under a lowered stop flag. -/
def spawn (c : HeartbeatConfig T H) : HeartbeatConfig T H :=
  { c with
    stop := false
    thread := some c.started
    started := c.started + 1
    workers := Function.update c.workers c.started .ready }

end HeartbeatConfig

/-- Critical sections of the callers and of the workers, the stores before the lock, sleeps and
joins. -/
inductive HeartbeatStep : HeartbeatConfig T H → HeartbeatEvent T H → HeartbeatConfig T H → Prop
  | beat {c : HeartbeatConfig T H} (t : T) (header : H) (now : Nat) (h : c.callers t = .idle) :
      HeartbeatStep c (.beat t header)
        ({ c with beats := beatHeader now c.beats header }.setCaller t (.enlisting header))
  | enlisted {c : HeartbeatConfig T H} {t : T} {header : H} (h : c.callers t = .enlisting header)
      (hj : c.thread ≠ none) :
      HeartbeatStep c (.enlisted t header) ((c.enlist header).setCaller t .idle)
  | started {c : HeartbeatConfig T H} {t : T} {header : H} (h : c.callers t = .enlisting header)
      (hj : c.thread = none) :
      HeartbeatStep c (.started t header c.started) ((c.enlist header).spawn.setCaller t .idle)
  | delisted {c : HeartbeatConfig T H} (t : T) (header : H) (h : c.callers t = .idle)
      (hl : c.remaining header ≠ [] ∨ c.thread = none) :
      HeartbeatStep c (.delisted t header) { c with headers := c.remaining header }
  | moved {c : HeartbeatConfig T H} (t : T) (header : H) {w : Nat} (h : c.callers t = .idle)
      (hl : c.remaining header = []) (hj : c.thread = some w) :
      HeartbeatStep c (.moved t header w)
        ({ c with headers := [], stop := true, thread := none }.setCaller t (.joining w))
  | joined {c : HeartbeatConfig T H} {t : T} {w : Nat} (h : c.callers t = .joining w)
      (hw : c.workers w = .finished) : HeartbeatStep c (.joined t w) (c.setCaller t .idle)
  | ticked {c : HeartbeatConfig T H} {w : Nat} (now : Nat) (hw : c.workers w = .ready)
      (hs : c.stop = false) :
      HeartbeatStep c (.ticked w)
        ({ c with beats := heartbeatTickLocked c.headers now c.beats }.setWorker w .sleeping)
  | halted {c : HeartbeatConfig T H} {w : Nat} (hw : c.workers w = .ready) (hs : c.stop = true) :
      HeartbeatStep c (.halted w) (c.setWorker w .finished)
  | woke {c : HeartbeatConfig T H} {w : Nat} (hw : c.workers w = .sleeping) :
      HeartbeatStep c (.woke w) (c.setWorker w .ready)

def HeartbeatEvent.movedOut : HeartbeatEvent T H → Option Nat
  | .moved _ _ w => some w
  | _ => none

/-- The workers moved out to be joined so far. -/
def movedOut (log : List (HeartbeatEvent T H)) : List Nat :=
  log.filterMap HeartbeatEvent.movedOut

/-- No worker is started while an earlier one, moved out to be joined, has not returned. -/
def StartsAlone (c : HeartbeatConfig T H) : HeartbeatEvent T H → Prop
  | .started .. => ∀ w, ¬ (c.workers w).Alive
  | _ => True

/-- The worker whose step it is. -/
def HeartbeatEvent.worker : HeartbeatEvent T H → Option Nat
  | .ticked w | .halted w | .woke w => some w
  | _ => none

/-- The next check of a worker makes it return: asleep it can wake, at the check it can return and
do nothing else, the others leave it where it is, and once it has returned its join can too. -/
structure Returns (step : HeartbeatConfig T H → HeartbeatEvent T H → HeartbeatConfig T H → Prop)
    (c : HeartbeatConfig T H) (w : Nat) : Prop where
  born : c.workers w ≠ .unborn
  wakes : c.workers w = .sleeping → ∃ c', step c (.woke w) c' ∧ c'.workers w = .ready
  halts : c.workers w = .ready → ∃ c', step c (.halted w) c'
  checked : ∀ e c', c.workers w = .ready → step c e c' → e.worker = some w →
    e = .halted w ∧ c'.workers w = .finished
  kept : ∀ e c', step c e c' → e.worker ≠ some w → c'.workers w = c.workers w
  joins : ∀ t, c.callers t = .joining w → c.workers w = .finished → ∃ c', step c (.joined t w) c'

/-- A worker moved out to be joined returns at its next check. -/
def ReturnsWhenMoved
    (step : HeartbeatConfig T H → HeartbeatEvent T H → HeartbeatConfig T H → Prop) : Prop :=
  ∀ beats log c w, Run step (.initial beats) log c → w ∈ movedOut log → Returns step c w

/-- No two workers are alive that both tick later. -/
def OneTicker
    (step : HeartbeatConfig T H → HeartbeatEvent T H → HeartbeatConfig T H → Prop) : Prop :=
  ∀ beats log c log' c' v w, Run step (.initial beats) log c → (c.workers v).Alive →
    (c.workers w).Alive → v ≠ w → Run step c log' c' →
    ¬ (HeartbeatEvent.ticked v ∈ log' ∧ HeartbeatEvent.ticked w ∈ log')

section Proofs

variable {c c' : HeartbeatConfig T H} {e : HeartbeatEvent T H} {log : List (HeartbeatEvent T H)}
  {beats : H → Beat} {w : Nat}

omit [DecidableEq T] [DecidableEq H] in
theorem movedOut_snoc (log : List (HeartbeatEvent T H)) (e : HeartbeatEvent T H) :
    movedOut (log ++ [e]) = movedOut log ++ movedOut [e] := List.filterMap_append ..

/-- Ids are handed out in order, and a live worker not held by the thread object was moved out. -/
structure WorkerIds (log : List (HeartbeatEvent T H)) (c : HeartbeatConfig T H) : Prop where
  unborn : ∀ w, c.workers w = .unborn ↔ c.started ≤ w
  thread : ∀ w, c.thread = some w → w < c.started
  moved : ∀ w ∈ movedOut log, w < c.started
  alive : ∀ w, (c.workers w).Alive → c.thread = some w ∨ w ∈ movedOut log

omit [DecidableEq T] [DecidableEq H] in
/-- Steps that neither start nor move out a worker. -/
theorem WorkerIds.keep (h : WorkerIds log c) (he : movedOut [e] = [])
    (hs : c'.started = c.started) (ht : c'.thread = c.thread)
    (hu : ∀ w, c'.workers w = .unborn ↔ c.workers w = .unborn)
    (ha : ∀ w, (c'.workers w).Alive → (c.workers w).Alive) : WorkerIds (log ++ [e]) c' := by
  have hm : movedOut (log ++ [e]) = movedOut log := by rw [movedOut_snoc, he, List.append_nil]
  refine ⟨?_, ?_, ?_, ?_⟩
  · intro w
    rw [hu, hs]
    exact h.unborn w
  · rw [ht, hs]
    exact h.thread
  · rw [hm, hs]
    exact h.moved
  · intro w hw
    rw [ht, hm]
    exact h.alive w (ha w hw)

omit [DecidableEq T] [DecidableEq H] in
/-- Replacing the position of a live worker makes no worker live. -/
theorem setWorker_alive {pc : WorkerPc} (hw : (c.workers w).Alive) (v : Nat)
    (hv : ((c.setWorker w pc).workers v).Alive) : (c.workers v).Alive := by
  by_cases hvw : v = w
  · rwa [hvw]
  · simp only [HeartbeatConfig.setWorker, Function.update_of_ne hvw] at hv
    exact hv

omit [DecidableEq T] [DecidableEq H] in
theorem setWorker_unborn {pc : WorkerPc} (hw : (c.workers w).Alive) (hpc : pc ≠ .unborn)
    (v : Nat) : (c.setWorker w pc).workers v = .unborn ↔ c.workers v = .unborn := by
  by_cases hvw : v = w
  · subst hvw
    have hborn : c.workers v ≠ .unborn := by
      intro h
      rw [h] at hw
      exact hw
    simp only [HeartbeatConfig.setWorker, Function.update_self]
    exact iff_of_false hpc hborn
  · simp only [HeartbeatConfig.setWorker, Function.update_of_ne hvw]

theorem workerIds_step (h : WorkerIds log c) (hs : HeartbeatStep c e c') :
    WorkerIds (log ++ [e]) c' := by
  cases hs with
  | beat | enlisted | delisted | joined =>
    exact h.keep rfl rfl rfl (fun _ => Iff.rfl) fun _ => id
  | ticked _ hw | halted hw | woke hw =>
    refine h.keep rfl rfl rfl (setWorker_unborn ?_ (by decide)) (setWorker_alive ?_)
    · exact hw ▸ trivial
    · exact hw ▸ trivial
  | @started t header hc hj =>
    have hm : movedOut (log ++ [HeartbeatEvent.started t header c.started]) = movedOut log := by
      rw [movedOut_snoc]
      exact List.append_nil _
    refine ⟨?_, ?_, ?_, ?_⟩
    · intro w
      show Function.update c.workers c.started .ready w = .unborn ↔ c.started + 1 ≤ w
      by_cases hne : w = c.started
      · subst hne
        rw [Function.update_self]
        exact iff_of_false nofun (by omega)
      · rw [Function.update_of_ne hne, h.unborn w]
        omega
    · intro w hw
      obtain rfl : c.started = w := Option.some.inj hw
      exact Nat.lt_succ_self _
    · intro w hw
      rw [hm] at hw
      exact Nat.lt_succ_of_lt (h.moved w hw)
    · intro w hw
      rw [hm]
      by_cases hne : w = c.started
      · exact .inl (by rw [hne]; rfl)
      · have hw' : (Function.update c.workers c.started .ready w).Alive := hw
        rw [Function.update_of_ne hne] at hw'
        rcases h.alive w hw' with ht | hmem
        · rw [hj] at ht
          contradiction
        · exact .inr hmem
  | @moved t header v hc hl hj =>
    have hm : movedOut (log ++ [HeartbeatEvent.moved t header v]) = movedOut log ++ [v] :=
      movedOut_snoc ..
    refine ⟨h.unborn, ?_, ?_, ?_⟩
    · intro w hw
      simp [HeartbeatConfig.setCaller] at hw
    · intro w hw
      rw [hm, List.mem_append, List.mem_singleton] at hw
      rcases hw with hw | rfl
      · exact h.moved w hw
      · exact h.thread w hj
    · intro w hw
      rw [hm, List.mem_append, List.mem_singleton]
      rcases h.alive w hw with ht | hmem
      · rw [hj, Option.some.injEq] at ht
        exact .inr (.inr ht.symm)
      · exact .inr (.inl hmem)

omit [DecidableEq T] [DecidableEq H] in
theorem workerIds_initial (beats : H → Beat) :
    WorkerIds [] (.initial beats : HeartbeatConfig T H) where
  unborn _ := iff_of_true rfl (Nat.zero_le _)
  thread _ h := by simp [HeartbeatConfig.initial] at h
  moved _ h := by simp [movedOut] at h
  alive _ h := h.elim

theorem workerIds_run (hrun : Run HeartbeatStep (.initial beats) log c) : WorkerIds log c :=
  hrun.invariant (workerIds_initial beats) fun _ _ _ _ _ h hs => workerIds_step h hs

/-- While a worker that was moved out lives, the stop flag stays raised. -/
def StopsMoved (log : List (HeartbeatEvent T H)) (c : HeartbeatConfig T H) : Prop :=
  ∀ w, (c.workers w).Alive → w ∈ movedOut log → c.stop = true

theorem stopsMoved_step (hids : WorkerIds log c) (h : StopsMoved log c) (hok : StartsAlone c e)
    (hs : HeartbeatStep c e c') : StopsMoved (log ++ [e]) c' := by
  intro w hw hm
  rw [movedOut_snoc, List.mem_append] at hm
  cases hs with
  | beat | enlisted | delisted | joined => exact h w hw (hm.resolve_right List.not_mem_nil)
  | ticked _ hv | halted hv | woke hv =>
    refine h w (setWorker_alive ?_ w hw) (hm.resolve_right List.not_mem_nil)
    exact hv ▸ trivial
  | started =>
    have hlt := hids.moved w (hm.resolve_right List.not_mem_nil)
    have hw' : (Function.update c.workers c.started .ready w).Alive := hw
    rw [Function.update_of_ne (by omega)] at hw'
    exact absurd hw' (hok w)
  | moved => rfl

theorem stopsMoved_run (hrun : Run (Guarded StartsAlone HeartbeatStep) (.initial beats) log c) :
    StopsMoved log c := by
  induction hrun with
  | nil => exact fun _ h => h.elim
  | snoc hr hs ih => exact stopsMoved_step (workerIds_run hr.unguard) ih hs.1 hs.2

/-- Only its own steps move a worker that has been started. -/
theorem workers_kept (hs : HeartbeatStep c e c') (hw : w < c.started) (he : e.worker ≠ some w) :
    c'.workers w = c.workers w := by
  cases hs with
  | beat | enlisted | delisted | moved | joined => rfl
  | started => exact Function.update_of_ne (Nat.ne_of_lt hw) ..
  | ticked | halted | woke =>
    refine Function.update_of_ne ?_ ..
    rintro rfl
    exact he rfl

/-- Under a raised stop flag a worker at its check can only return. -/
theorem checked_stopped (hs : HeartbeatStep c e c') (hstop : c.stop = true)
    (hw : c.workers w = .ready) (he : e.worker = some w) :
    e = .halted w ∧ c'.workers w = .finished := by
  cases hs with
  | beat | enlisted | started | delisted | moved | joined => cases he
  | ticked _ _ hlow => cases hlow.symm.trans hstop
  | halted =>
    obtain rfl := Option.some.inj he
    exact ⟨rfl, Function.update_self ..⟩
  | woke hv =>
    obtain rfl := Option.some.inj he
    cases hv.symm.trans hw

theorem returnsWhenMoved_guarded :
    ReturnsWhenMoved (Guarded StartsAlone (HeartbeatStep (T := T) (H := H))) := by
  intro beats log c w hrun hm
  have hids := workerIds_run hrun.unguard
  have hstarted : w < c.started := hids.moved w hm
  have hstop (hw : c.workers w = .ready) : c.stop = true :=
    stopsMoved_run hrun w (by rw [hw]; trivial) hm
  refine ⟨?_, ?_, ?_, ?_, ?_, ?_⟩
  · intro hunborn
    exact absurd ((hids.unborn w).mp hunborn) (Nat.not_le.mpr hstarted)
  · intro hw
    exact ⟨_, ⟨trivial, .woke hw⟩, Function.update_self ..⟩
  · intro hw
    exact ⟨_, trivial, .halted hw (hstop hw)⟩
  · intro e c' hw hs he
    exact checked_stopped hs.2 (hstop hw) hw he
  · intro e c' hs he
    exact workers_kept hs.2 hstarted he
  · intro t ht hw
    exact ⟨_, trivial, .joined ht hw⟩

/-- In particular it does not tick. -/
theorem ReturnsWhenMoved.not_ticked {ok : HeartbeatConfig T H → HeartbeatEvent T H → Prop}
    (h : ReturnsWhenMoved (Guarded ok (HeartbeatStep (T := T) (H := H))))
    (hrun : Run (Guarded ok HeartbeatStep) (.initial beats) log c) (hm : w ∈ movedOut log) :
    ¬ Guarded ok HeartbeatStep c (.ticked w) c' := by
  intro hs
  have hready : c.workers w = .ready := by
    cases hs.2 with
    | ticked _ hw => exact hw
  cases ((h beats log c w hrun hm).checked _ _ hready hs rfl).1

/-- Of two live workers one was moved out already. -/
theorem oneTicker_of_returnsWhenMoved {ok : HeartbeatConfig T H → HeartbeatEvent T H → Prop}
    (h : ReturnsWhenMoved (Guarded ok (HeartbeatStep (T := T) (H := H)))) :
    OneTicker (Guarded ok (HeartbeatStep (T := T) (H := H))) := by
  rintro beats log c log' c' v w hrun hv hw hne hrun' ⟨htv, htw⟩
  have hids := workerIds_run hrun.unguard
  have hlate : ∀ u, u ∈ movedOut log → HeartbeatEvent.ticked u ∈ log' → False := by
    intro u hu ht
    obtain ⟨bs, cs, s, s', -, hbs, hstep⟩ := hrun'.exists_step ht
    refine h.not_ticked (hrun.append hbs) ?_ hstep
    rw [movedOut, List.filterMap_append]
    exact List.mem_append_left _ hu
  rcases hids.alive v hv with hv' | hv'
  · rcases hids.alive w hw with hw' | hw'
    · exact hne (Option.some.inj (hv'.symm.trans hw'))
    · exact hlate w hw' htw
  · exact hlate v hv' htv

/-- A start next to a live worker lets both go on ticking, although the first was moved out. -/
theorem ticks_after_start (hrun : Run HeartbeatStep (.initial beats) log c)
    (hs : HeartbeatStep c e c') (hbad : ¬ StartsAlone c e) :
    ∃ v w log' c'', v ≠ w ∧ v ∈ movedOut log ∧ (c'.workers v).Alive ∧ (c'.workers w).Alive ∧
      Run HeartbeatStep c' log' c'' ∧ .ticked v ∈ log' ∧ .ticked w ∈ log' := by
  have hids := workerIds_run hrun
  cases hs with
  | @started t header hc hj =>
    obtain ⟨v, hv⟩ : ∃ v, (c.workers v).Alive := by
      simpa only [StartsAlone, not_forall, not_not] using hbad
    have hm : v ∈ movedOut log := (hids.alive v hv).resolve_left (by simp [hj])
    have hne : v ≠ c.started := Nat.ne_of_lt (hids.moved v hm)
    let d := (c.enlist header).spawn.setCaller t .idle
    have hdv : d.workers v = c.workers v := Function.update_of_ne hne ..
    have hdw : d.workers c.started = .ready := Function.update_self ..
    obtain ⟨log₁, d₁, hrun₁, hready, hnew, hstop⟩ : ∃ log₁ d₁, Run HeartbeatStep d log₁ d₁ ∧
        d₁.workers v = .ready ∧ d₁.workers c.started = .ready ∧ d₁.stop = false := by
      cases hpc : c.workers v with
      | unborn | finished => simp [hpc, WorkerPc.Alive] at hv
      | ready => exact ⟨[], d, .nil, hdv.trans hpc, hdw, rfl⟩
      | sleeping =>
        refine ⟨[.woke v], _, Run.single (.woke (hdv.trans hpc)), ?_, ?_, rfl⟩
        · exact Function.update_self ..
        · exact (Function.update_of_ne hne.symm ..).trans hdw
    obtain ⟨d₂, htick₁, hnew', hstop'⟩ : ∃ d₂, HeartbeatStep d₁ (.ticked v) d₂ ∧
        d₂.workers c.started = .ready ∧ d₂.stop = false :=
      ⟨_, .ticked 0 hready hstop, (Function.update_of_ne hne.symm ..).trans hnew, hstop⟩
    have htick₂ := HeartbeatStep.ticked 0 hnew' hstop'
    refine ⟨v, c.started, _, _, hne, hm, ?_, ?_, (hrun₁.snoc htick₁).snoc htick₂, ?_, ?_⟩
    · rw [hdv]
      exact hv
    · rw [hdw]
      trivial
    · simp
    · simp
  | _ => exact absurd trivial hbad

/-- If no worker is started next to a live one, a moved-out worker returns at its next check and
no two workers go on ticking; any other start can be continued to a violation of both. -/
theorem heartbeat_shutdown :
    ReturnsWhenMoved (Guarded StartsAlone (HeartbeatStep (T := T) (H := H))) ∧
      OneTicker (Guarded StartsAlone (HeartbeatStep (T := T) (H := H))) ∧
      ∀ beats log (c : HeartbeatConfig T H) e c', Run HeartbeatStep (.initial beats) log c →
        HeartbeatStep c e c' → ¬ StartsAlone c e →
        ∃ v w log' c'', v ≠ w ∧ v ∈ movedOut log ∧ (c'.workers v).Alive ∧
          (c'.workers w).Alive ∧ Run HeartbeatStep c' log' c'' ∧ .ticked v ∈ log' ∧
          .ticked w ∈ log' :=
  ⟨returnsWhenMoved_guarded, oneTicker_of_returnsWhenMoved returnsWhenMoved_guarded,
    fun _ _ _ _ _ hrun hs hbad => ticks_after_start hrun hs hbad⟩

/-- The first worker is moved out, returns at its check and is joined; then the second is
started. -/
theorem heartbeat_shutdown_two_generations :
    ∃ log c c' log' c'', Run (Guarded StartsAlone HeartbeatStep)
        (.initial fun _ => ⟨0, 0⟩ : HeartbeatConfig Bool Bool) log c ∧
      movedOut log = [0] ∧ c.workers 0 = .ready ∧
      Guarded StartsAlone HeartbeatStep c (.halted 0) c' ∧ c'.workers 0 = .finished ∧
      Run (Guarded StartsAlone HeartbeatStep) c' log' c'' ∧ .joined false 0 ∈ log' ∧
      c''.thread = some 1 ∧ ∀ d, ¬ Guarded StartsAlone HeartbeatStep c'' (.ticked 0) d := by
  let step := Guarded StartsAlone (HeartbeatStep (T := Bool) (H := Bool))
  let c₀ : HeartbeatConfig Bool Bool := .initial fun _ => ⟨0, 0⟩
  let c₁ := { c₀ with beats := beatHeader 1 c₀.beats false }.setCaller false (.enlisting false)
  let c₂ := (c₁.enlist false).spawn.setCaller false .idle
  let c₃ := { c₂ with headers := [], stop := true, thread := none }.setCaller false (.joining 0)
  let c₄ := c₃.setWorker 0 .finished
  let c₅ := c₄.setCaller false .idle
  let c₆ := { c₅ with beats := beatHeader 2 c₅.beats true }.setCaller true (.enlisting true)
  let c₇ := (c₆.enlist true).spawn.setCaller true .idle
  have h₁ : step c₀ (.beat false false) c₁ := ⟨trivial, .beat false false 1 rfl⟩
  have h₂ : step c₁ (.started false false 0) c₂ := ⟨fun _ h => h, .started rfl rfl⟩
  have h₃ : step c₂ (.moved false false 0) c₃ := ⟨trivial, .moved false false rfl rfl rfl⟩
  have hrun := ((Run.single h₁).snoc h₂).snoc h₃
  have hreturns := heartbeat_shutdown.1 _ _ c₃ 0 hrun (List.mem_singleton.mpr rfl)
  have h₄ : step c₃ (.halted 0) c₄ := ⟨trivial, .halted rfl rfl⟩
  obtain ⟨-, hfinished⟩ := hreturns.checked _ c₄ rfl h₄ rfl
  have h₅ : step c₄ (.joined false 0) c₅ := ⟨trivial, .joined rfl hfinished⟩
  have h₆ : step c₅ (.beat true true) c₆ := ⟨trivial, .beat true true 2 rfl⟩
  have hdone : ∀ w, ¬ (c₆.workers w).Alive := by
    rintro (_ | w) h
    · exact h
    · exact h
  have h₇ : step c₆ (.started true true 1) c₇ := ⟨hdone, .started rfl rfl⟩
  refine ⟨_, c₃, c₄, _, c₇, hrun, rfl, rfl, h₄, hfinished, ((Run.single h₅).snoc h₆).snoc h₇,
    List.mem_cons_self, rfl, ?_⟩
  rintro d ⟨-, hs⟩
  cases hs with
  | ticked _ hw => cases hw

/-- One owner leaves and another arrives before the first worker has looked at the flag. -/
theorem heartbeat_shutdown_fails : ¬ ReturnsWhenMoved (HeartbeatStep (T := Bool) (H := Bool)) ∧
    ¬ OneTicker (HeartbeatStep (T := Bool) (H := Bool)) := by
  let beats : Bool → Beat := fun _ => ⟨0, 0⟩
  let c₀ : HeartbeatConfig Bool Bool := .initial beats
  let c₁ := { c₀ with beats := beatHeader 1 c₀.beats false }.setCaller false (.enlisting false)
  let c₂ := (c₁.enlist false).spawn.setCaller false .idle
  let c₃ := { c₂ with headers := [], stop := true, thread := none }.setCaller false (.joining 0)
  let c₄ := { c₃ with beats := beatHeader 2 c₃.beats true }.setCaller true (.enlisting true)
  let c₅ := (c₄.enlist true).spawn.setCaller true .idle
  have h₁ : HeartbeatStep c₀ (.beat false false) c₁ := .beat false false 1 rfl
  have h₂ : HeartbeatStep c₁ (.started false false 0) c₂ := .started rfl rfl
  have h₃ : HeartbeatStep c₂ (.moved false false 0) c₃ := .moved false false rfl rfl rfl
  have h₄ : HeartbeatStep c₃ (.beat true true) c₄ := .beat true true 2 rfl
  have h₅ : HeartbeatStep c₄ (.started true true 1) c₅ := .started rfl rfl
  have hrun := (((Run.single h₁).snoc h₂).snoc h₃).snoc h₄
  have hbad : ¬ StartsAlone c₄ (.started true true 1) := fun h => h 0 trivial
  obtain ⟨v, w, log, c, hne, hm, hv, hw, hticks, htv, htw⟩ := ticks_after_start hrun h₅ hbad
  constructor
  · intro h
    obtain ⟨bs, _, s, s', -, hbs, hstep⟩ := hticks.exists_step htv
    have hready : s.workers v = .ready := by
      cases hstep with
      | ticked _ hw => exact hw
    have hreturns := h beats _ s v ((hrun.snoc h₅).append hbs) ?_
    · cases (hreturns.checked _ s' hready hstep rfl).1
    · rw [movedOut, List.filterMap_append, List.filterMap_append]
      exact List.mem_append_left _ (List.mem_append_left _ hm)
  · intro h
    exact h beats _ c₅ log c v w (hrun.snoc h₅) hv hw hne hticks ⟨htv, htw⟩

end Proofs

end Shmfx
