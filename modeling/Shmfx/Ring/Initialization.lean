import Shmfx.Ring.Accounting
import Shmfx.Ring.Backlog

/-! The individual stores of `MpscRing::initialize` against processes that bind the same ring. -/
namespace Shmfx

open Word Lts Mealy

universe u

variable {P : Type u}

def zeroRecord : RingRecord := ⟨0, 0, 0, 0, fun _ => 0⟩

/-- The metadata and payload of a freshly created segment. -/
def zeroRing : Ring := ⟨⟨0, 0, 0, 0, 0⟩, 0, 0, fun _ => 0, fun _ => zeroRecord⟩

/-- `memset` over the payload, in address order: cursors, slot headers, records. -/
def zeroPayloadStores (recordMax : Nat) : List (Ring → Ring) :=
  [fun r => r.setHead 0, fun r => r.setTail 0] ++
    (List.range recordMax).map (fun i r => r.setSeq i 0) ++
    (List.range recordMax).map (fun i r => r.setRecord i zeroRecord)

/-- Every store of `MpscRing::initialize`, in program order. -/
def initializeStores (recordMax recordStride : Nat) : List (Ring → Ring) :=
  [fun r => { r with ringMeta := ⟨0, 0, 0, 0, 0⟩ },
    fun r => { r with ringMeta := { r.ringMeta with recordMax := recordMax } },
    fun r => { r with ringMeta := { r.ringMeta with recordStride := recordStride } },
    fun r => { r with ringMeta := { r.ringMeta with producerMode := ringProducerMpsc } },
    fun r => { r with ringMeta := { r.ringMeta with consumerMode := ringConsumerSingle } },
    fun r => { r with ringMeta := { r.ringMeta with lostCount := 0 } }] ++
    zeroPayloadStores recordMax ++
    [fun r => r.setHead 0, fun r => r.setTail 0] ++
    (List.range recordMax).map (fun i r => r.setSeq i i)

def applyStores (stores : List (Ring → Ring)) (r : Ring) : Ring :=
  stores.foldl (fun r store => store r) r

/-- `MpscRing::bind` looks at the metadata and the span only. -/
def bindRing (payload : Span) (ringMeta : RecordRingMeta) : Except ErrorCode Unit :=
  if validMeta ringMeta = false ∨ payloadAligned payload = false then .error .corruptedHeader
  else
    let required := payloadSizeFor ringMeta.recordMax ringMeta.recordStride
    if required = 0 ∨ payload.size < required then .error .corruptedHeader else .ok ()

/-- The segment with its users, how many stores `initialize` has made, and who has bound the ring;
whoever called `initialize` binds when it returns. -/
structure BootConfig (P : Type u) where
  system : RingConfig P
  done : Nat
  producerBound : P → Bool
  consumerBound : Bool

def BootConfig.initial : BootConfig P := ⟨.initial zeroRing, 0, fun _ => false, false⟩

inductive BootEvent (P : Type u)
  | store
  | bindProducer (p : P)
  | bindConsumer
  | act (e : RingEvent P)

def BootEvent.acted : BootEvent P → Option (RingEvent P)
  | .act e => some e
  | _ => none

/-- The accesses of pushes and pops in a run. -/
def ringEvents (log : List (BootEvent P)) : List (RingEvent P) := log.filterMap BootEvent.acted

theorem ringEvents_act (log : List (BootEvent P)) (e : RingEvent P) :
    ringEvents (log ++ [.act e]) = ringEvents log ++ [e] := by
  simp [ringEvents, BootEvent.acted]

theorem ringEvents_other (log : List (BootEvent P)) {e : BootEvent P} (he : e.acted = none) :
    ringEvents (log ++ [e]) = ringEvents log := by
  simp [ringEvents, List.filterMap_append, he]

def RingConfig.store (c : RingConfig P) (f : Ring → Ring) : RingConfig P :=
  ⟨f c.ring, c.producers, c.consumer⟩

inductive BootStep [DecidableEq P] (stores : List (Ring → Ring)) (payload : Span) :
    BootConfig P → BootEvent P → BootConfig P → Prop
  | store {c : BootConfig P} {f : Ring → Ring} (h : stores[c.done]? = some f) :
      BootStep stores payload c .store { c with system := c.system.store f, done := c.done + 1 }
  | bindProducer {c : BootConfig P} (p : P)
      (h : bindRing payload c.system.ring.ringMeta = .ok ()) :
      BootStep stores payload c (.bindProducer p)
        { c with producerBound := Function.update c.producerBound p true }
  | bindConsumer {c : BootConfig P} (h : bindRing payload c.system.ring.ringMeta = .ok ()) :
      BootStep stores payload c .bindConsumer { c with consumerBound := true }
  | push {c : BootConfig P} {p : P} {e : PushEvent} {s : RingConfig P}
      (hb : c.producerBound p = true) (h : RingStep c.system (.push p e) s) :
      BootStep stores payload c (.act (.push p e)) { c with system := s }
  | pop {c : BootConfig P} {e : PopEvent} {s : RingConfig P} (hb : c.consumerBound = true)
      (h : RingStep c.system (.pop e) s) :
      BootStep stores payload c (.act (.pop e)) { c with system := s }

/-- The ring is bound only after the last store of `initialize`, and claims leave room to count. -/
def BindsInitialized (stores : List (Ring → Ring)) (c : BootConfig P) : BootEvent P → Prop
  | .bindProducer _ | .bindConsumer => stores.length ≤ c.done
  | .act e => RoomToCount c.system e
  | .store => True

/-- Successful pushes are claims, pops have returned the claims in order, and pops to come return
the rest. -/
structure Delivers (m : Nat) (log : List (RingEvent P)) (c : RingConfig P) : Prop where
  pushed : (pushedCalls log).Perm ((claims log).map fun x => (x.producer, x.push))
  returned : ∀ (k : Nat) popped out, (poppedCalls log)[k]? = some (popped, out) →
    ∃ x, (claims log)[k]? = some x ∧ Shows (x.push.stored m) popped out
  owed : PopsReturn c.ring (backlog m log)

section Stores

variable {r : Ring} {n : Nat}

theorem applyStores_append (s s' : List (Ring → Ring)) (r : Ring) :
    applyStores (s ++ s') r = applyStores s' (applyStores s r) := by
  simp [applyStores]

theorem applyStores_setSeq (f : Nat → Nat) (r : Ring) (n : Nat) :
    applyStores ((List.range n).map fun i r => r.setSeq i (f i)) r =
      { r with seq := fun i => if i < n then f i else r.seq i } := by
  induction n with
  | zero => simp [applyStores]
  | succ n ih =>
    rw [List.range_succ, List.map_append, applyStores_append, ih]
    simp only [applyStores, List.map_cons, List.map_nil, List.foldl_cons, List.foldl_nil,
      Ring.setSeq]
    congr 1
    funext i
    by_cases hi : i = n
    · subst hi
      simp
    · have : i < n + 1 ↔ i < n := by omega
      simp [Function.update_of_ne hi, this]

theorem applyStores_setRecord (cell : RingRecord) (r : Ring) (n : Nat) :
    applyStores ((List.range n).map fun i r => r.setRecord i cell) r =
      { r with record := fun i => if i < n then cell else r.record i } := by
  induction n with
  | zero => simp [applyStores]
  | succ n ih =>
    rw [List.range_succ, List.map_append, applyStores_append, ih]
    simp only [applyStores, List.map_cons, List.map_nil, List.foldl_cons, List.foldl_nil,
      Ring.setRecord]
    congr 1
    funext i
    by_cases hi : i = n
    · subst hi
      simp
    · have : i < n + 1 ↔ i < n := by omega
      simp [Function.update_of_ne hi, this]

/-- On a zero-filled segment the stores leave a fresh ring. -/
theorem applyStores_all (recordMax recordStride : Nat) :
    applyStores (initializeStores recordMax recordStride) zeroRing =
      freshRing recordMax recordStride := by
  rw [initializeStores, zeroPayloadStores, applyStores_append, applyStores_append,
    applyStores_append, applyStores_append, applyStores_append, applyStores_setSeq fun i => i,
    applyStores_setRecord, applyStores_setSeq fun _ => 0]
  simp [applyStores, freshRing, zeroRing, zeroRecord, Ring.setHead, Ring.setTail]

end Stores

section Runs

variable [DecidableEq P] {stores : List (Ring → Ring)} {payload : Span} {r : Ring}
  {recordMax maxPayload : UInt32} {log : List (BootEvent P)} {c c' : BootConfig P}
  {e : BootEvent P}

/-- While `initialize` is under way nobody uses the ring. -/
structure Booting (stores : List (Ring → Ring)) (log : List (BootEvent P)) (c : BootConfig P) :
    Prop where
  running : c.done < stores.length
  unbound : (∀ p, c.producerBound p = false) ∧ c.consumerBound = false
  unused : ringEvents log = []
  system : c.system = .initial (applyStores (stores.take c.done) zeroRing)

/-- Once it is done the ring starts from all of its stores. -/
structure Booted (stores : List (Ring → Ring)) (log : List (BootEvent P)) (c : BootConfig P) :
    Prop where
  done : c.done = stores.length
  run : Run (Guarded RoomToCount RingStep) (.initial (applyStores stores zeroRing))
    (ringEvents log) c.system

theorem booting_step (h : Booting stores log c) (hs : BootStep stores payload c e c')
    (hok : BindsInitialized stores c e) :
    Booting stores (log ++ [e]) c' ∨ Booted stores (log ++ [e]) c' := by
  have hrunning := h.running
  cases hs with
  | @store f hf =>
    have hunused := (ringEvents_other log (e := .store) rfl).trans h.unused
    have hsystem : c.system.store f =
        .initial (applyStores (stores.take (c.done + 1)) zeroRing) := by
      rw [List.take_add_one, hf, applyStores_append, h.system]
      rfl
    by_cases hlast : c.done + 1 < stores.length
    · exact .inl ⟨hlast, h.unbound, hunused, hsystem⟩
    · have hall : stores.take (c.done + 1) = stores := List.take_of_length_le (by omega)
      rw [hall] at hsystem
      refine .inr ⟨by simp only; omega, ?_⟩
      rw [hunused, hsystem]
      exact .nil
  | bindProducer | bindConsumer =>
    have hdone : stores.length ≤ c.done := hok
    omega
  | push hb =>
    rw [h.unbound.1] at hb
    cases hb
  | pop hb =>
    rw [h.unbound.2] at hb
    cases hb

theorem booted_step (h : Booted stores log c) (hs : BootStep stores payload c e c')
    (hok : BindsInitialized stores c e) : Booted stores (log ++ [e]) c' := by
  cases hs with
  | store hf =>
    rw [h.done, List.getElem?_eq_none le_rfl] at hf
    cases hf
  | bindProducer p => exact ⟨h.done, by rw [ringEvents_other log rfl]; exact h.run⟩
  | bindConsumer => exact ⟨h.done, by rw [ringEvents_other log rfl]; exact h.run⟩
  | push _ hs => exact ⟨h.done, by rw [ringEvents_act]; exact h.run.snoc ⟨hok, hs⟩⟩
  | pop _ hs => exact ⟨h.done, by rw [ringEvents_act]; exact h.run.snoc ⟨hok, hs⟩⟩

theorem boot_run (hstores : stores ≠ [])
    (hrun : Run (Guarded (BindsInitialized stores) (BootStep stores payload)) .initial log c) :
    Booting stores log c ∨ Booted stores log c := by
  refine Run.invariant (I := fun log c => Booting stores log c ∨ Booted stores log c)
    (.inl ⟨List.length_pos_iff.mpr hstores, ⟨fun _ => rfl, rfl⟩, rfl, rfl⟩) ?_ hrun
  rintro log c e c' - (h | h) hs
  · exact booting_step h hs.2 hs.1
  · exact .inr (booted_step h hs.2 hs.1)

/-- If the ring is bound only after `initialize` has made its last store, nothing that was pushed
is lost to it. -/
theorem bound_initialized_delivers (hinit : initializeRing payload recordMax maxPayload = .ok r)
    (hn : 2 ≤ recordMax.toNat)
    (hstores : stores = initializeStores recordMax.toNat (recordStrideFor maxPayload.toNat))
    (hrun : Run (Guarded (BindsInitialized stores) (BootStep stores payload)) .initial log c)
    (hdone : c.done = stores.length) (hb : c.system.BetweenCalls) :
    Delivers r.ringMeta.maxPayload (ringEvents log) c.system := by
  obtain ⟨rfl, hm, hs⟩ := initializeRing_ok hinit
  subst hstores
  rcases boot_run (by simp [initializeStores]) hrun with h | h
  · have := h.running
    omega
  · have hguarded := h.run
    rw [applyStores_all] at hguarded
    have hsafe := Run.invariant
      (I := fun log c => RingSafe recordMax.toNat (recordStrideFor maxPayload.toNat -
        recordHeaderBytes) log c)
      (ringSafe_initial hm recordMax.toNat_lt hs)
      (fun _ _ _ _ _ ih hstep => ringSafe_step hn ih hstep.2 hstep.1) hguarded
    exact ⟨pushed_perm_claims hguarded.unguard hb.producers, hsafe.inv.delivered,
      hsafe.popsReturn hb⟩

/-- The next `k` stores, whatever else is going on. -/
theorem bootStores_run (c : BootConfig P) {k : Nat} (hk : c.done + k ≤ stores.length) :
    Run (Guarded (BindsInitialized stores) (BootStep stores payload)) c (List.replicate k .store)
      { c with system := c.system.store (applyStores ((stores.drop c.done).take k)),
               done := c.done + k } := by
  induction k with
  | zero => exact .nil
  | succ k ih =>
    have hlt : c.done + k < stores.length := by omega
    have hget : (stores.drop c.done)[k]? = some stores[c.done + k] := by
      rw [List.getElem?_drop, List.getElem?_eq_getElem hlt]
    rw [List.replicate_succ', List.take_add_one, hget]
    refine (ih (by omega)).snoc ⟨trivial, ?_⟩
    have hstep : BootStep stores payload _ .store _ := .store (c :=
      { c with system := c.system.store (applyStores ((stores.drop c.done).take k)),
               done := c.done + k }) (List.getElem?_eq_getElem hlt)
    simpa [RingConfig.store, applyStores, Nat.add_assoc] using hstep

/-- Whoever is bound runs as on the ring alone. -/
theorem acts_run {ok : RingConfig P → RingEvent P → Prop}
    {ok' : BootConfig P → BootEvent P → Prop} (hok : ∀ c e, ok c.system e → ok' c (.act e))
    (c : BootConfig P) (hp : ∀ p, c.producerBound p = true) (hc : c.consumerBound = true)
    {log : List (RingEvent P)} {s s' : RingConfig P} (h : Run (Guarded ok RingStep) s log s') :
    Run (Guarded ok' (BootStep stores payload)) { c with system := s } (log.map .act)
      { c with system := s' } := by
  refine h.map (fun s => { c with system := s }) BootEvent.act ?_
  rintro s (⟨p, e⟩ | e) t ⟨hroom, hstep⟩
  · exact ⟨hok { c with system := s } _ hroom, .push (c := { c with system := s }) (hp p) hstep⟩
  · exact ⟨hok { c with system := s } _ hroom, .pop (c := { c with system := s }) hc hstep⟩

end Runs

theorem ringEvents_acts (l : List (BootEvent P)) (log : List (RingEvent P))
    (hl : ringEvents l = []) : ringEvents (l ++ log.map .act) = log := by
  have hacts : ringEvents (log.map BootEvent.act) = log := by
    simp [ringEvents, List.filterMap_map, BootEvent.acted, Function.comp_def]
  rw [ringEvents, List.filterMap_append]
  exact (congrArg₂ (· ++ ·) hl hacts).trans (List.nil_append log)

/-- The ring of one producer, bound by both sides after `k` stores. -/
def bootedAt (r : Ring) (k : Nat) : BootConfig Unit :=
  ⟨.initial r, k, Function.update (fun _ => false) () true, true⟩

theorem bind_run {r : Ring} {k : Nat} {stores : List (Ring → Ring)} {payload : Span}
    {ok : BootConfig Unit → BootEvent Unit → Prop} (h : bindRing payload r.ringMeta = .ok ())
    (hp : ∀ c, c.done = k → ok c (.bindProducer ())) (hc : ∀ c, c.done = k → ok c .bindConsumer) :
    Run (Guarded ok (BootStep stores payload)) ⟨.initial r, k, fun _ => false, false⟩
      [.bindProducer (), .bindConsumer] (bootedAt r k) :=
  .cons ⟨hp _ rfl, .bindProducer () h⟩ (.single ⟨hc _ rfl, .bindConsumer h⟩)

/-- Sixteen stores, then both sides bind and the producer pushes. -/
theorem bound_initialized_delivers_push : ∃ (log : List (BootEvent Unit)) (c : BootConfig Unit),
    Run (Guarded (BindsInitialized (initializeStores 2 64))
      (BootStep (initializeStores 2 64) ⟨0, 320⟩)) .initial log c ∧
      (claims (ringEvents log)).length = 1 ∧ Delivers 48 (ringEvents log) c.system := by
  have hinit : initializeRing ⟨0, 320⟩ 2 48 = .ok (freshRing 2 64) := rfl
  let a : Push := ⟨7, 0, 9, [1, 2, 3]⟩
  obtain ⟨log, hrun, hcl, -⟩ := tryPush_run (c := .initial (freshRing 2 64)) (p := ()) rfl a
  have hone : (claims log).length = 1 := by
    rw [← List.length_map (f := Claimed.push), hcl]
    decide +kernel
  have hinv := ringInv_initial (P := Unit) (show 0 < 2 by decide)
    (show recordHeaderBytes ≤ 64 by decide)
  have hroom := run_roomToCount le_rfl hinv hrun (by omega)
  have hfresh : RingConfig.store (.initial zeroRing)
      (applyStores (((initializeStores 2 64).drop 0).take 16)) =
        (.initial (freshRing 2 64) : RingConfig Unit) := by
    rw [← applyStores_all]
    rfl
  have hbooted : Run (Guarded (BindsInitialized (initializeStores 2 64))
      (BootStep (initializeStores 2 64) ⟨0, 320⟩)) .initial (List.replicate 16 .store)
        (⟨.initial (freshRing 2 64), 16, fun _ => false, false⟩ : BootConfig Unit) := by
    rw [← hfresh]
    exact bootStores_run .initial (by decide)
  have hlate : ∀ c : BootConfig Unit, c.done = 16 → (initializeStores 2 64).length ≤ c.done :=
    fun c hc => hc ▸ (by decide)
  have hbound := hbooted.append (bind_run rfl hlate hlate)
  have hall := hbound.append (acts_run (fun _ _ h => h) (bootedAt (freshRing 2 64) 16)
    (fun _ => rfl) rfl hroom)
  have hlog := ringEvents_acts (List.replicate 16 .store ++ [.bindProducer (), .bindConsumer]) log
    rfl
  refine ⟨_, _, hall, by rw [hlog, hone], ?_⟩
  exact bound_initialized_delivers hinit le_rfl rfl hall rfl ⟨fun _ => rfl, rfl⟩

/-- A producer binds once the metadata is in place and pushes; the rest of `initialize` erases its
record. -/
theorem initialize_erases_record : ∃ (log : List (BootEvent Unit)) (c : BootConfig Unit),
    initializeRing ⟨0, 320⟩ 2 48 = .ok (freshRing 2 64) ∧
      Run (BootStep (initializeStores 2 64) ⟨0, 320⟩) .initial log c ∧
      c.done = (initializeStores 2 64).length ∧ c.system.BetweenCalls ∧
      ¬ Delivers 48 (ringEvents log) c.system := by
  let a : Push := ⟨7, 0, 9, [1, 2, 3]⟩
  have hbind : bindRing ⟨0, 320⟩ (applyStores ((initializeStores 2 64).take 6) zeroRing).ringMeta =
      .ok () := by decide +kernel
  have hok : succeeded (tryPush (applyStores ((initializeStores 2 64).take 6) zeroRing) a).1 =
      true := by decide +kernel
  have hnone : (tryPop (applyStores (((initializeStores 2 64).drop 6).take 10)
      (tryPush (applyStores ((initializeStores 2 64).take 6) zeroRing) a).2) []).1 = none := by
    decide +kernel
  have hfirst : Run (BootStep (initializeStores 2 64) ⟨0, 320⟩) (.initial : BootConfig Unit)
      (List.replicate 6 .store)
      ⟨.initial (applyStores ((initializeStores 2 64).take 6) zeroRing), 6, fun _ => false,
        false⟩ := (bootStores_run _ (by decide)).unguard
  have hlast : ∀ r, Run (BootStep (initializeStores 2 64) ⟨0, 320⟩) (bootedAt r 6)
      (List.replicate 10 .store)
      (bootedAt (applyStores (((initializeStores 2 64).drop 6).take 10) r) 16) :=
    fun r => (bootStores_run (bootedAt r 6) (by simp only [bootedAt]; decide)).unguard
  generalize applyStores ((initializeStores 2 64).take 6) zeroRing = r at hbind hok hnone hfirst
  obtain ⟨log, hrun, hcl, hpop⟩ := tryPush_run (c := .initial r) (p := ()) rfl a
  have hfree : Run (Guarded (fun _ _ => True) RingStep) _ log _ :=
    hrun.guard fun _ _ _ _ _ _ _ _ => trivial
  have hboth : Run (Guarded (fun _ _ => True) (BootStep (initializeStores 2 64) ⟨0, 320⟩)) _ _
      (bootedAt r 6) := bind_run hbind (fun _ _ => trivial) (fun _ _ => trivial)
  have hacts : Run (Guarded (fun _ _ => True) (BootStep (initializeStores 2 64) ⟨0, 320⟩)) _ _ _ :=
    acts_run (fun _ _ h => h) (bootedAt r 6) (fun _ => rfl) rfl hfree
  have hall := ((hfirst.append hboth.unguard).append hacts.unguard).append (hlast (tryPush r a).2)
  refine ⟨_, _, rfl, hall, rfl, ⟨fun _ => rfl, rfl⟩, ?_⟩
  intro h
  have hlog : ringEvents (List.replicate 6 .store ++ [.bindProducer (), .bindConsumer] ++
      log.map .act ++ List.replicate 10 .store) = log := by
    refine Eq.trans ?_ (ringEvents_acts
      (List.replicate 6 .store ++ [.bindProducer (), .bindConsumer]) log rfl)
    rw [ringEvents, List.filterMap_append, List.filterMap_replicate]
    exact List.append_nil _
  have hclaimed : (claims log).map Claimed.push = [a] := by
    rw [hcl]
    exact if_pos hok
  have hback : backlog 48 log = [a.stored 48] := by
    rw [backlog, hpop, List.length_nil, List.drop_zero]
    exact List.map_map.symm.trans (congrArg (List.map (·.stored 48)) hclaimed)
  have howed := h.owed [[]] 0
  rw [hlog, hback] at howed
  simp [replies, bootedAt, RingConfig.initial, hnone] at howed

end Shmfx
