import Shmfx.Ring.Backlog

/-! The ring when producers and the consumer may die between any two of their accesses. -/
namespace Shmfx

open Word Window Lts Mealy

universe u

variable {P : Type u}

inductive MortalEvent (P : Type u)
  | act (e : RingEvent P)
  | producerDies (p : P)
  | consumerDies

/-- Shared memory keeps what the dead have stored; their place is free for another process that
binds the same ring. -/
inductive MortalStep [DecidableEq P] : RingConfig P → MortalEvent P → RingConfig P → Prop
  | act {c c' : RingConfig P} {e : RingEvent P} (h : RingStep c e c') : MortalStep c (.act e) c'
  | producerDies {c : RingConfig P} (p : P) :
      MortalStep c (.producerDies p) ⟨c.ring, Function.update c.producers p .idle, c.consumer⟩
  | consumerDies {c : RingConfig P} : MortalStep c .consumerDies ⟨c.ring, c.producers, .idle⟩

def MortalEvent.acted : MortalEvent P → Option (RingEvent P)
  | .act e => some e
  | _ => none

/-- The accesses of a run, without the deaths. -/
def acts (log : List (MortalEvent P)) : List (RingEvent P) := log.filterMap MortalEvent.acted

theorem acts_act (log : List (MortalEvent P)) (e : RingEvent P) :
    acts (log ++ [.act e]) = acts log ++ [e] := by
  simp [acts, MortalEvent.acted]

theorem acts_death (log : List (MortalEvent P)) {e : MortalEvent P} (he : e.acted = none) :
    acts (log ++ [e]) = acts log := by
  simp [acts, List.filterMap_append, he]

/-- What became of a claim. -/
inductive Outcome
  | writing
  | pushed
  | abandoned
  deriving DecidableEq

section Ledger

variable [DecidableEq P]

/-- The claim a producer is writing, if any, ends with outcome `o`. -/
def settle (p : P) (o : Outcome) (x : Claimed P × Outcome) : Claimed P × Outcome :=
  if x.1.producer = p ∧ x.2 = .writing then (x.1, o) else x

def MortalEvent.record (l : List (Claimed P × Outcome)) :
    MortalEvent P → List (Claimed P × Outcome)
  | .act (.push p (.claim a pos)) => l ++ [(⟨p, a, pos⟩, .writing)]
  | .act (.push p (.pushed _)) => l.map (settle p .pushed)
  | .producerDies p => l.map (settle p .abandoned)
  | _ => l

/-- All claims in the order of their CAS, each with what became of it. -/
def ledger (log : List (MortalEvent P)) : List (Claimed P × Outcome) :=
  log.foldl MortalEvent.record []

/-- The records whose `try_push` returned success and that no completed `try_pop` has returned, in
claim order. -/
def owed (m : Nat) (log : List (MortalEvent P)) : List Stored :=
  ((ledger log).drop (poppedCalls (acts log)).length).filterMap fun x =>
    if x.2 = .pushed then some (x.1.push.stored m) else none

/-- Whenever the survivors are between calls, pops in a row return everything that is owed. -/
def Unwedged (m : Nat) (log : List (MortalEvent P)) (c : RingConfig P) : Prop :=
  c.BetweenCalls → PopsReturn c.ring (owed m log)

omit [DecidableEq P] in
/-- A producer dies holding no claim it has not published, the consumer not between its two
release stores, and claims leave room to count. -/
def DiesEmptyHanded (c : RingConfig P) : MortalEvent P → Prop
  | .act e => RoomToCount c e
  | .producerDies p => (c.producers p).writing = none
  | .consumerDies => ∀ out pos popped, c.consumer ≠ .releaseHead out pos popped

variable {n m : Nat} {log : List (MortalEvent P)} {c c' : RingConfig P} {e : MortalEvent P} {p : P}
  {r : Ring} {payload : Span} {recordMax maxPayload : UInt32}

theorem ledger_snoc (log : List (MortalEvent P)) (e : MortalEvent P) :
    ledger (log ++ [e]) = e.record (ledger log) := by
  simp [ledger]

theorem settle_fst (p : P) (o : Outcome) (x : Claimed P × Outcome) : (settle p o x).1 = x.1 := by
  unfold settle
  split <;> rfl

/-- The ledger lists the claims, and those not published are in their claimer's hands. -/
structure LedgerInv (log : List (MortalEvent P)) (c : RingConfig P) : Prop where
  claims : (ledger log).map (·.1) = claims (acts log)
  open_or_pushed : ∀ x ∈ ledger log, x.2 = .pushed ∨
    x.2 = .writing ∧ (c.producers x.1.producer).writing = some (x.1.push, x.1.pos)

theorem LedgerInv.pushed_of_idle (h : LedgerInv log c) {x : Claimed P × Outcome}
    (hx : x ∈ ledger log) (hw : (c.producers x.1.producer).writing = none) : x.2 = .pushed := by
  rcases h.open_or_pushed x hx with hp | ⟨-, hp⟩
  · exact hp
  · rw [hw] at hp
    cases hp

theorem map_settle_fst (p : P) (o : Outcome) (l : List (Claimed P × Outcome)) :
    (l.map (settle p o)).map (·.1) = l.map (·.1) := by
  rw [List.map_map]
  exact List.map_congr_left fun x _ => settle_fst p o x

/-- Events that neither claim nor publish leave the ledger and what is being written alone. -/
theorem ledgerInv_quiet (h : LedgerInv log c) (hrec : e.record (ledger log) = ledger log)
    (hcl : Shmfx.claims (acts (log ++ [e])) = Shmfx.claims (acts log))
    (hw : ∀ q, (c'.producers q).writing = (c.producers q).writing) : LedgerInv (log ++ [e]) c' := by
  refine ⟨by rw [ledger_snoc, hrec, hcl, h.claims], ?_⟩
  intro x hx
  rw [ledger_snoc, hrec] at hx
  rw [hw]
  exact h.open_or_pushed x hx

theorem ledgerInv_pushStep {e : PushEvent} {pc : PushPc} (h : LedgerInv log c)
    (hs : PushStep c.ring (c.producers p) e r pc) :
    LedgerInv (log ++ [.act (.push p e)])
      ⟨r, Function.update c.producers p pc, c.consumer⟩ := by
  have hacts := acts_act log (.push p e)
  by_cases hc : ∃ a pos, e = .claim a pos
  · obtain ⟨a, pos, rfl⟩ := hc
    generalize hpc : c.producers p = pc₀ at hs
    cases hs with
    | claim ht =>
      constructor
      · rw [ledger_snoc, MortalEvent.record, List.map_append, h.claims, hacts, claims_append]
        rfl
      · intro x hx
        rw [ledger_snoc, MortalEvent.record, List.mem_append, List.mem_singleton] at hx
        rcases hx with hx | rfl
        · by_cases hxp : x.1.producer = p
          · exact .inl (h.pushed_of_idle hx (by rw [hxp, hpc]; rfl))
          · simpa only [Function.update_of_ne hxp] using h.open_or_pushed x hx
        · exact .inr ⟨rfl, by simp [PushPc.writing]⟩
  · by_cases hp : ∃ a, e = .pushed a
    · obtain ⟨a, rfl⟩ := hp
      constructor
      · rw [ledger_snoc, MortalEvent.record, map_settle_fst, h.claims, hacts, claims_append]
        simp [claims, RingEvent.claimed]
      · intro x hx
        rw [ledger_snoc, MortalEvent.record, List.mem_map] at hx
        obtain ⟨y, hy, rfl⟩ := hx
        unfold settle
        split
        · exact .inl rfl
        · rename_i hnot
          rcases h.open_or_pushed y hy with hp | ⟨hp, hw⟩
          · exact .inl hp
          · have hyp : y.1.producer ≠ p := fun he => hnot ⟨he, hp⟩
            exact .inr ⟨hp, by simpa only [Function.update_of_ne hyp] using hw⟩
    · push Not at hc hp
      obtain ⟨-, hwriting⟩ := hs.quiet hc hp
      refine ledgerInv_quiet h ?_ ?_ ?_
      · cases e with
        | claim a pos => exact absurd rfl (hc a pos)
        | pushed a => exact absurd rfl (hp a)
        | _ => rfl
      · rw [hacts, claims_append]
        cases e with
        | claim a pos => exact absurd rfl (hc a pos)
        | _ => simp [claims, RingEvent.claimed]
      · intro q
        by_cases hq : q = p
        · subst hq
          simpa using hwriting
        · simp only [Function.update_of_ne hq]

theorem ledgerInv_step (h : LedgerInv log c) (hs : MortalStep c e c')
    (hok : DiesEmptyHanded c e) : LedgerInv (log ++ [e]) c' := by
  cases hs with
  | act hs =>
    cases hs with
    | push hs => exact ledgerInv_pushStep h hs
    | pop hs =>
      refine ledgerInv_quiet h rfl ?_ fun _ => rfl
      rw [acts_act, claims_append, claims_pop, List.append_nil]
  | producerDies p =>
    have hw : (c.producers p).writing = none := hok
    have hsame : (ledger log).map (settle p .abandoned) = ledger log := by
      refine (List.map_congr_left fun x hx => ?_).trans (List.map_id _)
      refine if_neg fun hx' => ?_
      have := h.pushed_of_idle hx (by rw [hx'.1, hw])
      rw [hx'.2] at this
      cases this
    refine ledgerInv_quiet h hsame (by rw [acts_death log rfl]) ?_
    intro q
    by_cases hq : q = p
    · subst hq
      simp only [Function.update_self, hw]
      rfl
    · simp only [Function.update_of_ne hq]
  | consumerDies => exact ledgerInv_quiet h rfl (by rw [acts_death log rfl]) fun _ => rfl

/-- Once nobody writes, what is owed is the whole backlog. -/
theorem LedgerInv.owed_eq (h : LedgerInv log c) (hw : ∀ p, (c.producers p).writing = none)
    (m : Nat) : owed m log = backlog m (acts log) := by
  have hall : ∀ x ∈ (ledger log).drop (poppedCalls (acts log)).length,
      (if x.2 = .pushed then some (x.1.push.stored m) else none) =
        some (x.1.push.stored m) := by
    intro x hx
    exact if_pos (h.pushed_of_idle (List.mem_of_mem_drop hx) (hw _))
  rw [owed, List.filterMap_congr hall, backlog, ← h.claims, ← List.map_drop, List.map_map]
  rw [List.filterMap_eq_map']
  rfl

/-- A dead producer that held no claim leaves the ring as it is. -/
theorem RingSafe.producerDies {log : List (RingEvent P)} (h : RingSafe n m log c)
    (hw : (c.producers p).writing = none) :
    RingSafe n m log ⟨c.ring, Function.update c.producers p .idle, c.consumer⟩ := by
  obtain ⟨hi, hk, hfew⟩ := h
  refine ⟨⟨hi.valid, hi.recordMax, hi.maxPayload, hi.tail, hi.head, hi.position, hi.released_le,
    hi.tail_le, hi.slots, ?_, hi.consumer, hi.delivered⟩, ?_, hfew⟩
  · refine (Function.forall_update_iff c.producers
      (p := fun q pc => ProducerFacts n m (claims log) c.released c.ring q pc)).mpr ⟨?_, ?_⟩
    · exact .of_not_writing rfl (by simp [PushPc.snapshot]) (by simp)
    · exact fun q _ => hi.producers q
  · intro k x hx hrel hseq
    have hwriting := hk k x hx hrel hseq
    have hne : x.producer ≠ p := by
      intro he
      rw [he, hw] at hwriting
      cases hwriting
    simpa only [Function.update_of_ne hne] using hwriting

omit [DecidableEq P] in
/-- Nor does a dead consumer, as long as it has not released a slot without moving `head`. -/
theorem RingSafe.consumerDies {log : List (RingEvent P)} (h : RingSafe n m log c)
    (hc : ∀ out pos popped, c.consumer ≠ .releaseHead out pos popped) :
    RingSafe n m log ⟨c.ring, c.producers, .idle⟩ := by
  obtain ⟨hi, hk, hfew⟩ := h
  have hrel : c.released = c.ring.head := by
    unfold RingConfig.released
    split
    · rename_i hpc
      exact absurd hpc (hc _ _ _)
    · rfl
  have hrel' : RingConfig.released ⟨c.ring, c.producers, .idle⟩ = c.released := hrel.symm
  refine ⟨⟨hi.valid, hi.recordMax, hi.maxPayload, hi.tail, hi.head, hi.position, ?_, ?_, ?_, ?_,
    ⟨by simp, by simp [PopPc.reading], by simp⟩, hi.delivered⟩, ?_, hfew⟩
  · rw [hrel']
    exact hi.released_le
  · rw [hrel']
    exact hi.tail_le
  · rw [hrel']
    exact hi.slots
  · rw [hrel']
    exact hi.producers
  · intro k x hx
    rw [hrel']
    exact hk k x hx

theorem ringSafe_mortalStep (hn : 2 ≤ n) (h : RingSafe n m (acts log) c) (hs : MortalStep c e c')
    (hok : DiesEmptyHanded c e) : RingSafe n m (acts (log ++ [e])) c' := by
  cases hs with
  | act hs =>
    rw [acts_act]
    exact ringSafe_step hn h hs hok
  | producerDies p =>
    rw [acts_death log rfl]
    exact h.producerDies hok
  | consumerDies =>
    rw [acts_death log rfl]
    exact h.consumerDies hok

/-- As long as the dead held nothing, the survivors' pops return every record owed, in claim
order. -/
theorem deaths_leave_ring_usable (hinit : initializeRing payload recordMax maxPayload = .ok r)
    (hn : 2 ≤ recordMax.toNat)
    (hrun : Run (Guarded DiesEmptyHanded MortalStep) (.initial r : RingConfig P) log c) :
    Unwedged r.ringMeta.maxPayload log c := by
  obtain ⟨rfl, hm, hs⟩ := initializeRing_ok hinit
  obtain ⟨hsafe, hledger⟩ := Run.invariant
    (I := fun log c => RingSafe recordMax.toNat _ (acts log) c ∧ LedgerInv log c)
    ⟨ringSafe_initial hm recordMax.toNat_lt hs, rfl, by simp [ledger]⟩
    (fun _ _ _ _ _ ih hstep => ⟨ringSafe_mortalStep hn ih.1 hstep.2 hstep.1,
      ledgerInv_step ih.2 hstep.2 hstep.1⟩) hrun
  intro hb
  rw [hledger.owed_eq fun p => by rw [hb.producers]; rfl]
  exact hsafe.popsReturn hb

/-- Without deaths a run is one of the ring alone. -/
theorem run_acts {log : List (RingEvent P)} (h : Run (Guarded RoomToCount RingStep) c log c') :
    Run (Guarded DiesEmptyHanded MortalStep) c (log.map .act) c' :=
  h.map (fun c => c) MortalEvent.act fun _ _ _ hs => ⟨hs.1, .act hs.2⟩

end Ledger

/-- After a push a producer that has claimed nothing and the idle consumer die; the next consumer
pops what is owed. -/
theorem deaths_leave_ring_usable_push : ∃ (log : List (MortalEvent Bool)) (c : RingConfig Bool),
    Run (Guarded DiesEmptyHanded MortalStep) (.initial (freshRing 2 64)) log c ∧
      .producerDies false ∈ log ∧ .consumerDies ∈ log ∧ (claims (acts log)).length = 1 ∧
      PopsReturn c.ring (owed 48 log) := by
  have hinit : initializeRing ⟨0, 320⟩ 2 48 = .ok (freshRing 2 64) := rfl
  let a : Push := ⟨7, 0, 9, [1, 2, 3]⟩
  obtain ⟨log, hrun, hcl, -⟩ := tryPush_run (c := .initial (freshRing 2 64)) (p := true) rfl a
  have hone : (claims log).length = 1 := by
    rw [← List.length_map (f := Claimed.push), hcl]
    decide +kernel
  have hinv := ringInv_initial (P := Bool) (show 0 < 2 by decide)
    (show recordHeaderBytes ≤ 64 by decide)
  have hguarded := run_acts (run_roomToCount le_rfl hinv hrun (by omega))
  let c : RingConfig Bool := ⟨(tryPush (freshRing 2 64) a).2, fun _ => .idle, .idle⟩
  have hproducer : Guarded DiesEmptyHanded MortalStep c (.producerDies false) c := by
    have hs : MortalStep c (.producerDies false) ⟨c.ring, _, c.consumer⟩ := .producerDies false
    rw [Function.update_eq_self] at hs
    exact ⟨rfl, hs⟩
  have hconsumer : Guarded DiesEmptyHanded MortalStep c .consumerDies c :=
    ⟨fun _ _ _ => nofun, .consumerDies⟩
  have hdies := (hguarded.snoc hproducer).snoc hconsumer
  refine ⟨_, c, hdies, by simp, by simp, ?_, ?_⟩
  · rw [acts_death _ rfl, acts_death _ rfl]
    simpa [acts, List.filterMap_map, MortalEvent.acted, Function.comp_def] using hone
  · exact deaths_leave_ring_usable hinit le_rfl hdies ⟨fun _ => rfl, rfl⟩

theorem ledger_quiet (l : List (MortalEvent Bool)) (p : Bool) (k : Nat) :
    ledger (l ++ (List.replicate k PushEvent.tau).map fun e => .act (.push p e)) = ledger l := by
  induction k with
  | zero => simp
  | succ k ih =>
    rw [List.replicate_succ', List.map_append, ← List.append_assoc, List.map_singleton, ledger_snoc,
      ih]
    rfl

theorem run_deathless {P : Type u} [DecidableEq P] {c c' : RingConfig P} {log : List (RingEvent P)}
    (h : Run RingStep c log c') : Run MortalStep c (log.map .act) c' :=
  h.map (fun c => c) MortalEvent.act fun _ _ _ hs => MortalStep.act hs

/-- An undisturbed claim of a free slot. -/
theorem claim_solo {r : Ring} (a : Push) (hv : validMeta r.ringMeta = true)
    (hd : diff64 (r.seq (r.slot r.tail)) r.tail = 0) :
    Run PushThread (r, .idle) [.call a, .tau, .tau, .tau, .claim a r.tail]
      (r.setTail (u64 (r.tail + 1)), .storeLen a r.tail) := by
  have h₁ : PushThread (r, .idle) (.call a) (r, .enter a) := PushStep.call a
  have h₂ : PushThread (r, .enter a) .tau (r, .loadTail a) := PushStep.enter hv
  have h₃ : PushThread (r, .loadTail a) .tau (r, .loadSeq a r.tail 0) := PushStep.loadTail
  have h₄ : PushThread (r, .loadSeq a r.tail 0) .tau (r, .compareExchange a r.tail 0) :=
    PushStep.seqFree hd
  exact Run.cons h₁ (Run.cons h₂ (Run.cons h₃ (Run.cons h₄ (Run.single (PushStep.claim rfl)))))

/-- A producer dies between its claim and its publishing store: the record pushed behind it is
never returned. -/
theorem dead_producer_wedges_ring : ∃ (log : List (MortalEvent Bool)) (c : RingConfig Bool),
    initializeRing ⟨0, 320⟩ 2 48 = .ok (freshRing 2 64) ∧
      Run MortalStep (.initial (freshRing 2 64)) log c ∧ c.BetweenCalls ∧ ¬ Unwedged 48 log c := by
  let a : Push := ⟨7, 0, 9, [1, 2, 3]⟩
  let r₁ := (freshRing 2 64).setTail 1
  let r₂ := r₁.setTail 2
  have hclaim₁ : Run PushThread (freshRing 2 64, .idle) [.call a, .tau, .tau, .tau, .claim a 0]
      (r₁, .storeLen a 0) := claim_solo a rfl (by decide)
  have hclaim₂ : Run PushThread (r₁, .idle) [.call a, .tau, .tau, .tau, .claim a 1]
      (r₂, .storeLen a 1) := claim_solo (r := (freshRing 2 64).setTail 1) a rfl (by decide)
  have hfirst := lift_pushThread (fun _ => PushPc.idle) .idle false hclaim₁
  rw [Function.update_eq_self] at hfirst
  have hdead := (run_deathless hfirst).snoc (.producerDies false)
  simp only [Function.update_idem] at hdead
  rw [Function.update_eq_self] at hdead
  obtain ⟨k, hfill⟩ := fill_solo r₂ a 1
  have hsecond := lift_pushThread (fun _ => PushPc.idle) .idle true (hclaim₂.append hfill)
  rw [Function.update_eq_self] at hsecond
  have hrun := hdead.append (run_deathless hsecond)
  simp only [List.map_append, List.map_map, ← List.append_assoc] at hrun
  refine ⟨_, _, rfl, hrun, ⟨fun _ => rfl, rfl⟩, ?_⟩
  intro h
  have hpop := h ⟨fun _ => rfl, rfl⟩ [[]] 0
  rw [owed, poppedCalls, acts, List.filterMap_filterMap, List.filterMap_append,
    List.filterMap_append, List.filterMap_map, List.filterMap_replicate] at hpop
  rw [List.map_singleton, ledger_snoc, show MortalEvent.act ∘ RingEvent.push true =
    fun e => .act (.push true e) from rfl, ledger_quiet] at hpop
  cases hpop

end Shmfx
