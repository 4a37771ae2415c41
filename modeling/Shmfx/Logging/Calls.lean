import Shmfx.Logging.LogCenter

/-! Whole log calls and whole pops of the `LogCenter` as runs of its model. -/
namespace Shmfx

open Lts Word

universe u v

/-- Of what a producer calls and returns, only the call under way is missing. -/
theorem pushThread_called {s t : Ring × PushPc} {es : List PushEvent} (h : Run PushThread s es t) :
    s.2.current.toList ++ es.filterMap PushEvent.called =
      (es.filterMap PushEvent.returned).map (·.1) ++ t.2.current.toList := by
  induction h with
  | nil => simp
  | @snoc es u e t _ hs ih =>
    have hone := hs.current_eq
    rw [List.filterMap_append, List.filterMap_append, List.map_append, ← List.append_assoc, ih,
      List.append_assoc, List.append_assoc]
    congr 1
    cases hc : e.called <;> cases hr : e.returned <;> simp_all

/-- Until it claims, a producer moves neither the tail nor the geometry. -/
theorem pushThread_tail {s t : Ring × PushPc} {es : List PushEvent} (h : Run PushThread s es t)
    (hnone : es.filterMap PushEvent.claimed = []) :
    t.1.tail = s.1.tail ∧ t.1.ringMeta.recordMax = s.1.ringMeta.recordMax := by
  induction h with
  | nil => exact ⟨rfl, rfl⟩
  | @snoc es u e t _ hs ih =>
    rw [List.filterMap_append, List.append_eq_nil_iff] at hnone
    obtain ⟨htail, hmax⟩ := ih hnone.1
    have hone : t.1.tail = u.1.tail ∧ t.1.ringMeta.recordMax = u.1.ringMeta.recordMax := by
      obtain ⟨r, pc⟩ := u
      obtain ⟨r', pc'⟩ := t
      simp only [PushThread] at hs
      cases hs with
      | claim => simp [PushEvent.claimed] at hnone
      | _ => exact ⟨rfl, rfl⟩
    exact ⟨hone.1.trans htail, hone.2.trans hmax⟩

/-- An undisturbed push calls with its own record and claims, if at all, at the tail it finds. -/
theorem tryPush_guarded (r : Ring) (a : Push)
    (hroom : r.tail + r.ringMeta.recordMax < 2 ^ 64) :
    ∃ es, Run (Guarded (fun s e => (∀ b, e.called = some b → b = a) ∧
        ∀ b pos, e = .claim b pos → s.1.tail + s.1.ringMeta.recordMax < 2 ^ 64) PushThread)
        (r, .idle) es ((tryPush r a).2, .idle) ∧
      es.filterMap PushEvent.claimed = if succeeded (tryPush r a).1 then [a] else [] := by
  obtain ⟨es, hrun, hret, hcl⟩ := tryPush_solo r a
  refine ⟨es, hrun.guard ?_, hcl⟩
  rintro bs e cs s s' rfl hbs -
  have hcalled := pushThread_called hrun
  rw [hret] at hcalled
  have hone : ((bs ++ e :: cs).filterMap PushEvent.claimed).length ≤ 1 := by
    rw [hcl]
    split <;> simp
  constructor
  · intro b hb
    have hmem : b ∈ (bs ++ e :: cs).filterMap PushEvent.called :=
      List.mem_filterMap.mpr ⟨e, by simp, hb⟩
    simp only [PushPc.current, Option.toList_none, List.nil_append, List.append_nil] at hcalled
    rw [hcalled] at hmem
    simpa using hmem
  · rintro b pos rfl
    have hnone : bs.filterMap PushEvent.claimed = [] := by
      rw [List.filterMap_append, List.length_append,
        List.filterMap_cons_some (show PushEvent.claimed (.claim b pos) = some b from rfl),
        List.length_cons] at hone
      exact List.length_eq_zero_iff.mp (by omega)
    obtain ⟨htail, hmax⟩ := pushThread_tail hbs hnone
    rw [htail, hmax]
    exact hroom

section Runs

variable {P : Type u} {O : Type v} [DecidableEq O] {options : CenterOptions}
  {nameOf : O → Name} {c : LogConfig P O} {i : Nat} {drained count : UInt32}
  {scratch : List UInt8} {a : AttachedRing O}

/-- Only claims need room to count. -/
theorem leavesRoom_quiet {e : LogEvent P O} (h : ∀ o p pe, e ≠ .push o p pe) :
    LeavesRoom c e := by
  intro o re hre
  cases e with
  | push o' p pe => exact absurd rfl (h o' p pe)
  | pop | sink =>
    simp only [LogEvent.onRing] at hre
    split at hre <;> cases hre
    trivial
  | _ => cases hre

namespace LogConfig

/-- One producer of a ring at its accesses. -/
def atPush [DecidableEq P] (c : LogConfig P O) (o : O) (p : P) (s : Ring × PushPc) :
    LogConfig P O :=
  c.setRing o ⟨s.1, Function.update (c.rings o).producers p s.2, (c.rings o).consumer⟩

/-- The consumer of a ring at its accesses. -/
def atPop (c : LogConfig P O) (o : O) (s : Ring × PopPc) : LogConfig P O :=
  c.setRing o ⟨s.1, (c.rings o).producers, s.2⟩

theorem atPush_idle [DecidableEq P] {o : O} {p : P} (hp : (c.rings o).producers p = .idle)
    (r : Ring) :
    c.atPush o p (r, .idle) = c.setRing o ⟨r, (c.rings o).producers, (c.rings o).consumer⟩ := by
  simp only [atPush, ← hp, Function.update_eq_self]

@[simp] theorem atPush_rings [DecidableEq P] (o : O) (p : P) (s : Ring × PushPc) :
    (c.atPush o p s).rings o =
      ⟨s.1, Function.update (c.rings o).producers p s.2, (c.rings o).consumer⟩ := by
  rw [atPush, rings_setRing_self]

@[simp] theorem atPop_rings (o : O) (s : Ring × PopPc) :
    (c.atPop o s).rings o = ⟨s.1, (c.rings o).producers, s.2⟩ := by
  rw [atPop, rings_setRing_self]

@[simp] theorem setRing_setRing (o : O) (s t : RingConfig P) :
    (c.setRing o s).setRing o t = c.setRing o t := by
  simp only [setRing, Function.update_idem]

@[simp] theorem setRing_rings (o : O) : c.setRing o (c.rings o) = c := by
  simp only [setRing, Function.update_eq_self]

/-- The `LogCenter` between two pops of a ring. -/
def betweenPops (c : LogConfig P O) (o : O) (r : Ring) (pc : CenterPc) : LogConfig P O :=
  (c.atPop o (r, .idle)).setCenter pc

@[simp] theorem betweenPops_rings (o : O) (r : Ring) (pc : CenterPc) :
    (c.betweenPops o r pc).rings o = ⟨r, (c.rings o).producers, .idle⟩ :=
  atPop_rings o (r, .idle)

@[simp] theorem betweenPops_betweenPops (o : O) (r r' : Ring) (pc pc' : CenterPc) :
    (c.betweenPops o r pc).betweenPops o r' pc' = c.betweenPops o r' pc' := by
  simp only [betweenPops, atPop, setCenter, setRing, Function.update_self, Function.update_idem]

/-- The last access of a pop leads there. -/
theorem betweenPops_atPop (o : O) (s : Ring × PopPc) (r : Ring) (pc : CenterPc) :
    c.betweenPops o r pc =
      ((c.atPop o s).setRing o ⟨r, (c.rings o).producers, .idle⟩).setCenter pc := by
  rw [betweenPops, atPop, atPop, setRing_setRing]

theorem betweenPops_self {o : O} (h : (c.rings o).consumer = .idle) :
    c.betweenPops o (c.rings o).ring c.center = c := by
  have hring : (⟨(c.rings o).ring, (c.rings o).producers, .idle⟩ : RingConfig P) = c.rings o := by
    rw [← h]
  simp only [betweenPops, atPop, hring, setRing_rings]
  rfl

end LogConfig

variable [DecidableEq P]

/-- Whatever else is going on, a thread between calls can log. -/
theorem log_run (options : CenterOptions) (nameOf : O → Name) {o : O} {p : P} {call : LogCall}
    {now : UInt64} {x : Push}
    (hp : (c.rings o).producers p = .idle) (hcall : call.pushed now = .ok x)
    (hroom : (c.rings o).ring.tail + (c.rings o).ring.ringMeta.recordMax < 2 ^ 64) :
    ∃ es : List PushEvent, Run (Guarded LeavesRoom (LogStep options nameOf)) c
        (es.map (.push o p)) (c.setRing o ⟨(tryPush (c.rings o).ring x).2,
          (c.rings o).producers, (c.rings o).consumer⟩) ∧
      es.filterMap PushEvent.claimed =
        if succeeded (tryPush (c.rings o).ring x).1 then [x] else [] := by
  obtain ⟨es, hrun, hcl⟩ := tryPush_guarded (c.rings o).ring x hroom
  refine ⟨es, ?_, hcl⟩
  have hstart : c.atPush o p ((c.rings o).ring, .idle) = c := by
    rw [LogConfig.atPush_idle hp]
    exact LogConfig.setRing_rings o
  rw [← LogConfig.atPush_idle hp]
  nth_rewrite 1 [← hstart]
  refine hrun.map (c.atPush o p) (LogEvent.push o p) ?_
  rintro s e t ⟨⟨hcalled, hclaim⟩, hstep⟩
  have hrs : RingStep ((c.atPush o p s).rings o) (.push p e)
      ⟨t.1, Function.update (c.rings o).producers p t.2, (c.rings o).consumer⟩ := by
    rw [LogConfig.atPush_rings]
    exact ringStep_pushThread _ _ p hstep
  have hset : c.atPush o p t = (c.atPush o p s).setRing o
      ⟨t.1, Function.update (c.rings o).producers p t.2, (c.rings o).consumer⟩ :=
    (LogConfig.setRing_setRing o _ _).symm
  refine ⟨?_, ?_⟩
  · intro o' re hre
    simp only [LogEvent.onRing] at hre
    split at hre
    · rename_i ho
      subst ho
      cases hre
      cases e with
      | claim b pos =>
        rw [LogConfig.atPush_rings]
        exact hclaim b pos rfl
      | _ => trivial
    · cases hre
  · rw [hset]
    cases hc : e.called with
    | none => exact .push hc hrs
    | some b =>
      obtain rfl := hcalled b hc
      cases e <;> cases hc
      exact .log hcall hrs

/-- The accesses of a pop up to its last one. -/
theorem popping_run (hpc : c.center = .popping i drained count scratch)
    (ha : c.attached[i]? = some a) (hcount : count < options.drainBatch)
    (hidle : (c.rings a.ring).consumer = .idle) {es : List PopEvent} {s : Ring × PopPc}
    (hrun : Run PopThread ((c.rings a.ring).ring, .enter scratch) es s)
    (htau : ∀ x ∈ es, x = .tau) :
    Run (Guarded LeavesRoom (LogStep options nameOf)) c
      (.pop a.ring (.call scratch) :: es.map (.pop a.ring)) (c.atPop a.ring s) := by
  have hcall : RingStep (c.rings a.ring) (.pop (.call scratch))
      ⟨(c.rings a.ring).ring, (c.rings a.ring).producers, .enter scratch⟩ :=
    .pop (hidle ▸ PopStep.call scratch)
  refine Run.cons ⟨leavesRoom_quiet nofun, .call hpc ha hcount hcall⟩ ?_
  have hquiet : Run (Guarded (fun _ e => e = .tau) PopThread) ((c.rings a.ring).ring,
      .enter scratch) es s := by
    refine hrun.guard ?_
    rintro bs e cs u u' rfl - -
    exact htau e (by simp)
  refine hquiet.map (c.atPop a.ring) (LogEvent.pop a.ring) ?_
  rintro u e t ⟨rfl, hstep⟩
  refine ⟨leavesRoom_quiet nofun, ?_⟩
  have hrs : RingStep ((c.atPop a.ring u).rings a.ring) (.pop .tau)
      ⟨t.1, (c.rings a.ring).producers, t.2⟩ := by
    rw [LogConfig.atPop_rings]
    exact .pop hstep
  have hset : c.atPop a.ring t =
      (c.atPop a.ring u).setRing a.ring ⟨t.1, (c.rings a.ring).producers, t.2⟩ :=
    (LogConfig.setRing_setRing a.ring _ _).symm
  rw [hset]
  exact .pop hpc ha hrs

/-- A whole pop up to its last access, which is the one that returns. -/
theorem pop_run (options : CenterOptions) (nameOf : O → Name)
    (hpc : c.center = .popping i drained count scratch)
    (ha : c.attached[i]? = some a) (hcount : count < options.drainBatch)
    (hidle : (c.rings a.ring).consumer = .idle) :
    ∃ (es : List PopEvent) (s : Ring × PopPc) (e : PopEvent),
      Run (Guarded LeavesRoom (LogStep options nameOf)) c (es.map (.pop a.ring))
        (c.atPop a.ring s) ∧
      RingStep ((c.atPop a.ring s).rings a.ring) (.pop e)
        ⟨(tryPop (c.rings a.ring).ring scratch).2, (c.rings a.ring).producers, .idle⟩ ∧
      e.returned = some (tryPop (c.rings a.ring).ring scratch).1 := by
  obtain ⟨es, s, e, hrun, htau, hlast, hret⟩ := tryPop_accesses (c.rings a.ring).ring scratch
  refine ⟨.call scratch :: es, s, e, popping_run hpc ha hcount hidle hrun htau, ?_, hret⟩
  rw [LogConfig.atPop_rings]
  exact .pop hlast

/-- A pop that finds a record hands it to the sink. -/
theorem sink_run (options : CenterOptions) (nameOf : O → Name)
    (hpc : c.center = .popping i drained count scratch)
    (ha : c.attached[i]? = some a) (hcount : count < options.drainBatch)
    (hidle : (c.rings a.ring).consumer = .idle) {popped : PoppedRecord} {out : List UInt8}
    (hpop : (tryPop (c.rings a.ring).ring scratch).1 = some (popped, out)) :
    ∃ es : List PopEvent, Run (Guarded LeavesRoom (LogStep options nameOf)) c
      (es.map (.pop a.ring) ++ [.sink a.ring popped out (logRecord a.name popped out)])
      (c.betweenPops a.ring (tryPop (c.rings a.ring).ring scratch).2
        (.popping i drained (count + 1) out)) := by
  obtain ⟨es, s, e, hrun, hlast, hret⟩ := pop_run options nameOf hpc ha hcount hidle
  rw [hpop] at hret
  obtain rfl : e = .popped popped out := by
    cases e with
    | popped x out' =>
      simp only [PopEvent.returned, Option.some.injEq, Prod.mk.injEq] at hret
      rw [hret.1, hret.2]
    | _ => cases hret
  refine ⟨es, hrun.snoc ⟨leavesRoom_quiet nofun, ?_⟩⟩
  rw [LogConfig.betweenPops_atPop a.ring s]
  exact .sink hpc ha hlast

/-- One that finds none ends the loop on its ring. -/
theorem empty_run (options : CenterOptions) (nameOf : O → Name)
    (hpc : c.center = .popping i drained count scratch)
    (ha : c.attached[i]? = some a) (hcount : count < options.drainBatch)
    (hidle : (c.rings a.ring).consumer = .idle)
    (hpop : (tryPop (c.rings a.ring).ring scratch).1 = none) :
    ∃ es : List PopEvent, Run (Guarded LeavesRoom (LogStep options nameOf)) c
      (es.map (.pop a.ring) ++ [.pop a.ring .empty])
      (c.betweenPops a.ring (tryPop (c.rings a.ring).ring scratch).2
        (.draining (i + 1) (drained + count))) := by
  obtain ⟨es, s, e, hrun, hlast, hret⟩ := pop_run options nameOf hpc ha hcount hidle
  rw [hpop] at hret
  obtain rfl : e = .empty := by
    cases e with
    | empty => rfl
    | _ => cases hret
  refine ⟨es, hrun.snoc ⟨leavesRoom_quiet nofun, ?_⟩⟩
  rw [LogConfig.betweenPops_atPop a.ring s]
  exact .empty hpc ha hlast

/-- Finding a ring in the registry attaches it. -/
theorem attach_run (options : CenterOptions) {o : O} {entry : RegistryEntry}
    (hpc : c.center = .idle) (htype : entry.segmentType = SegmentType.recordRing.code)
    (hname : entryName entry = nameOf o)
    (hnew : ∀ a ∈ c.attached, a.name ≠ nameOf o) (hdead : c.dead o = false) :
    Run (Guarded LeavesRoom (LogStep options nameOf)) c [.tau, .tau, .tau, .tau]
      { c with
        linked := Function.update c.linked (nameOf o) (some o)
        attached := c.attached ++ [⟨nameOf o, o, false⟩]
        center := .idle } := by
  have hobject : ∀ o', some o = some o' → nameOf o' = nameOf o := by
    rintro _ ⟨⟩
    rfl
  refine .cons ⟨leavesRoom_quiet nofun, .link (nameOf o) (some o) hobject⟩ ?_
  refine .cons ⟨leavesRoom_quiet nofun, .discover [entry] hpc⟩ ?_
  have hlinked : Function.update c.linked (nameOf o) (some o) (entryName entry) = some o := by
    rw [hname]
    exact Function.update_self ..
  rw [← hname] at hnew
  refine .cons ⟨leavesRoom_quiet nofun, .attach rfl htype hnew hlinked hdead⟩ ?_
  rw [hname]
  exact .single ⟨leavesRoom_quiet nofun, .discovered rfl⟩

omit [DecidableEq O] [DecidableEq P] in
theorem foldl_tally_push (o : O) (p : P) (es : List PushEvent) (k : Nat) :
    (es.map (LogEvent.push o p)).foldl LogEvent.tally k = k := by
  induction es with
  | nil => rfl
  | cons e es ih => exact ih

omit [DecidableEq O] [DecidableEq P] in
theorem foldl_tally_pop (o : O) (es : List PopEvent) (k : Nat) :
    (es.map (LogEvent.pop o : PopEvent → LogEvent P O)).foldl LogEvent.tally k = k := by
  induction es with
  | nil => rfl
  | cons e es ih => exact ih

omit [DecidableEq P] in
theorem ringLog_push_map (o : O) (p : P) (es : List PushEvent) :
    ringLog o (es.map (LogEvent.push o p)) = es.map (RingEvent.push p) := by
  rw [ringLog, List.filterMap_map]
  refine List.filterMap_eq_map_iff_forall_eq_some.mpr ?_
  intro e _
  exact if_pos rfl

omit [DecidableEq P] in
theorem ringLog_pop_map (o : O) (es : List PopEvent) :
    ringLog o (es.map (LogEvent.pop o : PopEvent → LogEvent P O)) = es.map RingEvent.pop := by
  rw [ringLog, List.filterMap_map]
  refine List.filterMap_eq_map_iff_forall_eq_some.mpr ?_
  intro e _
  exact if_pos rfl

omit [DecidableEq P] in
theorem sinkFrom_push_map (o : O) (p : P) (es : List PushEvent) :
    sinkFrom o (es.map (LogEvent.push o p)) = [] := by
  simp only [sinkFrom, List.filterMap_map, List.filterMap_eq_nil_iff]
  exact fun _ _ => rfl

omit [DecidableEq P] in
theorem sinkFrom_pop_map (o : O) (es : List PopEvent) :
    sinkFrom o (es.map (LogEvent.pop o : PopEvent → LogEvent P O)) = [] := by
  simp only [sinkFrom, List.filterMap_map, List.filterMap_eq_nil_iff]
  exact fun _ _ => rfl

/-- While the `LogCenter` drains a ring, what is logged there goes to the sink at once. -/
theorem round_run (options : CenterOptions) (nameOf : O → Name) {p : P} {call : LogCall}
    {now : UInt64} {x : Push} {n m h lost : Nat}
    (hpc : c.center = .popping i drained count scratch) (ha : c.attached[i]? = some a)
    (hcount : count < options.drainBatch) (hp : (c.rings a.ring).producers p = .idle)
    (hidle : (c.rings a.ring).consumer = .idle) (hcall : call.pushed now = .ok x)
    (hr : Represents (c.rings a.ring).ring n m h h ⟨[], lost⟩) (hroom : h + n < 2 ^ 64) :
    ∃ es r out, Run (Guarded LeavesRoom (LogStep options nameOf)) c es
        (c.betweenPops a.ring r (.popping i drained (count + 1) out)) ∧
      Represents r n m (h + 1) (h + 1) ⟨[], lost⟩ ∧
      (∀ k, es.foldl LogEvent.tally k = k + 1) ∧
      (claims (ringLog a.ring es)).map Claimed.push = [x] ∧
      sinkFrom a.ring es = [logRecord a.name ((x.stored m).view scratch).1
        ((x.stored m).view scratch).2] := by
  have hpos := hr.pos
  have hfits : Fits n h := .inl (by omega)
  have htail : (c.rings a.ring).ring.tail + (c.rings a.ring).ring.ringMeta.recordMax < 2 ^ 64 := by
    rw [hr.tail, hr.recordMax, u64_of_lt (by omega)]
    exact hroom
  obtain ⟨es, hlog, hclaims⟩ := log_run options nameOf hp hcall htail
  obtain ⟨hok, hpush⟩ := hr.push (a := x) hfits (by omega)
  obtain ⟨hpopped, hpop⟩ := hpush.pop hfits rfl scratch
  rcases hview : (x.stored m).view scratch with ⟨popped, out⟩
  rw [hview] at hpopped
  rw [hidle] at hlog
  obtain ⟨d, hd⟩ : ∃ d, d = c.setRing a.ring ⟨(tryPush (c.rings a.ring).ring x).2,
      (c.rings a.ring).producers, .idle⟩ := ⟨_, rfl⟩
  have hring : d.rings a.ring =
      ⟨(tryPush (c.rings a.ring).ring x).2, (c.rings a.ring).producers, .idle⟩ := by
    rw [hd]
    exact Function.update_self ..
  rw [← hd] at hlog
  obtain ⟨es', hsink⟩ := sink_run options nameOf (c := d) (by rw [hd]; exact hpc)
    (by rw [hd]; exact ha) hcount (congrArg RingConfig.consumer hring)
    (by rw [hring]; exact hpopped)
  have hend : ∀ r pc, d.betweenPops a.ring r pc = c.betweenPops a.ring r pc := by
    intro r pc
    rw [hd]
    exact LogConfig.betweenPops_betweenPops (c := c) a.ring _ r c.center pc
  rw [hring, hend] at hsink
  refine ⟨_, _, _, hlog.append hsink, hpop, ?_, ?_, ?_⟩
  · intro k
    simp only [List.foldl_append, List.foldl_cons, List.foldl_nil, foldl_tally_push,
      foldl_tally_pop, LogEvent.tally]
  · rw [hok] at hclaims
    rw [ringLog_append, ringLog_snoc, ringLog_push_map, ringLog_pop_map, claims_append,
      claims_append, List.map_append, claims_push_map, hclaims, claims_pop_map]
    simp [LogEvent.onRing, claims, succeeded, RingEvent.claimed]
  · rw [sinkFrom_append, sinkFrom_snoc, sinkFrom_push_map, sinkFrom_pop_map]
    simp [LogEvent.sunk]

/-- `k` times over. -/
theorem rounds_run (options : CenterOptions) (nameOf : O → Name) {p : P} {call : LogCall}
    {now : UInt64} {x : Push} {n m h lost : Nat}
    (hpc : c.center = .popping i drained count scratch) (ha : c.attached[i]? = some a)
    (hp : (c.rings a.ring).producers p = .idle) (hidle : (c.rings a.ring).consumer = .idle)
    (hcall : call.pushed now = .ok x)
    (hr : Represents (c.rings a.ring).ring n m h h ⟨[], lost⟩) (k : Nat)
    (hroom : h + k + n ≤ 2 ^ 64) (hcount : count.toNat + k ≤ options.drainBatch.toNat) :
    ∃ es r out, Run (Guarded LeavesRoom (LogStep options nameOf)) c es
        (c.betweenPops a.ring r (.popping i drained (count + UInt32.ofNat k) out)) ∧
      Represents r n m (h + k) (h + k) ⟨[], lost⟩ ∧
      ∀ j, es.foldl LogEvent.tally j = j + k := by
  induction k with
  | zero =>
    refine ⟨[], (c.rings a.ring).ring, scratch, ?_, hr, fun _ => rfl⟩
    rw [show count + UInt32.ofNat 0 = count by simp, ← hpc, LogConfig.betweenPops_self hidle]
    exact .nil
  | succ k ih =>
    obtain ⟨es, r, out, hrun, hr', htally⟩ := ih (by omega) (by omega)
    have hlt : count + UInt32.ofNat k < options.drainBatch := by
      have hmax := options.drainBatch.toNat_lt
      rw [UInt32.lt_iff_toNat_lt, UInt32.toNat_add, UInt32.toNat_ofNat']
      omega
    have hring := LogConfig.betweenPops_rings (c := c) a.ring r
      (.popping i drained (count + UInt32.ofNat k) out)
    obtain ⟨es', r', out', hrun', hr'', htally', -⟩ := round_run options nameOf (p := p)
      (c := c.betweenPops a.ring r (.popping i drained (count + UInt32.ofNat k) out))
      rfl ha hlt (by rw [hring]; exact hp) (congrArg RingConfig.consumer hring) hcall
      (by rw [hring]; exact hr') (by omega)
    rw [LogConfig.betweenPops_betweenPops, UInt32.add_assoc] at hrun'
    refine ⟨_, r', out', UInt32.ofNat_add k 1 ▸ hrun.append hrun', hr'', ?_⟩
    intro j
    rw [List.foldl_append, htally, htally', Nat.add_assoc]

theorem LogStep.visit_as {dead : Bool} (h : c.center = .draining i drained)
    (ha : c.attached[i]? = some a) (hdead : c.dead a.ring = dead) :
    LogStep options nameOf c (.visited a.ring dead)
      ((c.setAttached (c.attached.set i (a.mark dead))).setCenter
        (.popping i drained 0 (List.replicate options.scratchBytes.toNat 0))) :=
  hdead ▸ .visit h ha

/-- Looking at a ring that is alive changes nothing but the position. -/
theorem LogStep.visit_alive (h : c.center = .draining i drained) (ha : c.attached[i]? = some a)
    (hdead : c.dead a.ring = false) :
    LogStep options nameOf c (.visited a.ring false)
      (c.setCenter (.popping i drained 0 (List.replicate options.scratchBytes.toNat 0))) := by
  have hsame : c.setAttached (c.attached.set i (a.mark false)) = c := by
    obtain ⟨hi, rfl⟩ := List.getElem?_eq_some_iff.mp ha
    have hmark : c.attached[i].mark false = c.attached[i] := by
      simp only [AttachedRing.mark, Bool.or_false]
    rw [hmark, List.set_getElem_self]
    rfl
  have hvisit : LogStep options nameOf c _ _ := .visit_as h ha hdead
  rwa [hsame] at hvisit

/-- A full batch makes `drain_once` go on to the next ring. -/
theorem next_run (options : CenterOptions) (nameOf : O → Name) {b : AttachedRing O}
    (hpc : c.center = .popping i drained count scratch) (ha : c.attached[i]? = some a)
    (hcount : options.drainBatch ≤ count) (hidle : (c.rings a.ring).consumer = .idle)
    (hb : c.attached[i + 1]? = some b) (hdead : c.dead b.ring = false) :
    Run (Guarded LeavesRoom (LogStep options nameOf)) c [.tau, .visited b.ring false]
      (c.setCenter (.popping (i + 1) (drained + count) 0
        (List.replicate options.scratchBytes.toNat 0))) := by
  refine .cons ⟨leavesRoom_quiet nofun, .batch hpc ha hcount hidle⟩ ?_
  exact .single ⟨leavesRoom_quiet nofun, .visit_alive rfl hb hdead⟩

/-- All rings of a list attached, none used yet. -/
def LogConfig.ready (nameOf : O → Name) (rings : O → Ring) (os : List O)
    (linked : Name → Option O) : LogConfig P O :=
  ⟨fun o => .initial (rings o), fun _ => false, linked,
    os.map fun o => ⟨nameOf o, o, false⟩, .idle⟩

theorem ready_run (options : CenterOptions) (rings : O → Ring) {os : List O}
    (hnames : (os.map nameOf).Nodup)
    (hentry : ∀ o, ∃ entry : RegistryEntry, entry.segmentType = SegmentType.recordRing.code ∧
      entryName entry = nameOf o) :
    ∃ log linked, Run (Guarded LeavesRoom (LogStep options nameOf)) (.initial rings) log
      (.ready nameOf rings os linked : LogConfig P O) ∧ ∀ e ∈ log, e = .tau := by
  induction os using List.reverseRecOn with
  | nil => exact ⟨[], fun _ => none, .nil, nofun⟩
  | append_singleton os o ih =>
    rw [List.map_append, List.nodup_append] at hnames
    obtain ⟨log, linked, hrun, htau⟩ := ih hnames.1
    obtain ⟨entry, htype, hname⟩ := hentry o
    have hnew : ∀ a ∈ (LogConfig.ready nameOf rings os linked : LogConfig P O).attached,
        a.name ≠ nameOf o := by
      intro a ha
      obtain ⟨o', ho', rfl⟩ := List.mem_map.mp ha
      exact hnames.2.2 _ (List.mem_map_of_mem ho') _ (by simp)
    have hattach := attach_run options rfl htype hname hnew rfl
    have hend : (⟨fun o => .initial (rings o), fun _ => false,
        Function.update linked (nameOf o) (some o),
        (os.map fun o => ⟨nameOf o, o, false⟩) ++ [⟨nameOf o, o, false⟩], .idle⟩ : LogConfig P O) =
        .ready nameOf rings (os ++ [o]) (Function.update linked (nameOf o) (some o)) := by
      simp only [LogConfig.ready, List.map_append, List.map_cons, List.map_nil]
    refine ⟨_, _, hend ▸ hrun.append hattach, ?_⟩
    intro e he
    rcases List.mem_append.mp he with he | he
    · exact htau e he
    · simpa using he

/-- The first pass has begun and looks at the first of the attached rings. -/
def LogConfig.opened (options : CenterOptions) (nameOf : O → Name) (rings : O → Ring)
    (os : List O) (linked : Name → Option O) : LogConfig P O :=
  (LogConfig.ready nameOf rings os linked).setCenter
    (.popping 0 0 0 (List.replicate options.scratchBytes.toNat 0))

theorem opened_run (options : CenterOptions) (rings : O → Ring) {o : O} {os : List O}
    (hnames : ((o :: os).map nameOf).Nodup)
    (hentry : ∀ o, ∃ entry : RegistryEntry, entry.segmentType = SegmentType.recordRing.code ∧
      entryName entry = nameOf o) :
    ∃ log linked, Run (Guarded LeavesRoom (LogStep options nameOf)) (.initial rings) log
        (.opened options nameOf rings (o :: os) linked : LogConfig P O) ∧
      passCalls log = 0 ∧ ∀ o, ringLog o log = [] := by
  obtain ⟨log, linked, hrun, htau⟩ := ready_run (P := P) options rings hnames hentry
  let c : LogConfig P O := .ready nameOf rings (o :: os) linked
  have hbegin : Guarded LeavesRoom (LogStep options nameOf) c .begun
      (c.setCenter (.draining 0 0)) := ⟨leavesRoom_quiet nofun, .begin rfl⟩
  have hvisit : Guarded LeavesRoom (LogStep options nameOf) (c.setCenter (.draining 0 0))
      (.visited o false) (.opened options nameOf rings (o :: os) linked) :=
    ⟨leavesRoom_quiet nofun, .visit_alive (a := ⟨nameOf o, o, false⟩) rfl rfl rfl⟩
  refine ⟨_, linked, (hrun.snoc hbegin).snoc hvisit, ?_, ?_⟩
  · rw [passCalls_snoc, passCalls_snoc]
    rfl
  · intro o'
    have hquiet : ringLog o' log = [] := List.filterMap_eq_nil_iff.mpr fun e he => by
      rw [htau e he]
      rfl
    rw [ringLog_snoc, ringLog_snoc, hquiet]
    rfl

end Runs

end Shmfx
