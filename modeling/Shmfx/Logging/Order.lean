import Shmfx.Logging.Calls

/-! The sink receives from every ring its claims in order, across any number of drain passes. -/
namespace Shmfx

open Lts Word

universe u v

variable {P : Type u} {O : Type v} {n m : O → Nat} {options : CenterOptions} {nameOf : O → Name}
  {log : List (LogEvent P O)} {c c' : LogConfig P O} {e : LogEvent P O} {o : O}

/-- Made by some log call. -/
def Logged (a : Push) : Prop := ∃ (call : LogCall) (now : UInt64), call.pushed now = .ok a

/-- The caller's buffer inside a pop. -/
def PopPc.buffer : PopPc → Option (List UInt8)
  | .idle => none
  | .enter out | .loadHead out | .loadSeq out _ | .loadLen out _ | .copy out _ _ _
  | .loadType out _ _ | .loadFlags out _ _ _ | .loadUser out _ _ _ _ | .releaseSlot out _ _
  | .releaseHead out _ _ => some out

/-- A pop fills the buffer it was called with. -/
theorem PopStep.buffer_length {r r' : Ring} {pc pc' : PopPc} {e : PopEvent}
    (h : PopStep r pc e r' pc') {out : List UInt8} (hb : pc'.buffer = some out) :
    ∃ out', (pc.buffer = some out' ∨ e = .call out') ∧ out.length = out'.length := by
  cases h with
  | call out' =>
    cases hb
    exact ⟨_, .inr rfl, rfl⟩
  | copyByte hj =>
    cases hb
    exact ⟨_, .inl rfl, List.length_set⟩
  | reject | seqOther | releaseHead => cases hb
  | _ =>
    cases hb
    exact ⟨_, .inl rfl, rfl⟩

theorem PopStep.popped_buffer {r r' : Ring} {pc pc' : PopPc} {popped : PoppedRecord}
    {out : List UInt8} (h : PopStep r pc (.popped popped out) r' pc') :
    pc.buffer = some out := by
  cases h
  rfl

/-- The push a call is carrying is the one it was called with. -/
theorem PushStep.current_of {r r' : Ring} {pc pc' : PushPc} {e : PushEvent} {a : Push}
    (h : PushStep r pc e r' pc') (ha : pc'.current = some a) :
    pc.current = some a ∨ e.called = some a := by
  have heq := h.current_eq
  rw [ha] at heq
  have hmem : a ∈ pc.current.toList ++ e.called.toList := by
    rw [heq]
    simp
  simpa using hmem

theorem PushStep.claimed_current {r r' : Ring} {pc pc' : PushPc} {a : Push} {pos : Nat}
    (h : PushStep r pc (.claim a pos) r' pc') : pc.current = some a := by
  cases h
  rfl

section Steps

variable [DecidableEq P] [DecidableEq O]

/-- A step is an access of the ring it names and leaves the others alone. -/
theorem LogStep.ring (h : LogStep options nameOf c e c') (o : O) :
    (e.onRing o = none ∧ c'.rings o = c.rings o) ∨
      ∃ re, e.onRing o = some re ∧ RingStep (c.rings o) re (c'.rings o) := by
  have hset : ∀ (d : LogConfig P O) (o' : O) (s : RingConfig P) (re : RingEvent P),
      e.onRing o = (if o' = o then some re else none) →
      d.rings = Function.update c.rings o' s → RingStep (c.rings o') re s →
      (e.onRing o = none ∧ d.rings o = c.rings o) ∨
        ∃ re, e.onRing o = some re ∧ RingStep (c.rings o) re (d.rings o) := by
    intro d o' s re he hd hs
    by_cases ho : o' = o
    · subst ho
      rw [if_pos rfl] at he
      refine .inr ⟨re, he, ?_⟩
      rwa [hd, Function.update_self]
    · rw [if_neg ho] at he
      refine .inl ⟨he, ?_⟩
      rw [hd, Function.update_of_ne (Ne.symm ho)]
  cases h with
  | log _ hs => exact hset _ _ _ _ rfl rfl hs
  | push _ hs => exact hset _ _ _ _ rfl rfl hs
  | call _ _ _ hs => exact hset _ _ _ _ rfl rfl hs
  | pop _ _ hs => exact hset _ _ _ _ rfl rfl hs
  | empty _ _ hs => exact hset _ _ _ _ rfl rfl hs
  | sink _ _ hs => exact hset _ _ _ _ rfl rfl hs
  | _ => exact .inl ⟨rfl, rfl⟩

/-- Every ring stays safe as long as its claims leave room to count. -/
theorem ringSafe_logStep (hn : ∀ o, 2 ≤ n o)
    (h : ∀ o, RingSafe (n o) (m o) (ringLog o log) (c.rings o))
    (hs : LogStep options nameOf c e c') (hroom : LeavesRoom c e) (o : O) :
    RingSafe (n o) (m o) (ringLog o (log ++ [e])) (c'.rings o) := by
  rw [ringLog_snoc]
  rcases hs.ring o with ⟨he, hsame⟩ | ⟨re, he, hstep⟩
  · rw [he, hsame, Option.toList_none, List.append_nil]
    exact h o
  · rw [he, Option.toList_some]
    exact ringSafe_step (hn o) (h o) hstep (hroom o re he)

/-- Attached rings carry the name of their object. -/
structure WellNamed (nameOf : O → Name) (c : LogConfig P O) : Prop where
  attached : ∀ a ∈ c.attached, nameOf a.ring = a.name
  linked : ∀ name o, c.linked name = some o → nameOf o = name

omit [DecidableEq P] [DecidableEq O] in
theorem wellNamed_initial (rings : O → Ring) : WellNamed nameOf (.initial rings : LogConfig P O) :=
  ⟨by simp [LogConfig.initial], by simp [LogConfig.initial]⟩

theorem wellNamed_step (h : WellNamed nameOf c) (hs : LogStep options nameOf c e c') :
    WellNamed nameOf c' := by
  cases hs with
  | link name object hobject =>
    refine ⟨h.attached, ?_⟩
    intro name' o hl
    by_cases hname : name' = name
    · subst hname
      simp only [Function.update_self] at hl
      exact hobject o hl
    · simp only [Function.update_of_ne hname] at hl
      exact h.linked name' o hl
  | attach _ _ _ hlink =>
    refine ⟨?_, h.linked⟩
    intro a ha
    rcases List.mem_append.mp ha with ha | ha
    · exact h.attached a ha
    · rw [List.mem_singleton.mp ha]
      exact h.linked _ _ hlink
  | @visit i drained a _ ha =>
    refine ⟨?_, h.linked⟩
    intro b hb
    rcases List.mem_or_eq_of_mem_set hb with hb | rfl
    · exact h.attached b hb
    · exact h.attached a (List.mem_of_getElem? ha)
  | finish =>
    refine ⟨?_, h.linked⟩
    intro a ha
    exact h.attached a (List.mem_filter.mp ha).1
  | _ => exact ⟨h.attached, h.linked⟩

/-- Pops are made, and return, with a buffer of the configured size. -/
structure Buffers (options : CenterOptions) (log : List (LogEvent P O)) (c : LogConfig P O) :
    Prop where
  scratch : ∀ i drained count scratch, c.center = .popping i drained count scratch →
    scratch.length = options.scratchBytes.toNat
  inCall : ∀ o out, (c.rings o).consumer.buffer = some out →
    out.length = options.scratchBytes.toNat
  returned : ∀ o, ∀ x ∈ poppedCalls (ringLog o log), x.2.length = options.scratchBytes.toNat

theorem LogStep.call_scratch (h : LogStep options nameOf c e c') {out : List UInt8}
    (he : e.onRing o = some (.pop (.call out))) :
    ∃ i drained count, c.center = .popping i drained count out := by
  cases h with
  | @call i drained count scratch a s hpc ha =>
    by_cases ho : a.ring = o
    · obtain rfl : scratch = out := by simpa [LogEvent.onRing, ho] using he
      exact ⟨_, _, _, hpc⟩
    · simp [LogEvent.onRing, ho] at he
  | log | push | pop | empty | sink =>
    simp only [LogEvent.onRing] at he
    split at he <;> simp at he
  | _ => simp [LogEvent.onRing] at he

theorem buffers_step (h : Buffers options log c) (hs : LogStep options nameOf c e c') :
    Buffers options (log ++ [e]) c' := by
  have hin : ∀ o out, (c'.rings o).consumer.buffer = some out →
      out.length = options.scratchBytes.toNat := by
    intro o out hout
    rcases hs.ring o with ⟨-, hsame⟩ | ⟨re, he, hstep⟩
    · rw [hsame] at hout
      exact h.inCall o out hout
    · generalize c'.rings o = s at hstep hout
      cases hstep with
      | push hp => exact h.inCall o out hout
      | pop hp =>
        obtain ⟨out', hb | rfl, hlen⟩ := hp.buffer_length hout
        · rw [hlen]
          exact h.inCall o out' hb
        · obtain ⟨_, _, _, hpc⟩ := hs.call_scratch he
          rw [hlen]
          exact h.scratch _ _ _ _ hpc
  have hret : ∀ o, ∀ x ∈ poppedCalls (ringLog o (log ++ [e])),
      x.2.length = options.scratchBytes.toNat := by
    intro o x hx
    rw [ringLog_snoc, poppedCalls_append, List.mem_append] at hx
    rcases hx with hx | hx
    · exact h.returned o x hx
    · rcases hs.ring o with ⟨he, -⟩ | ⟨re, he, hstep⟩
      · simp [he, poppedCalls] at hx
      · rw [he] at hx
        generalize c'.rings o = s at hstep
        cases hstep with
        | push hp => cases hx
        | @pop e' r pc hp =>
          cases e' with
          | popped popped out =>
            obtain rfl : x = (popped, out) := by simpa [poppedCalls, RingEvent.popped] using hx
            exact h.inCall o out hp.popped_buffer
          | _ => cases hx
  refine ⟨?_, hin, hret⟩
  cases hs with
  | visit _ ha =>
    rintro _ _ _ _ ⟨⟩
    simp
  | sink _ ha hstep =>
    rintro _ _ _ _ ⟨⟩
    cases hstep with
    | pop hp => exact h.inCall _ _ hp.popped_buffer
  | discover | skip | attach | attachFails | discovered | begin | empty | batch | finish =>
    rintro _ _ _ _ ⟨⟩
  | _ => exact h.scratch

/-- The sink has received what the pops of a ring returned. -/
def Sunk (nameOf : O → Name) (log : List (LogEvent P O)) : Prop :=
  ∀ o, sinkFrom o log = (poppedCalls (ringLog o log)).map fun x => logRecord (nameOf o) x.1 x.2

theorem sunk_step (hnamed : WellNamed nameOf c) (h : Sunk nameOf log)
    (hs : LogStep options nameOf c e c') : Sunk nameOf (log ++ [e]) := by
  intro o
  rw [sinkFrom_snoc, ringLog_snoc, poppedCalls_append, List.map_append, ← h o]
  congr 1
  cases hs with
  | @sink i drained count scratch out a s popped _ ha =>
    have hname := hnamed.attached a (List.mem_of_getElem? ha)
    by_cases ho : a.ring = o
    · subst ho
      simp [LogEvent.sunk, LogEvent.onRing, poppedCalls, RingEvent.popped, hname]
    · simp [LogEvent.sunk, LogEvent.onRing, poppedCalls, ho]
  | log | push | call | pop | empty =>
    simp only [LogEvent.sunk, LogEvent.onRing]
    split <;> rfl
  | _ => rfl

/-- `drain_once` has counted its sink calls so far, modulo 2^32. -/
def Counted (log : List (LogEvent P O)) (c : LogConfig P O) : Prop :=
  match c.center with
  | .idle | .discovering _ => True
  | .draining _ drained => drained = UInt32.ofNat (passCalls log)
  | .popping _ drained count _ => drained + count = UInt32.ofNat (passCalls log)

theorem counted_step (h : Counted log c) (hs : LogStep options nameOf c e c') :
    Counted (log ++ [e]) c' := by
  unfold Counted at h ⊢
  rw [passCalls_snoc]
  cases hs with
  | discover | skip | attach | attachFails | discovered | finish => trivial
  | begin => rfl
  | visit hpc =>
    rw [hpc] at h
    simpa [LogConfig.setCenter, LogEvent.tally] using h
  | empty hpc =>
    rw [hpc] at h
    exact h
  | batch hpc =>
    rw [hpc] at h
    exact h
  | sink hpc =>
    rw [hpc] at h
    simp only [LogConfig.setCenter, LogEvent.tally, UInt32.ofNat_add]
    rw [← h]
    exact (UInt32.add_assoc _ _ _).symm
  | _ => exact h

/-- Every push under way or claimed was made by a log call. -/
structure AllLogged (log : List (LogEvent P O)) (c : LogConfig P O) : Prop where
  current : ∀ o p a, ((c.rings o).producers p).current = some a → Logged a
  claimed : ∀ o, ∀ x ∈ claims (ringLog o log), Logged x.push

theorem LogStep.called_logged (h : LogStep options nameOf c e c') {p : P} {pe : PushEvent}
    {a : Push} (he : e.onRing o = some (.push p pe)) (ha : pe.called = some a) : Logged a := by
  cases h with
  | @log o' p' s call now a' hcall =>
    by_cases ho : o' = o
    · obtain ⟨rfl, rfl⟩ : p' = p ∧ PushEvent.call a' = pe := by
        simpa [LogEvent.onRing, ho] using he
      obtain rfl : a' = a := by simpa [PushEvent.called] using ha
      exact ⟨call, now, hcall⟩
    · simp [LogEvent.onRing, ho] at he
  | @push o' p' e' s hcalled =>
    by_cases ho : o' = o
    · obtain ⟨rfl, rfl⟩ : p' = p ∧ e' = pe := by simpa [LogEvent.onRing, ho] using he
      rw [hcalled] at ha
      cases ha
    · simp [LogEvent.onRing, ho] at he
  | call | pop | empty | sink =>
    simp only [LogEvent.onRing] at he
    split at he <;> simp at he
  | _ => simp [LogEvent.onRing] at he

theorem allLogged_step (h : AllLogged log c) (hs : LogStep options nameOf c e c') :
    AllLogged (log ++ [e]) c' := by
  constructor
  · intro o p a ha
    rcases hs.ring o with ⟨-, hsame⟩ | ⟨re, he, hstep⟩
    · rw [hsame] at ha
      exact h.current o p a ha
    · generalize c'.rings o = s at hstep ha
      cases hstep with
      | pop hp => exact h.current o p a ha
      | @push q pe r pc hp =>
        by_cases hq : p = q
        · subst hq
          simp only [Function.update_self] at ha
          rcases hp.current_of ha with ha | ha
          · exact h.current o p a ha
          · exact hs.called_logged he ha
        · simp only [Function.update_of_ne hq] at ha
          exact h.current o p a ha
  · intro o x hx
    rw [ringLog_snoc, claims_append, List.mem_append] at hx
    rcases hx with hx | hx
    · exact h.claimed o x hx
    · rcases hs.ring o with ⟨he, -⟩ | ⟨re, he, hstep⟩
      · simp [he, claims] at hx
      · rw [he] at hx
        generalize c'.rings o = s at hstep
        cases hstep with
        | pop hp => cases hx
        | @push q pe r pc hp =>
          cases pe with
          | claim a pos =>
            obtain rfl : x = ⟨q, a, pos⟩ := by simpa [claims, RingEvent.claimed] using hx
            exact h.current o q a hp.claimed_current
          | _ => cases hx

/-- What the sink has received from every ring, and what `drain_once` is about to return. -/
structure LogOrder (options : CenterOptions) (nameOf : O → Name) (m : O → Nat)
    (log : List (LogEvent P O)) (c : LogConfig P O) : Prop where
  order : ∀ o (k : Nat) record, (sinkFrom o log)[k]? = some record →
    ∃ (x : Claimed P) (call : LogCall) (now : UInt64),
      (claims (ringLog o log))[k]? = some x ∧ call.pushed now = .ok x.push ∧
      record = ⟨nameOf o, call.level, (x.push.stored (m o)).flags, now,
        (x.push.stored (m o)).payload.take options.scratchBytes.toNat⟩
  finished : ∀ o (k : Nat) p a, k < (sinkFrom o log).length →
    ((c.rings o).producers p).writing ≠ some (a, k)
  counted : ∀ count c', LogStep options nameOf c (.drained count) c' →
    count.toNat = passCalls log % 2 ^ 32

/-- The record built from a pop that shows what a log call stored. -/
theorem logRecord_of_shows {x : Push} {call : LogCall} {now : UInt64} {name : Name} {k : Nat}
    {popped : PoppedRecord} {out : List UInt8} (hcall : call.pushed now = .ok x)
    (h : Shows (x.stored k) popped out) (hout : out.length = options.scratchBytes.toNat) :
    logRecord name popped out = ⟨name, call.level, (x.stored k).flags, now,
      (x.stored k).payload.take options.scratchBytes.toNat⟩ := by
  have htype : popped.type = call.level.code := h.type.trans (call.pushed_level hcall)
  have huser : popped.user = now := h.user.trans (call.pushed_user hcall)
  have hpayload : out.take popped.copiedSize =
      (x.stored k).payload.take options.scratchBytes.toNat := by
    rw [h.bytes, h.copiedSize, hout, ← List.take_take, List.take_length]
  simp only [logRecord, htype, decodeLevel_code, h.flags, huser, hpayload]

/-- Where every ring starts: initialised with two or more slots. -/
def Initialized (r : Ring) : Prop :=
  ∃ payload recordMax maxPayload, initializeRing payload recordMax maxPayload = .ok r ∧
    2 ≤ recordMax.toNat

omit [DecidableEq P] in
theorem ringSafe_initialized {r : Ring} (h : Initialized r) :
    2 ≤ r.ringMeta.recordMax ∧
      RingSafe r.ringMeta.recordMax r.ringMeta.maxPayload [] (.initial r : RingConfig P) := by
  obtain ⟨payload, recordMax, maxPayload, hinit, hn⟩ := h
  obtain ⟨rfl, hm, hs⟩ := initializeRing_ok hinit
  exact ⟨hn, ringSafe_initial hm recordMax.toNat_lt hs⟩

section Run

variable {rings : O → Ring}

theorem ringSafe_run (hrings : ∀ o, Initialized (rings o))
    (hrun : Run (Guarded LeavesRoom (LogStep options nameOf)) (.initial rings) log c) (o : O) :
    RingSafe (rings o).ringMeta.recordMax (rings o).ringMeta.maxPayload (ringLog o log)
      (c.rings o) := by
  have hn : ∀ o, 2 ≤ (rings o).ringMeta.recordMax :=
    fun o => (ringSafe_initialized (P := P) (hrings o)).1
  induction hrun generalizing o with
  | nil => exact (ringSafe_initialized (hrings o)).2
  | snoc _ hs ih => exact ringSafe_logStep hn ih hs.2 hs.1 o

omit [DecidableEq P] in
theorem buffers_initial (rings : O → Ring) :
    Buffers options [] (.initial rings : LogConfig P O) :=
  ⟨nofun, fun _ _ h => (nomatch h), fun _ _ h => (nomatch h)⟩

omit [DecidableEq P] in
theorem allLogged_initial (rings : O → Ring) : AllLogged [] (.initial rings : LogConfig P O) :=
  ⟨fun _ _ _ h => (nomatch h), fun _ _ h => (nomatch h)⟩

/-- The invariants that hold whatever the claims count to. -/
theorem center_run (hrun : Run (LogStep options nameOf) (.initial rings) log c) :
    WellNamed nameOf c ∧ Buffers options log c ∧ Sunk nameOf log ∧ Counted log c ∧
      AllLogged log c := by
  refine Run.invariant (I := fun log c => WellNamed nameOf c ∧ Buffers options log c ∧
    Sunk nameOf log ∧ Counted log c ∧ AllLogged log c)
    ⟨wellNamed_initial rings, buffers_initial rings, fun _ => rfl, trivial, allLogged_initial rings⟩
    ?_ hrun
  rintro log c e c' - ⟨hnamed, hbuffers, hsunk, hcounted, hlogged⟩ hs
  exact ⟨wellNamed_step hnamed hs, buffers_step hbuffers hs, sunk_step hnamed hsunk hs,
    counted_step hcounted hs, allLogged_step hlogged hs⟩

/-- The `k`-th record from a ring shows its `k`-th claim, as a log call made it. -/
theorem sink_claim (hrings : ∀ o, Initialized (rings o))
    (hrun : Run (Guarded LeavesRoom (LogStep options nameOf)) (.initial rings) log c) {o : O}
    {k : Nat} {record : LogRecord} (hk : (sinkFrom o log)[k]? = some record) :
    ∃ x : Claimed P, (claims (ringLog o log))[k]? = some x ∧ Logged x.push ∧
      ∀ (call : LogCall) (now : UInt64), call.pushed now = .ok x.push →
        record = ⟨nameOf o, call.level, (x.push.stored (rings o).ringMeta.maxPayload).flags, now,
          (x.push.stored (rings o).ringMeta.maxPayload).payload.take
            options.scratchBytes.toNat⟩ := by
  obtain ⟨-, hbuffers, hsunk, -, hlogged⟩ := center_run hrun.unguard
  rw [hsunk o, List.getElem?_map, Option.map_eq_some_iff] at hk
  obtain ⟨⟨popped, out⟩, hpop, rfl⟩ := hk
  obtain ⟨x, hx, hshows⟩ := (ringSafe_run hrings hrun o).inv.delivered k popped out hpop
  have hout := hbuffers.returned o _ (List.mem_of_getElem? hpop)
  refine ⟨x, hx, hlogged.claimed o x (List.mem_of_getElem? hx), ?_⟩
  intro call now hcall
  exact logRecord_of_shows hcall hshows hout

/-- On initialised rings of two or more slots, as long as the claims leave room to count, the sink
receives the claims of every ring in order; `drain_once` returns its sink calls modulo 2^32. -/
theorem log_order (hrings : ∀ o, Initialized (rings o))
    (hrun : Run (Guarded LeavesRoom (LogStep options nameOf)) (.initial rings) log c) :
    LogOrder options nameOf (fun o => (rings o).ringMeta.maxPayload) log c := by
  obtain ⟨-, -, hsunk, hcounted, -⟩ := center_run hrun.unguard
  have hsafe := ringSafe_run hrings hrun
  refine ⟨?_, ?_, ?_⟩
  · intro o k record hk
    obtain ⟨x, hx, ⟨call, now, hcall⟩, hrecord⟩ := sink_claim hrings hrun hk
    exact ⟨x, call, now, hx, hcall, hrecord call now hcall⟩
  · intro o k p a hk hw
    rw [hsunk o, List.length_map, ← (hsafe o).inv.head] at hk
    obtain ⟨hown, -⟩ := ((hsafe o).inv.producers p).writing a k hw
    have hlow := hown.inWindow.1
    have hrel : (c.rings o).ring.head ≤ (c.rings o).released := by
      unfold RingConfig.released
      split <;> omega
    omega
  · intro count c' hs
    cases hs with
    | finish hpc =>
      rw [Counted, hpc] at hcounted
      rw [hcounted, UInt32.toNat_ofNat']

end Run

end Steps

theorem initialized_freshRing : Initialized (freshRing 2 64) :=
  ⟨⟨0, 320⟩, 2, 48, rfl, by decide⟩

/-- Two ring names. -/
def twoNames (o : Bool) : Name := [if o then 2 else 1]

theorem twoNames_entry (o : Bool) : ∃ entry : RegistryEntry,
    entry.segmentType = SegmentType.recordRing.code ∧ entryName entry = twoNames o := by
  refine ⟨⟨0, 0, fun i => if i.val = 0 then (if o then 2 else 1) else 0, 0,
    SegmentType.recordRing.code, 0, 0, 0, 0, 0, 0, fun _ => 0⟩, rfl, ?_⟩
  cases o <;> decide

theorem log_order_one : (∀ _ : Bool, Initialized (freshRing 2 64)) ∧
    ∃ (log : List (LogEvent Bool Bool)) (c : LogConfig Bool Bool),
      Run (Guarded LeavesRoom (LogStep ⟨64, 1024⟩ twoNames)) (.initial fun _ => freshRing 2 64)
        log c ∧ passCalls log = 1 ∧ LogOrder ⟨64, 1024⟩ twoNames (fun _ => 48) log c := by
  have hcall : (LogCall.text .info [104, 105]).pushed 7 = .ok ⟨2, 0, 7, [104, 105]⟩ := rfl
  have hr : Represents (freshRing 2 64) 2 48 0 0 ⟨[], 0⟩ :=
    represents_freshRing (by decide) (by decide) (by decide)
  have hnames : ([false].map twoNames).Nodup := by decide
  obtain ⟨log, linked, hrun, hcalls, -⟩ := opened_run (P := Bool) ⟨64, 1024⟩
    (fun _ => freshRing 2 64) hnames twoNames_entry
  obtain ⟨es, r, out, hround, -, htally, -⟩ := round_run ⟨64, 1024⟩ twoNames (p := true)
    (c := .opened ⟨64, 1024⟩ twoNames (fun _ => freshRing 2 64) [false] linked)
    (a := ⟨twoNames false, false, false⟩) rfl rfl (by decide) rfl rfl hcall hr (by decide)
  have hpass : passCalls (log ++ es) = 1 := by
    rw [passCalls_append, hcalls, htally]
  exact ⟨fun _ => initialized_freshRing, _, _, hrun.append hround, hpass,
    log_order (fun _ => initialized_freshRing) (hrun.append hround)⟩

/-- A pass that drains 2^32 - 1 records of one ring and one of the next returns 0. -/
theorem drain_count_wraps :
    ∃ (options : CenterOptions) (log : List (LogEvent Bool Bool)) (c c' : LogConfig Bool Bool),
      Run (Guarded LeavesRoom (LogStep options twoNames)) (.initial fun _ => freshRing 2 64) log c ∧
        LogStep options twoNames c (.drained 0) c' ∧ passCalls log = 2 ^ 32 := by
  have hcall : (LogCall.text .info [104, 105]).pushed 7 = .ok ⟨2, 0, 7, [104, 105]⟩ := rfl
  have hr : Represents (freshRing 2 64) 2 48 0 0 ⟨[], 0⟩ :=
    represents_freshRing (by decide) (by decide) (by decide)
  have hnames : ([false, true].map twoNames).Nodup := by decide
  obtain ⟨k, hk⟩ : ∃ k : Nat, k + 1 = 2 ^ 32 := ⟨2 ^ 32 - 1, rfl⟩
  have hsum : UInt32.ofNat k + 1 = 0 := by
    rw [show UInt32.ofNat k + 1 = UInt32.ofNat (k + 1) from (UInt32.ofNat_add k 1).symm, hk]
    rfl
  have hbatch : (UInt32.ofNat k).toNat = k := by
    rw [UInt32.toNat_ofNat']
    omega
  obtain ⟨options, hoptions⟩ : ∃ options : CenterOptions, options = ⟨UInt32.ofNat k, 1024⟩ :=
    ⟨_, rfl⟩
  have hsize : options.drainBatch = UInt32.ofNat k := by rw [hoptions]
  obtain ⟨log, linked, hrun, hcalls, -⟩ := opened_run (P := Bool) options
    (fun _ => freshRing 2 64) hnames twoNames_entry
  -- the first ring is refilled as fast as it is drained
  obtain ⟨es, r, out, hrounds, -, htally⟩ := rounds_run options twoNames (p := true)
    (c := .opened options twoNames (fun _ => freshRing 2 64) [false, true] linked)
    (a := ⟨twoNames false, false, false⟩) rfl rfl rfl rfl hcall hr k (by omega)
    (by rw [hsize, hbatch]; exact Nat.le_of_eq (Nat.zero_add k))
  obtain ⟨d, hd⟩ : ∃ d : LogConfig Bool Bool, d = LogConfig.betweenPops (.opened options twoNames
      (fun _ => freshRing 2 64) [false, true] linked) false r
      (.popping 0 0 (0 + UInt32.ofNat k) out) := ⟨_, rfl⟩
  have hfull : options.drainBatch ≤ 0 + UInt32.ofNat k := by
    rw [hsize, UInt32.zero_add]
    exact UInt32.le_refl _
  have hnext := next_run options twoNames (c := d) (a := ⟨twoNames false, false, false⟩)
    (b := ⟨twoNames true, true, false⟩) (by rw [hd]; rfl) (by rw [hd]; rfl) hfull
    (by rw [hd]; rfl) (by rw [hd]; rfl) (by rw [hd]; rfl)
  rw [UInt32.zero_add, UInt32.zero_add] at hnext
  -- the second holds one record
  have hlt : (1 : UInt32) < options.drainBatch := by
    rw [hsize, UInt32.lt_iff_toNat_lt, hbatch, UInt32.toNat_one]
    omega
  obtain ⟨es', r', out', hround, hr', htally', -⟩ := round_run options twoNames (p := true)
    (c := d.setCenter (.popping 1 (UInt32.ofNat k) 0
      (List.replicate options.scratchBytes.toNat 0))) (a := ⟨twoNames true, true, false⟩)
    rfl (by rw [hd]; rfl) (UInt32.lt_trans (by decide) hlt) (by rw [hd]; rfl) (by rw [hd]; rfl)
    hcall (by rw [hd]; exact hr) (by decide)
  obtain ⟨es'', hempty⟩ := empty_run options twoNames (c := LogConfig.betweenPops
      (d.setCenter (.popping 1 (UInt32.ofNat k) 0 (List.replicate options.scratchBytes.toNat 0)))
      true r' (.popping 1 (UInt32.ofNat k) (0 + 1) out')) (a := ⟨twoNames true, true, false⟩)
    rfl (by rw [hd]; rfl) hlt (by rw [hd]; rfl)
    (congrArg Prod.fst (hr'.pop_empty (.inl (by decide)) rfl out'))
  rw [UInt32.zero_add, hsum] at hempty
  rw [← hd] at hrounds
  refine ⟨options, _, _, _, ((((hrun.append hrounds).append hnext).append hround).append hempty),
    .finish rfl (by rw [hd]; exact le_rfl), ?_⟩
  simp only [passCalls_append, hcalls, htally, htally', List.foldl_append, List.foldl_cons,
    List.foldl_nil, foldl_tally_pop, LogEvent.tally]
  omega

end Shmfx
