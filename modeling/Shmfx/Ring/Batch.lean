import Shmfx.Ring.Delivery
import Shmfx.Ring.WaitFree

/-! `MpscRing::drain_batch`: a batch of pops with a callback for each, while producers push. -/
namespace Shmfx

open Lts

universe u

/-- Where the consumer stands inside `drain_batch`; `scratch` is its buffer as the last `try_pop`
left it. -/
inductive BatchPc
  | idle
  | testing (scratch : List UInt8) (maxRecords drained : Nat)
  | popping (maxRecords drained : Nat)
  | calling (scratch : List UInt8) (maxRecords drained : Nat) (record : PoppedRecord)
  | returning (drained : Nat)

structure BatchConfig (P : Type u) where
  system : RingConfig P
  batch : BatchPc

/-- What the callback got, and what it returned. -/
structure Callback where
  record : PoppedRecord
  view : List UInt8
  goOn : Bool

inductive BatchEvent (P : Type u)
  | ring (e : RingEvent P)
  | call (scratch : List UInt8) (maxRecords : Nat)
  | full
  | callback (x : Callback)
  | returned (drained : Nat)

variable {P : Type u}

def BatchConfig.initial (r : Ring) : BatchConfig P := ⟨.initial r, .idle⟩

/-- One access of a producer, or one of `drain_batch` and the `try_pop` it is in. -/
inductive BatchStep [DecidableEq P] (c : BatchConfig P) : BatchEvent P → BatchConfig P → Prop
  | push {p : P} {e : PushEvent} {s : RingConfig P} (h : RingStep c.system (.push p e) s) :
      BatchStep c (.ring (.push p e)) ⟨s, c.batch⟩
  | call {scratch : List UInt8} {n : Nat} (h : c.batch = .idle) :
      BatchStep c (.call scratch n) ⟨c.system, .testing scratch n 0⟩
  | pop {scratch : List UInt8} {n drained : Nat} {s : RingConfig P}
      (h : c.batch = .testing scratch n drained) (hlt : drained < n)
      (hs : RingStep c.system (.pop (.call scratch)) s) :
      BatchStep c (.ring (.pop (.call scratch))) ⟨s, .popping n drained⟩
  | full {scratch : List UInt8} {n drained : Nat} (h : c.batch = .testing scratch n drained)
      (hge : ¬ drained < n) : BatchStep c .full ⟨c.system, .returning drained⟩
  | access {n drained : Nat} {e : PopEvent} {s : RingConfig P} (h : c.batch = .popping n drained)
      (he : e.returned = none) (hs : RingStep c.system (.pop e) s) :
      BatchStep c (.ring (.pop e)) ⟨s, .popping n drained⟩
  | empty {n drained : Nat} {s : RingConfig P} (h : c.batch = .popping n drained)
      (hs : RingStep c.system (.pop .empty) s) :
      BatchStep c (.ring (.pop .empty)) ⟨s, .returning drained⟩
  | popped {n drained : Nat} {record : PoppedRecord} {out : List UInt8} {s : RingConfig P}
      (h : c.batch = .popping n drained) (hs : RingStep c.system (.pop (.popped record out)) s) :
      BatchStep c (.ring (.pop (.popped record out))) ⟨s, .calling out n drained record⟩
  | goOn {scratch : List UInt8} {n drained : Nat} {record : PoppedRecord}
      (h : c.batch = .calling scratch n drained record) :
      BatchStep c (.callback ⟨record, scratch.take record.copiedSize, true⟩)
        ⟨c.system, .testing scratch n (drained + 1)⟩
  | stop {scratch : List UInt8} {n drained : Nat} {record : PoppedRecord}
      (h : c.batch = .calling scratch n drained record) :
      BatchStep c (.callback ⟨record, scratch.take record.copiedSize, false⟩)
        ⟨c.system, .returning (drained + 1)⟩
  | returned {drained : Nat} (h : c.batch = .returning drained) :
      BatchStep c (.returned drained) ⟨c.system, .idle⟩

namespace BatchEvent

def accessed : BatchEvent P → Option (RingEvent P)
  | .ring e => some e
  | _ => none

def handed : BatchEvent P → Option Callback
  | .callback x => some x
  | _ => none

/-- A step of the consumer. -/
def isOwn : BatchEvent P → Bool
  | .ring (.push ..) => false
  | _ => true

end BatchEvent

/-- What the ring saw. -/
def accesses (log : List (BatchEvent P)) : List (RingEvent P) := log.filterMap BatchEvent.accessed

def callbacks (log : List (BatchEvent P)) : List Callback := log.filterMap BatchEvent.handed

/-- The callback gets a stored record: all of it that fits the buffer, and nothing else. -/
structure Hands (x : Stored) (y : Callback) : Prop where
  type : y.record.type = x.type
  flags : y.record.flags = x.flags
  user : y.record.user = x.user
  payloadSize : y.record.payloadSize = x.payload.length
  view : y.view = x.payload.take y.record.copiedSize

/-- What a batch that returns `n` has done. -/
structure BatchOutcome (maxRecords n : Nat) (during : List (BatchEvent P)) : Prop where
  count : (callbacks during).length = n
  bounded : n ≤ maxRecords
  goesOn : ∀ x ∈ (callbacks during).dropLast, x.goOn = true
  reason : n = maxRecords ∨ (∃ x, (callbacks during).getLast? = some x ∧ x.goOn = false) ∨
    .ring (.pop .empty) ∈ during

/-- Of a batch that has not returned yet. -/
structure BatchUnderWay [DecidableEq P] (scratch : List UInt8) (maxRecords limit : Nat)
    (during : List (BatchEvent P)) (c : BatchConfig P) : Prop where
  sized : ∀ x ∈ callbacks during,
    x.record.copiedSize = min scratch.length x.record.payloadSize
  /-- It has taken few steps of its own, however much the producers push. -/
  steps : during.countP BatchEvent.isOwn ≤ maxRecords * (min scratch.length limit + 13) + 1
  enabled : ∃ e c', e.isOwn = true ∧ BatchStep c e c'
  outcome : ∀ n, c.batch = .returning n → BatchOutcome maxRecords n during

/-- The buffer of the `try_pop` the consumer is in has its size, and a record it has read is cut to
it. -/
def PopPc.Sized (size : Nat) : PopPc → Prop
  | .idle => False
  | .enter out | .loadHead out | .loadSeq out _ | .loadLen out _ | .copy out _ _ _
  | .loadType out _ _ | .loadFlags out _ _ _ | .loadUser out _ _ _ _ => out.length = size
  | .releaseSlot out _ popped | .releaseHead out _ popped =>
    out.length = size ∧ popped.copiedSize = min size popped.payloadSize

section Accesses

variable {r r' : Ring} {k k' : PopPc} {e : PopEvent} {size : Nat}

theorem PopPc.Sized.ne_idle (h : k.Sized size) : k ≠ .idle := by
  rintro rfl
  exact h

theorem sized_call {out : List UInt8} (h : PopStep r k (.call out) r' k') :
    k'.Sized out.length := by
  cases h
  exact rfl

/-- An access of a `try_pop` keeps the size of the buffer. -/
theorem sized_popStep (h : PopStep r k e r' k') (hk : k.Sized size) (he : e.returned = none) :
    k'.Sized size := by
  cases h with
  | call => exact hk.elim
  | reject | seqOther | releaseHead => cases he
  | copyByte => exact (List.length_set ..).trans hk
  | @loadUser out =>
    refine ⟨hk, ?_⟩
    dsimp only
    rw [show out.length = size from hk]
  | _ => exact hk

theorem sized_popped {record : PoppedRecord} {out : List UInt8}
    (h : PopStep r k (.popped record out) r' k') (hk : k.Sized size) :
    out.length = size ∧ record.copiedSize = min size record.payloadSize := by
  cases h
  exact hk

theorem work_call {out : List UInt8} (h : PopStep r k (.call out) r' k') (limit : Nat) :
    k'.work limit = min out.length limit + 10 := by
  cases h
  rfl

theorem popStep_returns (h : PopStep r k e r' k') (hk : k ≠ .idle) :
    e.returned = none ∨ e = .empty ∨ ∃ record out, e = .popped record out := by
  cases h with
  | call => exact absurd rfl hk
  | reject | seqOther => exact .inr (.inl rfl)
  | releaseHead => exact .inr (.inr ⟨_, _, rfl⟩)
  | _ => exact .inl rfl

theorem popStep_over {x : Option (PoppedRecord × List UInt8)} (h : PopStep r k e r' k')
    (he : e.returned = some x) : k' = .idle := by
  cases h with
  | reject | seqOther | releaseHead => rfl
  | _ => cases he

end Accesses

section Histories

variable {log log' : List (BatchEvent P)} {e : BatchEvent P}

@[simp] theorem accesses_append : accesses (log ++ log') = accesses log ++ accesses log' :=
  List.filterMap_append ..

@[simp] theorem callbacks_append : callbacks (log ++ log') = callbacks log ++ callbacks log' :=
  List.filterMap_append ..

@[simp] theorem accesses_ring (e : RingEvent P) : accesses [.ring e] = [e] := rfl

@[simp] theorem callbacks_ring (e : RingEvent P) : callbacks [.ring e] = [] := rfl

@[simp] theorem callbacks_callback (x : Callback) :
    callbacks [(.callback x : BatchEvent P)] = [x] := rfl

@[simp] theorem accesses_callback (x : Callback) :
    accesses [(.callback x : BatchEvent P)] = [] := rfl

@[simp] theorem accesses_call (scratch : List UInt8) (n : Nat) :
    accesses [(.call scratch n : BatchEvent P)] = [] := rfl

@[simp] theorem callbacks_call (scratch : List UInt8) (n : Nat) :
    callbacks [(.call scratch n : BatchEvent P)] = [] := rfl

@[simp] theorem accesses_full : accesses [(.full : BatchEvent P)] = [] := rfl

@[simp] theorem callbacks_full : callbacks [(.full : BatchEvent P)] = [] := rfl

@[simp] theorem accesses_returned (n : Nat) :
    accesses [(.returned n : BatchEvent P)] = [] := rfl

@[simp] theorem callbacks_returned (n : Nat) :
    callbacks [(.returned n : BatchEvent P)] = [] := rfl

@[simp] theorem accesses_map {α : Type*} (f : α → RingEvent P) (es : List α) :
    accesses (es.map fun e => .ring (f e)) = es.map f := by
  rw [accesses, List.filterMap_map]
  exact congrFun List.filterMap_eq_map' es

@[simp] theorem callbacks_map {α : Type*} (f : α → RingEvent P) (es : List α) :
    callbacks (es.map fun e => .ring (f e)) = [] := by
  rw [callbacks, List.filterMap_map]
  exact List.filterMap_eq_nil_iff.mpr fun _ _ => rfl

end Histories

/-- The record a `try_pop` returned and the callback has not had yet. -/
def BatchPc.pending : BatchPc → List (PoppedRecord × List UInt8)
  | .calling scratch _ _ record => [(record, scratch)]
  | _ => []

/-- The span handed over for what a `try_pop` returned. -/
def spanOf (x : PoppedRecord × List UInt8) : PoppedRecord × List UInt8 :=
  (x.1, x.2.take x.1.copiedSize)

def Callback.span (x : Callback) : PoppedRecord × List UInt8 := (x.record, x.view)

section Runs

variable [DecidableEq P] {c c' : BatchConfig P} {log : List (BatchEvent P)} {e : BatchEvent P}

/-- The ring sees accesses of producers and of `try_pop`. -/
theorem system_run (h : Run BatchStep c log c') :
    Run RingStep c.system (accesses log) c'.system := by
  refine h.invariant (I := fun log c' => Run RingStep c.system (accesses log) c'.system) .nil ?_
  intro log c₁ e c₂ _ ih hs
  rw [accesses_append]
  cases hs with
  | push h => exact ih.snoc h
  | pop _ _ h | access _ _ h | empty _ h | popped _ h => exact ih.snoc h
  | call | full | goOn | stop | returned => simpa using ih

/-- Every record popped goes to one callback, in order. -/
theorem handed_run (h : Run BatchStep c log c') (hc : c.batch = .idle) :
    (poppedCalls (accesses log)).map spanOf =
      (callbacks log).map Callback.span ++ c'.batch.pending.map spanOf := by
  refine h.invariant (I := fun log c' => (poppedCalls (accesses log)).map spanOf =
    (callbacks log).map Callback.span ++ c'.batch.pending.map spanOf) ?_ ?_
  · rw [hc]
    rfl
  · intro log c₁ e c₂ _ ih hs
    rw [accesses_append, poppedCalls_append, callbacks_append, List.map_append, List.map_append, ih]
    cases hs with
    | push => simp
    | call h | full h | returned h => simp [h, BatchPc.pending, poppedCalls]
    | pop h | empty h | popped h => simp [h, BatchPc.pending, poppedCalls, RingEvent.popped]
    | @access n drained e s h he =>
      have hpop : poppedCalls [(.pop e : RingEvent P)] = [] := by cases e <;> first | rfl | cases he
      simp [h, BatchPc.pending, hpop]
    | goOn h | stop h => simp [h, BatchPc.pending, poppedCalls, spanOf, Callback.span]

/-- What has been done since a batch was called. -/
structure Drained (size drained : Nat) (during : List (BatchEvent P)) : Prop where
  count : (callbacks during).length = drained
  goesOn : ∀ x ∈ callbacks during, x.goOn = true
  sized : ∀ x ∈ callbacks during, x.record.copiedSize = min size x.record.payloadSize

/-- Where a batch stands. -/
def BatchPc.Within (size maxRecords : Nat) (during : List (BatchEvent P)) (consumer : PopPc) :
    BatchPc → Prop
  | .idle => False
  | .testing scratch n drained =>
    scratch.length = size ∧ n = maxRecords ∧ drained ≤ n ∧ Drained size drained during
  | .popping n drained =>
    consumer.Sized size ∧ n = maxRecords ∧ drained < n ∧ Drained size drained during
  | .calling scratch n drained record =>
    (scratch.length = size ∧ record.copiedSize = min size record.payloadSize) ∧ n = maxRecords ∧
      drained < n ∧ Drained size drained during
  | .returning n => BatchOutcome maxRecords n during ∧
    ∀ x ∈ callbacks during, x.record.copiedSize = min size x.record.payloadSize

variable {size maxRecords drained : Nat} {during : List (BatchEvent P)}

omit [DecidableEq P] in
theorem Drained.of_eq (h : Drained size drained during) (he : callbacks [e] = []) :
    Drained size drained (during ++ [e]) := by
  have hsame : callbacks (during ++ [e]) = callbacks during := by simp [he]
  exact ⟨hsame ▸ h.count, hsame ▸ h.goesOn, hsame ▸ h.sized⟩

omit [DecidableEq P] in
theorem BatchOutcome.of_eq {n : Nat} (h : BatchOutcome maxRecords n during)
    (he : callbacks [e] = []) : BatchOutcome maxRecords n (during ++ [e]) := by
  have hsame : callbacks (during ++ [e]) = callbacks during := by simp [he]
  refine ⟨hsame ▸ h.count, h.bounded, hsame ▸ h.goesOn, ?_⟩
  rw [hsame]
  exact h.reason.imp_right (Or.imp_right (List.mem_append_left _))

omit [DecidableEq P] in
/-- Steps that call nobody back leave a batch where it is. -/
theorem BatchPc.Within.of_eq {pc : BatchPc} {consumer : PopPc}
    (h : pc.Within size maxRecords during consumer) (he : callbacks [e] = []) :
    pc.Within size maxRecords (during ++ [e]) consumer := by
  cases pc with
  | idle => exact h
  | testing => exact ⟨h.1, h.2.1, h.2.2.1, h.2.2.2.of_eq he⟩
  | popping => exact ⟨h.1, h.2.1, h.2.2.1, h.2.2.2.of_eq he⟩
  | calling => exact ⟨h.1, h.2.1, h.2.2.1, h.2.2.2.of_eq he⟩
  | returning n =>
    refine ⟨h.1.of_eq he, ?_⟩
    rw [callbacks_append, he, List.append_nil]
    exact h.2

theorem ringStep_push {p : P} {e : PushEvent} {s t : RingConfig P} (h : RingStep s (.push p e) t) :
    t.consumer = s.consumer := by
  cases h
  rfl

theorem ringStep_pop {e : PopEvent} {s t : RingConfig P} (h : RingStep s (.pop e) t) :
    PopStep s.ring s.consumer e t.ring t.consumer := by
  cases h with
  | pop h => exact h

omit [DecidableEq P] in
/-- One more callback. -/
theorem Drained.callback {x : Callback} (h : Drained size drained during)
    (hx : x.record.copiedSize = min size x.record.payloadSize) :
    (callbacks (during ++ [.callback x])).length = drained + 1 ∧
      ∀ y ∈ callbacks (during ++ [.callback x]),
        y.record.copiedSize = min size y.record.payloadSize := by
  rw [callbacks_append, callbacks_callback, List.length_append, h.count]
  refine ⟨rfl, ?_⟩
  intro y hy
  rcases List.mem_append.mp hy with hy | hy
  · exact h.sized y hy
  · obtain rfl := List.mem_singleton.mp hy
    exact hx

theorem within_step (hs : BatchStep c e c') (he : ∀ n, e ≠ .returned n)
    (h : c.batch.Within size maxRecords during c.system.consumer) :
    c'.batch.Within size maxRecords (during ++ [e]) c'.system.consumer := by
  cases hs with
  | push hs =>
    dsimp only
    rw [ringStep_push hs]
    exact h.of_eq rfl
  | call hidle =>
    rw [hidle] at h
    exact h.elim
  | pop hb hlt hs =>
    rw [hb] at h
    obtain ⟨rfl, hn, -, hd⟩ := h
    exact ⟨sized_call (ringStep_pop hs), hn, hlt, hd.of_eq rfl⟩
  | full hb hge =>
    rw [hb] at h
    obtain ⟨-, rfl, hle, hd⟩ := h
    have hd := hd.of_eq (e := .full) rfl
    have hmax : _ = _ := Nat.le_antisymm hle (Nat.not_lt.mp hge)
    refine ⟨⟨hd.count, hle, ?_, .inl hmax⟩, hd.sized⟩
    exact fun x hx => hd.goesOn x (List.dropLast_subset _ hx)
  | access hb hret hs =>
    rw [hb] at h
    obtain ⟨hsized, hn, hlt, hd⟩ := h
    exact ⟨sized_popStep (ringStep_pop hs) hsized hret, hn, hlt, hd.of_eq rfl⟩
  | empty hb hs =>
    rw [hb] at h
    obtain ⟨-, rfl, hlt, hd⟩ := h
    have hd := hd.of_eq (e := .ring (.pop .empty)) rfl
    refine ⟨⟨hd.count, Nat.le_of_lt hlt, ?_, .inr (.inr (by simp))⟩, hd.sized⟩
    exact fun x hx => hd.goesOn x (List.dropLast_subset _ hx)
  | popped hb hs =>
    rw [hb] at h
    obtain ⟨hsized, hn, hlt, hd⟩ := h
    exact ⟨sized_popped (ringStep_pop hs) hsized, hn, hlt, hd.of_eq rfl⟩
  | @goOn scratch n drained record hb =>
    rw [hb] at h
    obtain ⟨⟨hsize, hcopied⟩, hn, hlt, hd⟩ := h
    obtain ⟨hcount, hsized⟩ :=
      hd.callback (x := ⟨record, scratch.take record.copiedSize, true⟩) hcopied
    refine ⟨hsize, hn, hlt, hcount, ?_, hsized⟩
    intro x hx
    rw [callbacks_append, List.mem_append] at hx
    rcases hx with hx | hx
    · exact hd.goesOn x hx
    · obtain rfl := List.mem_singleton.mp hx
      rfl
  | @stop scratch n drained record hb =>
    rw [hb] at h
    obtain ⟨⟨hsize, hcopied⟩, rfl, hlt, hd⟩ := h
    obtain ⟨hcount, hsized⟩ :=
      hd.callback (x := ⟨record, scratch.take record.copiedSize, false⟩) hcopied
    refine ⟨⟨hcount, hlt, ?_, .inr (.inl ?_)⟩, hsized⟩
    · rw [callbacks_append, callbacks_callback, List.dropLast_concat]
      exact hd.goesOn
    · rw [callbacks_append, callbacks_callback, List.getLast?_concat]
      exact ⟨_, rfl, rfl⟩
  | returned => exact absurd rfl (he _)

/-- The steps a batch may still take, in a `try_pop` of at most `work` steps each. -/
def BatchPc.work (work : Nat) (limit : Nat) (consumer : PopPc) : BatchPc → Nat
  | .idle => 0
  | .testing _ n drained => (n - drained) * (work + 3) + 2
  | .popping n drained => (n - drained - 1) * (work + 3) + 3 + consumer.work limit
  | .calling _ n drained _ => (n - drained - 1) * (work + 3) + 3
  | .returning _ => 1

theorem rounds_succ {n drained work : Nat} (h : drained < n) :
    (n - drained) * (work + 3) = (n - drained - 1) * (work + 3) + work + 3 := by
  obtain ⟨k, hk⟩ : ∃ k, n - drained = k + 1 := ⟨n - drained - 1, by omega⟩
  rw [hk, Nat.add_sub_cancel, Nat.succ_mul]
  omega

/-- Every step of a batch uses up some of its work, and no other step adds to it. -/
theorem work_batchStep {limit : Nat} (hs : BatchStep c e c') (he : ∀ n, e ≠ .returned n)
    (h : c.batch.Within size maxRecords during c.system.consumer)
    (hlimit : c.system.ring.ringMeta.maxPayload = limit) :
    c'.batch.work (min size limit + 10) limit c'.system.consumer + (if e.isOwn then 1 else 0) ≤
      c.batch.work (min size limit + 10) limit c.system.consumer := by
  cases hs with
  | push hs =>
    dsimp only
    rw [ringStep_push hs]
    exact Nat.le_refl _
  | call hidle =>
    rw [hidle] at h
    exact h.elim
  | pop hb hlt hs =>
    rw [hb] at h
    obtain ⟨rfl, -, -, -⟩ := h
    have hcall := work_call (ringStep_pop hs) limit
    rw [hb]
    simp only [BatchPc.work, rounds_succ hlt, hcall, BatchEvent.isOwn, if_true]
    omega
  | full hb hge =>
    rw [hb]
    simp only [BatchPc.work, BatchEvent.isOwn, if_true]
    omega
  | access hb hret hs =>
    rw [hb] at h
    have hless := work_popStep (ringStep_pop hs) h.1.ne_idle hlimit
    rw [hb]
    simp only [BatchPc.work, BatchEvent.isOwn, if_true]
    omega
  | empty hb hs =>
    rw [hb]
    simp only [BatchPc.work, BatchEvent.isOwn, if_true]
    omega
  | popped hb hs =>
    rw [hb] at h
    have hless := work_popStep (ringStep_pop hs) h.1.ne_idle hlimit
    rw [hb]
    simp only [BatchPc.work, BatchEvent.isOwn, if_true]
    omega
  | goOn hb =>
    rw [hb]
    simp only [BatchPc.work, BatchEvent.isOwn, if_true]
    rw [Nat.sub_add_eq]
  | stop hb =>
    rw [hb]
    simp only [BatchPc.work, BatchEvent.isOwn, if_true]
    omega
  | returned => exact absurd rfl (he _)

/-- Outside of `try_pop` the consumer is in no call. -/
def Resting (c : BatchConfig P) : Prop :=
  c.system.consumer = .idle ∨ ∃ n drained, c.batch = .popping n drained

omit [DecidableEq P] in
theorem Resting.idle (h : Resting c) (hb : ∀ n drained, c.batch ≠ .popping n drained) :
    c.system.consumer = .idle := by
  rcases h with h | ⟨n, drained, h⟩
  · exact h
  · exact absurd h (hb n drained)

theorem resting_step (hs : BatchStep c e c') (h : Resting c) : Resting c' := by
  cases hs with
  | push hs =>
    unfold Resting
    rw [ringStep_push hs]
    exact h
  | pop | access => exact .inr ⟨_, _, rfl⟩
  | empty _ hs | popped _ hs => exact .inl (popStep_over (ringStep_pop hs) rfl)
  | call hb | full hb | goOn hb | stop hb | returned hb =>
    refine .inl (h.idle fun n drained => ?_)
    rw [hb]
    exact BatchPc.noConfusion

/-- A batch that has not returned can go on. -/
theorem batchStep_enabled (h : c.batch.Within size maxRecords during c.system.consumer)
    (hr : Resting c) : ∃ e c', e.isOwn = true ∧ BatchStep c e c' := by
  cases hb : c.batch with
  | idle =>
    rw [hb] at h
    exact h.elim
  | testing scratch n drained =>
    by_cases hlt : drained < n
    · have hidle : c.system.consumer = .idle := by
        refine hr.idle fun n drained => ?_
        rw [hb]
        exact BatchPc.noConfusion
      have hcall : PopStep c.system.ring c.system.consumer (.call scratch) c.system.ring
          (.enter scratch) := hidle ▸ .call scratch
      exact ⟨_, _, rfl, .pop hb hlt (.pop hcall)⟩
    · exact ⟨_, _, rfl, .full hb hlt⟩
  | popping n drained =>
    rw [hb] at h
    obtain ⟨e, r, k, hs⟩ := popStep_enabled c.system.ring h.1.ne_idle
    rcases popStep_returns hs h.1.ne_idle with hret | rfl | ⟨record, out, rfl⟩
    · exact ⟨_, _, rfl, .access hb hret (.pop hs)⟩
    · exact ⟨_, _, rfl, .empty hb (.pop hs)⟩
    · exact ⟨_, _, rfl, .popped hb (.pop hs)⟩
  | calling scratch n drained record => exact ⟨_, _, rfl, .goOn hb⟩
  | returning n => exact ⟨_, _, rfl, .returned hb⟩

omit [DecidableEq P] in
theorem BatchPc.Within.sized {pc : BatchPc} {consumer : PopPc}
    (h : pc.Within size maxRecords during consumer) :
    ∀ x ∈ callbacks during, x.record.copiedSize = min size x.record.payloadSize := by
  cases pc with
  | idle => exact h.elim
  | testing | popping | calling => exact h.2.2.2.sized
  | returning => exact h.2

omit [DecidableEq P] in
theorem BatchPc.Within.work_pos {pc : BatchPc} {consumer : PopPc}
    (h : pc.Within size maxRecords during consumer) (work limit : Nat) :
    0 < pc.work work limit consumer := by
  cases pc with
  | idle => exact h.elim
  | testing | popping | calling | returning =>
    simp only [BatchPc.work]
    omega

/-- From its call on, a batch is somewhere inside and uses up its work. -/
theorem within_run {limit : Nat} {scratch : List UInt8} (h : Run BatchStep c during c')
    (hb : c.batch = .testing scratch maxRecords 0)
    (hlimit : c.system.ring.ringMeta.maxPayload = limit) (hret : ∀ n, .returned n ∉ during) :
    c'.batch.Within scratch.length maxRecords during c'.system.consumer ∧
      c'.system.ring.ringMeta.maxPayload = limit ∧
      during.countP BatchEvent.isOwn +
          c'.batch.work (min scratch.length limit + 10) limit c'.system.consumer ≤
        maxRecords * (min scratch.length limit + 13) + 2 := by
  refine h.invariant (I := fun during c' => (∀ n, .returned n ∉ during) →
    c'.batch.Within scratch.length maxRecords during c'.system.consumer ∧
      c'.system.ring.ringMeta.maxPayload = limit ∧
      during.countP BatchEvent.isOwn +
          c'.batch.work (min scratch.length limit + 10) limit c'.system.consumer ≤
        maxRecords * (min scratch.length limit + 13) + 2) ?_ ?_ hret
  · intro _
    rw [hb]
    refine ⟨⟨rfl, rfl, Nat.zero_le _, rfl, ?_, ?_⟩, hlimit, ?_⟩
    · simp [callbacks]
    · simp [callbacks]
    · simp [BatchPc.work]
  · intro during c₁ e c₂ _ ih hs hret
    have hlast : ∀ n, e ≠ .returned n := by
      rintro n rfl
      exact hret n (by simp)
    obtain ⟨hwithin, hmax, hcount⟩ := ih fun n hn => hret n (List.mem_append_left _ hn)
    have hwork := work_batchStep hs hlast hwithin hmax
    refine ⟨within_step hs hlast hwithin, ?_, ?_⟩
    · rw [← hmax]
      exact maxPayload_run (system_run (.single hs))
    · rw [List.countP_append, List.countP_singleton]
      omega

end Runs

section Batches

variable [DecidableEq P] {c : BatchConfig P} {log : List (BatchEvent P)} {r : Ring} {payload : Span}
  {recordMax maxPayload : UInt32}

/-- While producers push as they like, the callbacks of all batches together get the claimed records
in claim order, each cut to the buffer. A batch calls back at most `max_records` times, returns how
often it did, ends at a callback that says so or when the ring is empty, and is over after so many
steps of its own. -/
theorem drain_batch_sound (hinit : initializeRing payload recordMax maxPayload = .ok r)
    (hn : 2 ≤ recordMax.toNat) (hrun : Run BatchStep (.initial r) log c)
    (hclaims : (claims (accesses log)).length < 2 ^ 63) :
    (∀ (k : Nat) y, (callbacks log)[k]? = some y → ∃ x, (claims (accesses log))[k]? = some x ∧
      Hands (x.push.stored r.ringMeta.maxPayload) y) ∧
    ∀ before scratch n during, log = before ++ .call scratch n :: during →
      (∀ drained, .returned drained ∉ during) →
      BatchUnderWay scratch n r.ringMeta.maxPayload during c := by
  constructor
  · intro k y hy
    obtain ⟨rfl, hm, hs⟩ := initializeRing_ok hinit
    have hmax := recordMax.toNat_lt
    have hinv := ringInv_run hn (ringInv_initial hm hs) (system_run hrun) (by omega)
    have hspan : ((poppedCalls (accesses log)).map spanOf)[k]? = some y.span := by
      rw [handed_run hrun rfl, List.getElem?_append_left, List.getElem?_map, hy]
      · rfl
      · rw [List.length_map]
        exact (List.getElem?_eq_some_iff.mp hy).1
    rw [List.getElem?_map, Option.map_eq_some_iff] at hspan
    obtain ⟨⟨popped, out⟩, hpopped, hsame⟩ := hspan
    obtain ⟨hrecord, hview⟩ := Prod.mk.inj hsame
    obtain ⟨x, hx, hshows⟩ := hinv.delivered k popped out hpopped
    refine ⟨x, hx, ?_⟩
    subst hrecord
    exact ⟨hshows.type, hshows.flags, hshows.user, hshows.payloadSize,
      hview.symm.trans hshows.bytes⟩
  · rintro before scratch n during rfl hret
    obtain ⟨c₁, hbefore, hrest⟩ := hrun.split
    obtain ⟨c₂, hcall, hduring⟩ := hrest.uncons
    have hstart := maxPayload_run (system_run hbefore)
    have hrest : Resting c := by
      refine hrun.invariant (I := fun _ c => Resting c) (.inl rfl) ?_
      exact fun _ _ _ _ _ ih hs => resting_step hs ih
    obtain ⟨hb, hlimit⟩ : c₂.batch = .testing scratch n 0 ∧
        c₂.system.ring.ringMeta.maxPayload = r.ringMeta.maxPayload := by
      cases hcall
      exact ⟨rfl, hstart⟩
    obtain ⟨hwithin, -, hwork⟩ := within_run hduring hb hlimit hret
    refine ⟨hwithin.sized, ?_, batchStep_enabled hwithin hrest, ?_⟩
    · have hpos := hwithin.work_pos (min scratch.length r.ringMeta.maxPayload + 10)
        r.ringMeta.maxPayload
      omega
    · intro drained hreturning
      rw [hreturning] at hwithin
      exact hwithin.1

/-- A producer makes a whole call, wherever the batch stands between two pops. -/
theorem batch_push (p : P) (pc : BatchPc) {a : Push} {r' : Ring} (hpush : (tryPush r a).2 = r') :
    ∃ es : List PushEvent, (claims (es.map (.push p))).length ≤ 1 ∧
      Run BatchStep ⟨.initial r, pc⟩ (es.map fun e => .ring (.push p e)) ⟨.initial r', pc⟩ := by
  obtain ⟨es, hrun, -, hclaimed⟩ := tryPush_solo r a
  refine ⟨es, ?_, ?_⟩
  · rw [← List.length_map (f := Claimed.push), claims_push_map, hclaimed]
    split <;> simp
  · let place (s : Ring × PushPc) : BatchConfig P :=
      ⟨⟨s.1, Function.update (fun _ => .idle) p s.2, .idle⟩, pc⟩
    have hlift : Run BatchStep (place (r, .idle)) (es.map fun e => .ring (.push p e))
        (place (r', .idle)) := by
      subst hpush
      refine hrun.map place _ fun s e t hs => ?_
      exact .push (ringStep_pushThread (fun _ => .idle) .idle p hs)
    have hidle : Function.update (fun _ : P => PushPc.idle) p .idle = fun _ => .idle :=
      Function.update_eq_self p _
    simp only [place, hidle] at hlift
    exact hlift

/-- Undisturbed, a batch goes from its test to the callback with the oldest record. -/
theorem batch_pop {r' : Ring} {scratch out : List UInt8} {n drained : Nat} {record : PoppedRecord}
    (hlt : drained < n) (hpop : tryPop r scratch = (some (record, out), r')) :
    ∃ es : List PopEvent, Run BatchStep (⟨.initial r, .testing scratch n drained⟩ : BatchConfig P)
      (es.map fun e => .ring (.pop e)) ⟨.initial r', .calling out n drained record⟩ := by
  obtain ⟨es, s, e, hrun, htau, hlast, hret⟩ := tryPop_accesses r scratch
  rw [hpop] at hlast hret
  obtain rfl : e = .popped record out := by
    cases e <;> cases hret
    rfl
  let place (s : Ring × PopPc) : BatchConfig P := ⟨⟨s.1, fun _ => .idle, s.2⟩, .popping n drained⟩
  have hcall : BatchStep (⟨.initial r, .testing scratch n drained⟩ : BatchConfig P)
      (.ring (.pop (.call scratch))) (place (r, .enter scratch)) :=
    .pop rfl hlt (.pop (.call scratch))
  have hsilent : Run (Guarded (fun _ e => e = .tau) PopThread) (r, .enter scratch) es s :=
    hrun.guard fun _ e' _ _ _ he _ _ => htau e' (by simp [he])
  have haccesses : Run BatchStep (place (r, .enter scratch)) (es.map fun e => .ring (.pop e))
      (place s) := by
    refine hsilent.map place _ fun s e t hs => ?_
    obtain ⟨rfl, hs⟩ := hs
    exact .access rfl rfl (.pop hs)
  have hpopped : BatchStep (place s) (.ring (.pop (.popped record out)))
      ⟨.initial r', .calling out n drained record⟩ :=
    .popped rfl (.pop hlast)
  refine ⟨.call scratch :: (es ++ [.popped record out]), ?_⟩
  rw [List.map_cons, List.map_append]
  exact Run.cons hcall (haccesses.snoc hpopped)

/-- A batch finds one record, which the buffer cuts to two bytes; a second one is pushed while it
runs, and the callback wants no third. -/
theorem drain_batch_sound_two :
    ∃ (before during : List (BatchEvent Bool)) (c : BatchConfig Bool),
      Run BatchStep (.initial (freshRing 2 64)) (before ++ .call [0, 0] 5 :: during) c ∧
      c.batch = .returning 2 ∧ (callbacks during).map Callback.view = [[1, 2], [4]] ∧
      BatchOutcome 5 2 during ∧
      ∀ (k : Nat) y, (callbacks (before ++ .call [0, 0] 5 :: during))[k]? = some y →
        ∃ x, (claims (accesses (before ++ .call [0, 0] 5 :: during)))[k]? = some x ∧
          Hands (x.push.stored 48) y := by
  obtain ⟨r₁, hr₁⟩ : ∃ r, (tryPush (freshRing 2 64) ⟨1, 0, 7, [1, 2, 3]⟩).2 = r := ⟨_, rfl⟩
  obtain ⟨r₂, hr₂⟩ : ∃ r, (tryPush r₁ ⟨2, 0, 8, [4]⟩).2 = r := ⟨_, rfl⟩
  obtain ⟨r₃, hr₃⟩ : ∃ r, tryPop r₂ [0, 0] = (some (⟨1, 0, 7, 3, 2⟩, [1, 2]), r) := by
    refine ⟨_, Prod.ext ?_ rfl⟩
    rw [← hr₂, ← hr₁]
    decide +kernel
  obtain ⟨r₄, hr₄⟩ : ∃ r, tryPop r₃ [1, 2] = (some (⟨2, 0, 8, 1, 1⟩, [4, 2]), r) := by
    refine ⟨_, Prod.ext ?_ rfl⟩
    rw [show r₃ = (tryPop r₂ [0, 0]).2 from (congrArg Prod.snd hr₃).symm, ← hr₂, ← hr₁]
    decide +kernel
  obtain ⟨es₁, hclaims₁, hpush₁⟩ := batch_push true .idle hr₁
  obtain ⟨es₂, hclaims₂, hpush₂⟩ := batch_push false (.testing [0, 0] 5 0) hr₂
  obtain ⟨es₃, hpop₁⟩ := batch_pop (P := Bool) (show 0 < 5 by decide) hr₃
  obtain ⟨es₄, hpop₂⟩ := batch_pop (P := Bool) (show 1 < 5 by decide) hr₄
  have hcall : BatchStep (⟨.initial r₁, .idle⟩ : BatchConfig Bool) (.call [0, 0] 5) _ := .call rfl
  have hduring := (((hpush₂.append hpop₁).snoc (.goOn rfl)).append hpop₂).snoc (.stop rfl)
  have hrun := hpush₁.append (Run.cons hcall hduring)
  have hinit : initializeRing ⟨0, 320⟩ 2 48 = .ok (freshRing 2 64) := rfl
  have hsound := drain_batch_sound hinit (by decide) hrun ?_
  · have hbatch := (hsound.2 _ [0, 0] 5 _ rfl ?_).outcome 2 rfl
    · refine ⟨_, _, _, hrun, rfl, ?_, hbatch, hsound.1⟩
      simp only [callbacks_append, callbacks_map, callbacks_callback]
      rfl
    · simp
  · rw [← List.singleton_append]
    simp only [accesses_append, accesses_map, accesses_call, accesses_callback, claims_append,
      claims_pop_map, List.length_append]
    show _ + (0 + (_ + 0 + 0 + 0 + 0)) < 2 ^ 63
    omega

end Batches

end Shmfx
