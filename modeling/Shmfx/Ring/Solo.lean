import Mathlib.Data.Finset.Card
import Shmfx.Ring.Atomic
import Shmfx.Ring.Fifo

/-! The atomic accesses of one undisturbed call compose to the whole call. -/
namespace Shmfx

open Word Lts Mealy

universe u

/-- A producer running on its own. -/
def PushThread (s : Ring × PushPc) (e : PushEvent) (t : Ring × PushPc) : Prop :=
  PushStep s.1 s.2 e t.1 t.2

def PopThread (s : Ring × PopPc) (e : PopEvent) (t : Ring × PopPc) : Prop :=
  PopStep s.1 s.2 e t.1 t.2

/-- The copy stores the payload in whatever order it picks the offsets. -/
theorem copy_solo (a : Push) (pos : Nat) (todo : Finset Nat) (r : Ring) :
    Run PushThread (r, .copy a pos todo) (List.replicate (todo.card + 1) .tau)
      (r.setRecord (r.slot pos) { r.record (r.slot pos) with
        bytes := fun j =>
          if j ∈ todo then a.payload.getD j 0 else (r.record (r.slot pos)).bytes j },
        .publish a pos) := by
  induction todo using Finset.induction_on generalizing r with
  | empty =>
    have hsame : r.setRecord (r.slot pos) { r.record (r.slot pos) with
        bytes := fun j => if j ∈ (∅ : Finset Nat) then a.payload.getD j 0
          else (r.record (r.slot pos)).bytes j } = r := by
      simp [Ring.setRecord]
    rw [hsame]
    exact Run.single (show PushThread _ _ _ from PushStep.copyDone)
  | insert j todo hj ih =>
    have hstep : PushThread (r, .copy a pos (insert j todo)) .tau
        (r.storeByte (r.slot pos) j (a.payload.getD j 0), .copy a pos todo) := by
      have h : PushStep r (.copy a pos (insert j todo)) .tau _ _ :=
        .copyByte (Finset.mem_insert_self j todo)
      rwa [Finset.erase_insert hj] at h
    have hrest := ih (r.storeByte (r.slot pos) j (a.payload.getD j 0))
    rw [Finset.card_insert_of_notMem hj, List.replicate_succ]
    refine Run.cons hstep ?_
    convert hrest using 2
    simp only [Ring.storeByte, Ring.slot, Ring.setRecord,
      Function.update_self, Function.update_idem]
    congr 3
    funext i
    by_cases hi : i = j
    · subst hi
      simp
    · simp [hi, Finset.mem_insert]

/-- From the claim to the return: the slot is filled and published. -/
theorem fill_solo (r : Ring) (a : Push) (pos : Nat) :
    ∃ k, Run PushThread (r, .storeLen a pos) (List.replicate k .tau ++ [.pushed a])
      ((r.setRecord (r.slot pos) ((r.record (r.slot pos)).fill a r.ringMeta.maxPayload)).setSeq
        (r.slot pos) (u64 (pos + 1)), .idle) := by
  let r₁ := r.storeLen (r.slot pos) (a.written r.ringMeta.maxPayload)
  let r₂ := r₁.storeType (r.slot pos) a.type
  let r₃ := r₂.storeFlags (r.slot pos) (a.storedFlags r.ringMeta.maxPayload)
  let r₄ := r₃.storeUser (r.slot pos) a.user
  have h₁ : PushThread (r, .storeLen a pos) .tau (r₁, .storeType a pos) := PushStep.storeLen
  have h₂ : PushThread (r₁, .storeType a pos) .tau (r₂, .storeFlags a pos) := PushStep.storeType
  have h₃ : PushThread (r₂, .storeFlags a pos) .tau (r₃, .storeUser a pos) := PushStep.storeFlags
  have h₄ : PushThread (r₃, .storeUser a pos) .tau
      (r₄, .copy a pos (Finset.range (a.written r.ringMeta.maxPayload))) := PushStep.storeUser
  have h₅ := copy_solo a pos (Finset.range (a.written r.ringMeta.maxPayload)) r₄
  have hfill : r₄.setRecord (r₄.slot pos) { r₄.record (r₄.slot pos) with
      bytes := fun j => if j ∈ Finset.range (a.written r.ringMeta.maxPayload)
        then a.payload.getD j 0 else (r₄.record (r₄.slot pos)).bytes j } =
      r.setRecord (r.slot pos) ((r.record (r.slot pos)).fill a r.ringMeta.maxPayload) := by
    simp [r₄, r₃, r₂, r₁, Ring.storeLen, Ring.storeType, Ring.storeFlags, Ring.storeUser, Ring.slot,
      Ring.setRecord, RingRecord.fill]
  rw [hfill] at h₅
  refine ⟨((Finset.range (a.written r.ringMeta.maxPayload)).card + 1) + 4, ?_⟩
  rw [List.replicate_succ, List.replicate_succ, List.replicate_succ, List.replicate_succ]
  refine Run.cons h₁ (Run.cons h₂ (Run.cons h₃ (Run.cons h₄ (h₅.snoc ?_))))
  exact PushStep.publish

/-- Where the claim loop leaves the ring and the producer. -/
def Claim.after (r : Ring) (a : Push) : Claim → Ring × PushPc
  | .claimed pos => (r.setTail (u64 (pos + 1)), .storeLen a pos)
  | .full | .exhausted => (r.addLost, .idle)

/-- The push claimed by the loop, if it ends with a claim. -/
def Claim.won (a : Push) : Claim → Option Push
  | .claimed _ => some a
  | .full | .exhausted => none

/-- The return the loop itself makes, if it ends without a claim. -/
def Claim.lost (a : Push) : Claim → Option (Push × Bool)
  | .claimed _ => none
  | .full | .exhausted => some (a, false)

/-- The claim loop with `n` iterations left ends as `claimLoop` says. -/
theorem claimLoop_solo (r : Ring) (a : Push) (pos : Nat) {n : Nat} (retry : Nat)
    (hn : retry + n = mpscCasRetryBudget) :
    ∃ es, Run PushThread (r, loopHead a pos retry) es ((claimLoop r pos n).after r a) ∧
      es.filterMap PushEvent.returned = ((claimLoop r pos n).lost a).toList ∧
      es.filterMap PushEvent.claimed = ((claimLoop r pos n).won a).toList := by
  induction n generalizing pos retry with
  | zero =>
    have hlast : loopHead a pos retry = .addLost a := by
      unfold loopHead
      rw [if_neg (by omega)]
    rw [hlast]
    exact ⟨[.dropped a], Run.single PushStep.addLost, rfl, rfl⟩
  | succ n ih =>
    have hhead : loopHead a pos retry = .loadSeq a pos retry := by
      unfold loopHead
      rw [if_pos (by omega)]
    obtain ⟨es, hrun, hret, hcl⟩ := ih r.tail (retry + 1) (by omega)
    rw [hhead]
    by_cases hz : diff64 (r.seq (r.slot pos)) pos = 0
    · have hfree : PushThread (r, .loadSeq a pos retry) .tau (r, .compareExchange a pos retry) :=
        PushStep.seqFree hz
      by_cases ht : r.tail = pos
      · have hloop : claimLoop r pos (n + 1) = .claimed pos := by simp [claimLoop, hz, ht]
        have hcas : PushThread (r, .compareExchange a pos retry) (.claim a pos)
            (r.setTail (u64 (pos + 1)), .storeLen a pos) := PushStep.claim ht
        rw [hloop]
        exact ⟨[.tau, .claim a pos], Run.cons hfree (Run.single hcas), rfl, rfl⟩
      · have hloop : claimLoop r pos (n + 1) = claimLoop r r.tail n := by
          simp [claimLoop, hz, ht]
        have hcas : PushThread (r, .compareExchange a pos retry) .tau
            (r, loopHead a r.tail (retry + 1)) := PushStep.casFail
        rw [hloop]
        exact ⟨.tau :: .tau :: es, Run.cons hfree (Run.cons hcas hrun), hret, hcl⟩
    · by_cases hneg : diff64 (r.seq (r.slot pos)) pos < 0
      · have hfull : PushThread (r, .loadSeq a pos retry) (.full a pos) (r, .addLost a) :=
          PushStep.seqFull hneg
        have hdrop : PushThread (r, .addLost a) (.dropped a) (r.addLost, .idle) :=
          PushStep.addLost
        have hloop : claimLoop r pos (n + 1) = .full := by simp [claimLoop, hz, hneg]
        rw [hloop]
        exact ⟨[.full a pos, .dropped a], Run.cons hfull (Run.single hdrop), rfl, rfl⟩
      · have hahead : PushThread (r, .loadSeq a pos retry) .tau (r, .reloadTail a retry) :=
          PushStep.seqAhead (lt_of_le_of_ne (not_lt.mp hneg) (Ne.symm hz))
        have hreload : PushThread (r, .reloadTail a retry) .tau
            (r, loopHead a r.tail (retry + 1)) := PushStep.reloadTail
        have hloop : claimLoop r pos (n + 1) = claimLoop r r.tail n := by
          simp [claimLoop, hz, hneg]
        rw [hloop]
        exact ⟨.tau :: .tau :: es, Run.cons hahead (Run.cons hreload hrun), hret, hcl⟩

def succeeded : Except ErrorCode Unit → Bool
  | .ok _ => true
  | .error _ => false

/-- An undisturbed `try_push` claims, fills and returns as the whole call does. -/
theorem tryPush_solo (r : Ring) (a : Push) :
    ∃ es, Run PushThread (r, .idle) es ((tryPush r a).2, .idle) ∧
      es.filterMap PushEvent.returned = [(a, succeeded (tryPush r a).1)] ∧
      es.filterMap PushEvent.claimed = if succeeded (tryPush r a).1 then [a] else [] := by
  have hcall : PushThread (r, .idle) (.call a) (r, .enter a) := PushStep.call a
  cases hv : validMeta r.ringMeta with
  | false =>
    have hreject : PushThread (r, .enter a) (.rejected a) (r, .idle) := PushStep.reject hv
    have hpush : tryPush r a = (.error .corruptedHeader, r) := by simp [tryPush, hv]
    rw [hpush]
    exact ⟨[.call a, .rejected a], Run.cons hcall (Run.single hreject), rfl, rfl⟩
  | true =>
    have henter : PushThread (r, .enter a) .tau (r, .loadTail a) := PushStep.enter hv
    have hload : PushThread (r, .loadTail a) .tau (r, loopHead a r.tail 0) := PushStep.loadTail
    obtain ⟨es, hrun, hret, hcl⟩ := claimLoop_solo r a r.tail 0
      (show 0 + mpscCasRetryBudget = mpscCasRetryBudget by simp)
    have hfront := Run.cons hcall (Run.cons henter (Run.cons hload hrun))
    cases hclaim : claimLoop r r.tail mpscCasRetryBudget with
    | claimed pos =>
      rw [hclaim] at hfront hret hcl
      obtain ⟨k, hfill⟩ := fill_solo (r.setTail (u64 (pos + 1))) a pos
      have hpush : tryPush r a = (.ok (), ((r.setTail (u64 (pos + 1))).setRecord (r.slot pos)
          ((r.record (r.slot pos)).fill a r.ringMeta.maxPayload)).setSeq (r.slot pos)
            (u64 (pos + 1))) := by
        simp [tryPush, hv, hclaim]
      rw [hpush]
      refine ⟨_, hfront.append hfill, ?_, ?_⟩
      · rw [List.filterMap_append, show List.filterMap _ (_ :: _) = _ from hret]
        simp [PushEvent.returned, Claim.lost, succeeded]
      · rw [List.filterMap_append, show List.filterMap _ (_ :: _) = _ from hcl]
        simp [PushEvent.claimed, Claim.won, succeeded]
    | full | exhausted =>
      rw [hclaim] at hfront hret hcl
      have hpush : tryPush r a = (.error .ringFull, r.addLost) := by
        simp [tryPush, hv, hclaim]
      rw [hpush]
      exact ⟨_, hfront, hret, hcl⟩

theorem copyOut_getElem? (out : List UInt8) (bytes : Nat → UInt8) (k j : Nat) :
    (copyOut out bytes k)[j]? = if j < k then some (bytes j) else out[j]? := by
  unfold copyOut
  by_cases hj : j < k
  · rw [List.getElem?_append_left (by simpa using hj)]
    simp [hj]
  · rw [List.getElem?_append_right (by simpa using hj)]
    simp only [List.length_map, List.length_range, List.getElem?_drop, hj, if_false]
    rw [Nat.add_sub_cancel' (by omega)]

/-- The copy fills the caller's buffer in whatever order it picks the offsets. -/
theorem copyOut_solo (r : Ring) (pos size : Nat) (todo : Finset Nat) (out : List UInt8) :
    ∃ out', Run PopThread (r, .copy out pos size todo) (List.replicate (todo.card + 1) .tau)
        (r, .loadType out' pos size) ∧ out'.length = out.length ∧
      ∀ j, j < out.length →
        out'[j]? = if j ∈ todo then some ((r.record (r.slot pos)).bytes j) else out[j]? := by
  induction todo using Finset.induction_on generalizing out with
  | empty =>
    have hdone : PopThread (r, .copy out pos size ∅) .tau (r, .loadType out pos size) :=
      PopStep.copyDone
    exact ⟨out, Run.single hdone, rfl, by simp⟩
  | insert j todo hj ih =>
    obtain ⟨out', hrun, hlen, hget⟩ := ih (out.set j ((r.record (r.slot pos)).bytes j))
    have hstep : PopThread (r, .copy out pos size (insert j todo)) .tau
        (r, .copy (out.set j ((r.record (r.slot pos)).bytes j)) pos size todo) := by
      have h : PopStep r (.copy out pos size (insert j todo)) .tau _ _ :=
        .copyByte (Finset.mem_insert_self j todo)
      rwa [Finset.erase_insert hj] at h
    rw [Finset.card_insert_of_notMem hj, List.replicate_succ]
    refine ⟨out', Run.cons hstep hrun, by simpa using hlen, ?_⟩
    intro i hi
    rw [hget i (by simpa using hi), List.getElem?_set]
    by_cases hij : j = i
    · subst hij
      simp [hi, hj]
    · simp [Ne.symm hij, hij]

/-- An undisturbed `try_pop` reads and releases as the whole call does; only its last access
returns. -/
theorem tryPop_accesses (r : Ring) (out : List UInt8) :
    ∃ es s e, Run PopThread (r, .enter out) es s ∧ (∀ x ∈ es, x = .tau) ∧
      PopThread s e ((tryPop r out).2, .idle) ∧ e.returned = some (tryPop r out).1 := by
  cases hv : validMeta r.ringMeta with
  | false =>
    have hreject : PopThread (r, .enter out) .empty (r, .idle) := PopStep.reject hv
    have hpop : tryPop r out = (none, r) := by simp [tryPop, hv]
    rw [hpop]
    exact ⟨[], _, _, .nil, List.forall_mem_nil _, hreject, rfl⟩
  | true =>
    have henter : PopThread (r, .enter out) .tau (r, .loadHead out) := PopStep.enter hv
    have hload : PopThread (r, .loadHead out) .tau (r, .loadSeq out r.head) := PopStep.loadHead
    have hfront := Run.cons henter (Run.single hload)
    by_cases hseq : r.seq (r.slot r.head) = u64 (r.head + 1)
    · let cell := r.record (r.slot r.head)
      let size := min cell.len r.ringMeta.maxPayload
      let popped := cell.popped r.ringMeta.maxPayload out.length
      let r₁ := r.setSeq (r.slot r.head) (u64 (r.head + r.ringMeta.recordMax))
      obtain ⟨out', hcopy, hlen, hget⟩ := copyOut_solo r r.head size
        (Finset.range (min out.length size)) out
      have hout : out' = copyOut out cell.bytes popped.copiedSize := by
        apply List.ext_getElem?
        intro j
        rw [copyOut_getElem?]
        by_cases hj : j < out.length
        · simp [hget j hj, popped, RingRecord.popped, size, cell]
        · have hc : ¬ j < popped.copiedSize := by
            simp only [popped, RingRecord.popped]
            omega
          rw [if_neg hc, List.getElem?_eq_none (by omega), List.getElem?_eq_none (by omega)]
      have hready : PopThread (r, .loadSeq out r.head) .tau (r, .loadLen out r.head) :=
        PopStep.seqReady hseq
      have hlength : PopThread (r, .loadLen out r.head) .tau
          (r, .copy out r.head size (Finset.range (min out.length size))) := PopStep.loadLen rfl
      have htype : PopThread (r, .loadType out' r.head size) .tau
          (r, .loadFlags out' r.head size cell.type) := PopStep.loadType
      have hflags : PopThread (r, .loadFlags out' r.head size cell.type) .tau
          (r, .loadUser out' r.head size cell.type cell.flags) := PopStep.loadFlags
      have huser : PopThread (r, .loadUser out' r.head size cell.type cell.flags) .tau
          (r, .releaseSlot out' r.head popped) := by
        have h : PopStep r (.loadUser out' r.head size cell.type cell.flags) .tau r _ := .loadUser
        rw [hlen] at h
        exact h
      have hslot : PopThread (r, .releaseSlot out' r.head popped) .tau
          (r₁, .releaseHead out' r.head popped) := PopStep.releaseSlot
      have hhead : PopThread (r₁, .releaseHead out' r.head popped) (.popped popped out')
          (r₁.setHead (u64 (r.head + 1)), .idle) := PopStep.releaseHead
      have hpop : tryPop r out = (some (popped, out'), r₁.setHead (u64 (r.head + 1))) := by
        rw [hout]
        simp [tryPop, hv, hseq, popped, r₁, cell]
      rw [hpop]
      have hback := Run.cons htype (Run.cons hflags (Run.cons huser (Run.single hslot)))
      refine ⟨_, _, _, hfront.append (Run.cons hready (Run.cons hlength (hcopy.append hback))), ?_,
        hhead, rfl⟩
      intro x hx
      simp only [List.mem_append, List.mem_cons, List.mem_replicate, List.not_mem_nil,
        or_false] at hx
      tauto
    · have hother : PopThread (r, .loadSeq out r.head) .empty (r, .idle) := PopStep.seqOther hseq
      have hpop : tryPop r out = (none, r) := by simp [tryPop, hseq]
      rw [hpop]
      exact ⟨_, _, _, hfront, by simp, hother, rfl⟩

theorem tryPop_solo (r : Ring) (out : List UInt8) :
    ∃ es, Run PopThread (r, .idle) es ((tryPop r out).2, .idle) ∧
      es.filterMap PopEvent.returned = [(tryPop r out).1] := by
  have hcall : PopThread (r, .idle) (.call out) (r, .enter out) := PopStep.call out
  obtain ⟨es, s, e, hrun, htau, hlast, hret⟩ := tryPop_accesses r out
  have hsilent : es.filterMap PopEvent.returned = [] := by
    rw [List.filterMap_eq_nil_iff]
    intro x hx
    rw [htau x hx]
    rfl
  refine ⟨_, Run.cons hcall (hrun.snoc hlast), ?_⟩
  rw [List.filterMap_cons_none rfl, List.filterMap_append, hsilent, List.nil_append,
    List.filterMap_cons_some hret]
  rfl

/-- The oldest record is published. -/
def Ring.Poppable (r : Ring) : Prop :=
  validMeta r.ringMeta = true ∧ r.seq (r.slot r.head) = u64 (r.head + 1)

theorem tryPop_of_not_poppable {r : Ring} (h : ¬ r.Poppable) (out : List UInt8) :
    tryPop r out = (none, r) := by
  cases hv : validMeta r.ringMeta with
  | false => simp [tryPop, hv]
  | true =>
    have hseq : r.seq (r.slot r.head) ≠ u64 (r.head + 1) := fun hseq => h ⟨hv, hseq⟩
    simp [tryPop, hseq]

theorem tryPop_of_poppable {r : Ring} (h : r.Poppable) (out : List UInt8) :
    (tryPop r out).2 = (r.setSeq (r.slot r.head) (u64 (r.head + r.ringMeta.recordMax))).setHead
      (u64 (r.head + 1)) := by
  simp only [tryPop, h.1, h.2, if_true]

theorem tryPop_eq_none_iff (r : Ring) (out : List UInt8) :
    (tryPop r out).1 = none ↔ ¬ r.Poppable := by
  by_cases hp : r.Poppable
  · simp [tryPop, hp.1, hp.2, hp]
  · simp [tryPop_of_not_poppable hp, hp]

/-- Inside a pop, undisturbed since it was called on the ring `r`. -/
def MidPop (r : Ring) : Ring × PopPc → Prop
  | (_, .idle) => False
  | (r', .enter _) => r' = r
  | (r', .loadHead _) => r' = r ∧ validMeta r.ringMeta = true
  | (r', .loadSeq _ pos) => r' = r ∧ validMeta r.ringMeta = true ∧ pos = r.head
  | (r', .loadLen _ pos) | (r', .copy _ pos _ _) | (r', .loadType _ pos _)
  | (r', .loadFlags _ pos _ _) | (r', .loadUser _ pos _ _ _) | (r', .releaseSlot _ pos _) =>
    r' = r ∧ pos = r.head ∧ r.Poppable
  | (r', .releaseHead _ pos _) =>
    r' = r.setSeq (r.slot r.head) (u64 (r.head + r.ringMeta.recordMax)) ∧ pos = r.head ∧ r.Poppable

/-- Whatever order it copies in, an undisturbed pop ends as the whole call does. -/
theorem midPop_step {r : Ring} {s t : Ring × PopPc} {e : PopEvent} (h : MidPop r s)
    (hs : PopThread s e t) :
    (e = .tau ∧ MidPop r t) ∨ (t = ((tryPop r []).2, .idle) ∧
      ((e = .empty ∧ ¬ r.Poppable) ∨ ((∃ x out, e = .popped x out) ∧ r.Poppable))) := by
  obtain ⟨r', pc⟩ := s
  obtain ⟨r'', pc'⟩ := t
  simp only [PopThread] at hs
  cases hs with
  | call => exact h.elim
  | enter hv =>
    obtain rfl := h
    exact .inl ⟨rfl, rfl, hv⟩
  | reject hv =>
    obtain rfl := h
    have hnot : ¬ r'.Poppable := fun hp => by
      rw [hp.1] at hv
      cases hv
    refine .inr ⟨?_, .inl ⟨rfl, hnot⟩⟩
    rw [tryPop_of_not_poppable hnot]
  | loadHead =>
    obtain ⟨rfl, hv⟩ := h
    exact .inl ⟨rfl, rfl, hv, rfl⟩
  | seqReady hseq =>
    obtain ⟨rfl, hv, rfl⟩ := h
    exact .inl ⟨rfl, rfl, rfl, hv, hseq⟩
  | seqOther hseq =>
    obtain ⟨rfl, hv, rfl⟩ := h
    have hnot : ¬ r'.Poppable := fun hp => hseq hp.2
    refine .inr ⟨?_, .inl ⟨rfl, hnot⟩⟩
    rw [tryPop_of_not_poppable hnot]
  | releaseSlot =>
    obtain ⟨rfl, rfl, hp⟩ := h
    exact .inl ⟨rfl, rfl, rfl, hp⟩
  | releaseHead =>
    obtain ⟨rfl, rfl, hp⟩ := h
    refine .inr ⟨?_, .inr ⟨⟨_, _, rfl⟩, hp⟩⟩
    rw [tryPop_of_poppable hp]
  | _ =>
    obtain ⟨rfl, rfl, hp⟩ := h
    exact .inl ⟨rfl, rfl, rfl, hp⟩

section System

variable {P : Type u}

section Lift

variable [DecidableEq P]

theorem ringStep_pushThread (f : P → PushPc) (k : PopPc) (p : P) {s t : Ring × PushPc}
    {e : PushEvent} (h : PushThread s e t) :
    RingStep ⟨s.1, Function.update f p s.2, k⟩ (.push p e) ⟨t.1, Function.update f p t.2, k⟩ := by
  have hstep := RingStep.push (c := ⟨s.1, Function.update f p s.2, k⟩) (p := p)
    (by simpa [PushThread] using h)
  simpa using hstep

/-- Undisturbed accesses of one producer are a run of the whole system. -/
theorem lift_pushThread (f : P → PushPc) (k : PopPc) (p : P) {s t : Ring × PushPc}
    {es : List PushEvent} (h : Run PushThread s es t) :
    Run RingStep ⟨s.1, Function.update f p s.2, k⟩ (es.map (.push p))
      ⟨t.1, Function.update f p t.2, k⟩ := by
  refine h.map (fun s => (⟨s.1, Function.update f p s.2, k⟩ : RingConfig P)) (RingEvent.push p) ?_
  intro s e t hs
  exact ringStep_pushThread f k p hs

theorem lift_popThread (f : P → PushPc) {s t : Ring × PopPc} {es : List PopEvent}
    (h : Run PopThread s es t) :
    Run RingStep (⟨s.1, f, s.2⟩ : RingConfig P) (es.map .pop) ⟨t.1, f, t.2⟩ := by
  refine h.map (fun s => (⟨s.1, f, s.2⟩ : RingConfig P)) RingEvent.pop ?_
  intro s e t hs
  exact .pop hs

end Lift

theorem claims_push_map (p : P) (es : List PushEvent) :
    (claims (es.map (.push p))).map Claimed.push = es.filterMap PushEvent.claimed := by
  simp only [claims, List.filterMap_map, List.map_filterMap]
  apply List.filterMap_congr
  rintro e -
  cases e <;> rfl

theorem poppedCalls_push_map (p : P) (es : List PushEvent) :
    poppedCalls (es.map (.push p)) = [] := by
  simp only [poppedCalls, List.filterMap_map, List.filterMap_eq_nil_iff]
  exact fun _ _ => rfl

theorem claims_pop_map (es : List PopEvent) :
    claims (es.map (.pop : PopEvent → RingEvent P)) = [] := by
  simp only [claims, List.filterMap_map, List.filterMap_eq_nil_iff]
  exact fun _ _ => rfl

theorem poppedCalls_pop_map (es : List PopEvent) :
    poppedCalls (es.map (.pop : PopEvent → RingEvent P)) =
      (es.filterMap PopEvent.returned).filterMap id := by
  simp only [poppedCalls, List.filterMap_map, List.filterMap_filterMap]
  apply List.filterMap_congr
  rintro e -
  cases e <;> rfl

variable [DecidableEq P]

/-- Whatever the others are in the middle of, a producer can make a whole call. -/
theorem tryPush_run {c : RingConfig P} {p : P} (hp : c.producers p = .idle) (a : Push) :
    ∃ log, Run RingStep c log ⟨(tryPush c.ring a).2, c.producers, c.consumer⟩ ∧
      (claims log).map Claimed.push = (if succeeded (tryPush c.ring a).1 then [a] else []) ∧
      poppedCalls log = [] := by
  obtain ⟨es, hrun, -, hcl⟩ := tryPush_solo c.ring a
  have hlift := lift_pushThread c.producers c.consumer p hrun
  simp only [← hp, Function.update_eq_self] at hlift
  exact ⟨_, hlift, (claims_push_map p es).trans hcl, poppedCalls_push_map p es⟩

theorem tryPop_run {c : RingConfig P} (hc : c.consumer = .idle) (out : List UInt8) :
    ∃ log, Run RingStep c log ⟨(tryPop c.ring out).2, c.producers, c.consumer⟩ ∧ claims log = [] ∧
      poppedCalls log = (tryPop c.ring out).1.toList := by
  obtain ⟨es, hrun, hret⟩ := tryPop_solo c.ring out
  have hlift := lift_popThread c.producers hrun
  simp only [← hc] at hlift
  refine ⟨_, hlift, claims_pop_map es, ?_⟩
  rw [poppedCalls_pop_map, hret]
  cases (tryPop c.ring out).1 <;> rfl

def RingReply.record : RingReply → Option (PoppedRecord × List UInt8)
  | .popped x => x
  | .pushed .. => none

/-- The accesses of the atomic model compose to every sequence of whole calls, whatever the other
producers are in the middle of. -/
theorem calls_run {c : RingConfig P} {p : P} (hp : c.producers p = .idle) (hc : c.consumer = .idle)
    (calls : List RingCall) :
    ∃ log, Run RingStep c log ⟨final ringCall c.ring calls, c.producers, c.consumer⟩ ∧
      (claims log).length ≤ pushes calls ∧
      poppedCalls log = (replies ringCall c.ring calls).filterMap RingReply.record := by
  induction calls generalizing c with
  | nil => exact ⟨[], .nil, Nat.zero_le _, rfl⟩
  | cons call calls ih =>
    cases call with
    | push a =>
      obtain ⟨l, hrun, hcl, hpop⟩ := tryPush_run hp a
      obtain ⟨l', hrun', hcl', hpop'⟩ :=
        ih (c := ⟨(tryPush c.ring a).2, c.producers, c.consumer⟩) hp hc
      have hone : (claims l).length ≤ 1 := by
        rw [← List.length_map (f := Claimed.push), hcl]
        split <;> simp
      refine ⟨l ++ l', hrun.append hrun', ?_, ?_⟩
      · rw [claims_append, List.length_append, pushes]
        omega
      · rw [poppedCalls_append, hpop, hpop']
        rfl
    | pop out =>
      obtain ⟨l, hrun, hcl, hpop⟩ := tryPop_run hc out
      obtain ⟨l', hrun', hcl', hpop'⟩ :=
        ih (c := ⟨(tryPop c.ring out).2, c.producers, c.consumer⟩) hp hc
      refine ⟨l ++ l', hrun.append hrun', ?_, ?_⟩
      · rw [claims_append, hcl]
        exact hcl'
      · rw [poppedCalls_append, hpop, hpop']
        simp only [replies, ringCall, List.filterMap_cons, RingReply.record]
        cases (tryPop c.ring out).1 <;> rfl

end System

end Shmfx
