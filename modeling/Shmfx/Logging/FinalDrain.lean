import Shmfx.Logging.Order
import Shmfx.Ring.Unread

/-! What the last pass over a DEAD ring delivers, and what it leaves behind. -/
namespace Shmfx

open Lts Word

universe u v

variable {P : Type u} {O : Type v} {options : CenterOptions} {nameOf : O → Name}
  {log : List (LogEvent P O)} {c c' : LogConfig P O} {e : LogEvent P O}

/-- The producers of a ring have stopped before it becomes DEAD. -/
def StopsBeforeDead (c : LogConfig P O) (e : LogEvent P O) : Prop :=
  ∀ o p pe, e = .push o p pe → c.dead o = false

/-- What `drain_ring` makes of a record, with a scratch buffer of the given size. -/
def Stored.sunk (x : Stored) (source : Name) (scratchBytes : Nat) : LogRecord :=
  ⟨source, decodeLevel x.type, x.flags, x.user, x.payload.take scratchBytes⟩

theorem logRecord_sunk {x : Stored} {popped : PoppedRecord} {out : List UInt8} (source : Name)
    (h : Shows x popped out) : logRecord source popped out = x.sunk source out.length := by
  have hpayload : out.take popped.copiedSize = x.payload.take out.length := by
    rw [h.bytes, h.copiedSize, ← List.take_take, List.take_length]
  simp only [logRecord, Stored.sunk, h.type, h.flags, h.user, hpayload]

/-- The ring as its consumer found it, between pops or inside one. -/
def Found (r : Ring) (s : RingConfig P) : Prop :=
  (s.consumer = .idle ∧ s.ring = r) ∨
    (MidPop r (s.ring, s.consumer) ∧ s.consumer.seen r.oldest)

section Found

variable [DecidableEq P] {r : Ring} {s t : RingConfig P} {pe : PopEvent}

theorem Found.call {out : List UInt8} (h : Found r s) (hs : RingStep s (.pop (.call out)) t) :
    Found r t := by
  obtain ⟨ring, producers, consumer⟩ := s
  cases hs with
  | pop hs =>
    cases hs with
    | call =>
      rcases h with ⟨-, hring⟩ | ⟨hmid, -⟩
      · exact .inr ⟨hring, trivial⟩
      · exact hmid.elim

/-- Inside a pop the whole call decides what the next access can be. -/
theorem Found.next (h : Found r s) (hs : RingStep s (.pop pe) t) (hpe : ∀ out, pe ≠ .call out) :
    s.consumer ≠ .idle ∧ ((pe = .tau ∧ Found r t) ∨
      ((t.ring, t.consumer) = ((tryPop r []).2, .idle) ∧ ((pe = .empty ∧ ¬ r.Poppable) ∨
        (r.Poppable ∧ ∃ x out, pe = .popped x out ∧ Shows r.oldest x out)))) := by
  cases hs with
  | pop hs =>
    have hbusy : s.consumer ≠ .idle := by
      intro hidle
      rw [hidle] at hs
      cases hs with
      | call out => exact hpe out rfl
    rcases h with ⟨hidle, -⟩ | ⟨hmid, hseen⟩
    · exact absurd hidle hbusy
    · obtain ⟨hseen', hshows⟩ := seen_step hmid hseen hs
      have hthread : PopThread (s.ring, s.consumer) pe (_, _) := hs
      refine ⟨hbusy, ?_⟩
      rcases midPop_step hmid hthread with ⟨hpe, hmid⟩ | ⟨ht, hempty | ⟨⟨x, out, hpe⟩, hp⟩⟩
      · exact .inl ⟨hpe, .inr ⟨hmid, hseen'⟩⟩
      · exact .inr ⟨ht, .inl hempty⟩
      · exact .inr ⟨ht, .inr ⟨hp, x, out, hpe, hshows x out hpe⟩⟩

/-- So far this pass has taken `k` of at most `b` records out of the ring it found as `r₀`, and the
sink has got them. -/
def Halfway (b : Nat) (r₀ : Ring) (f : Stored → LogRecord) (sunk : List LogRecord) (k : Nat)
    (s : RingConfig P) : Prop :=
  ∃ r, Taken r₀ k r ∧ Found r s ∧ k ≤ b ∧ (s.consumer ≠ .idle → k < b) ∧
    sunk = (List.range k).map fun i => f (r₀.storedAt i)

/-- The pass is done with the ring: the batch is used up, or nothing more was published. -/
def Finished (b : Nat) (r₀ : Ring) (f : Stored → LogRecord) (sunk : List LogRecord) (r : Ring) :
    Prop :=
  ∃ k, Taken r₀ k r ∧ k ≤ b ∧ (k = b ∨ ¬ r.Poppable) ∧
    sunk = (List.range k).map fun i => f (r₀.storedAt i)

variable {b k : Nat} {r₀ : Ring} {f : Stored → LogRecord} {sunk : List LogRecord}
  {out : List UInt8} {x : PoppedRecord}

theorem Halfway.call (h : Halfway b r₀ f sunk k s) (hs : RingStep s (.pop (.call out)) t)
    (hk : k < b) : Halfway b r₀ f sunk k t := by
  obtain ⟨r, htaken, hfound, hle, -, hsunk⟩ := h
  exact ⟨r, htaken, hfound.call hs, hle, fun _ => hk, hsunk⟩

theorem Halfway.tau (h : Halfway b r₀ f sunk k s) (hs : RingStep s (.pop .tau) t) :
    Halfway b r₀ f sunk k t := by
  obtain ⟨r, htaken, hfound, hle, hbusy, hsunk⟩ := h
  obtain ⟨hin, ⟨-, hfound'⟩ | ⟨-, ⟨hcontra, -⟩ | ⟨-, _, _, hcontra, -⟩⟩⟩ := hfound.next hs nofun
  · exact ⟨r, htaken, hfound', hle, fun _ => hbusy hin, hsunk⟩
  · cases hcontra
  · cases hcontra

/-- A pop that finds nothing ends the ring's turn early. -/
theorem Halfway.empty (h : Halfway b r₀ f sunk k s) (hs : RingStep s (.pop .empty) t) :
    Finished b r₀ f sunk t.ring := by
  obtain ⟨r, htaken, hfound, hle, -, hsunk⟩ := h
  obtain ⟨-, ⟨hcontra, -⟩ | ⟨ht, ⟨-, hnot⟩ | ⟨-, _, _, hcontra, -⟩⟩⟩ := hfound.next hs nofun
  · cases hcontra
  · obtain ⟨hring, -⟩ := Prod.mk.inj ht
    rw [tryPop_of_not_poppable hnot] at hring
    rw [hring]
    exact ⟨k, htaken, hle, .inr hnot, hsunk⟩
  · cases hcontra

theorem Halfway.popped (h : Halfway b r₀ f sunk k s) (hf : r₀.FitsLap)
    (hs : RingStep s (.pop (.popped x out)) t) {record : LogRecord}
    (hrecord : ∀ y, Shows y x out → record = f y) :
    Halfway b r₀ f (sunk ++ [record]) (k + 1) t := by
  obtain ⟨r, htaken, hfound, hle, hbusy, hsunk⟩ := h
  obtain ⟨hin, ⟨hcontra, -⟩ | ⟨ht, ⟨hcontra, -⟩ | ⟨hp, _, _, hpe, hshows⟩⟩⟩ :=
    hfound.next hs nofun
  · cases hcontra
  · cases hcontra
  · cases hpe
    obtain ⟨hring, hidle⟩ := Prod.mk.inj ht
    refine ⟨_, htaken.pop hf hp, .inl ⟨hidle, hring⟩, hbusy hin, absurd hidle, ?_⟩
    rw [hsunk, List.range_succ, List.map_append, hrecord _ hshows, htaken.oldest]
    rfl

/-- The sink gets a record as far as the scratch buffer holds it. -/
theorem Halfway.sink {batch count : UInt32} {source : Name} {scratchBytes : Nat}
    (h : Halfway batch.toNat r₀ (·.sunk source scratchBytes) sunk count.toNat s)
    (hf : r₀.FitsLap) (hs : RingStep s (.pop (.popped x out)) t)
    (hbuffer : ∀ out, s.consumer.buffer = some out → out.length = scratchBytes) :
    Halfway batch.toNat r₀ (·.sunk source scratchBytes) (sunk ++ [logRecord source x out])
      (count + 1).toNat t := by
  have hout : out.length = scratchBytes := by
    cases hs with
    | pop hpop => exact hbuffer out hpop.popped_buffer
  have hnext := h.popped hf hs fun y hy => hout ▸ logRecord_sunk source hy
  have hle : count.toNat + 1 ≤ batch.toNat := by
    obtain ⟨_, -, -, hle, -⟩ := hnext
    exact hle
  rwa [toNat_add_one (Nat.lt_of_le_of_lt hle batch.toNat_lt)]

omit [DecidableEq P] in
/-- A batch that is used up ends it too, between two pops. -/
theorem Halfway.full (h : Halfway b r₀ f sunk k s) (hk : b ≤ k) (hidle : s.consumer = .idle) :
    Finished b r₀ f sunk s.ring := by
  obtain ⟨r, htaken, hfound, hle, -, hsunk⟩ := h
  rcases hfound with ⟨-, hring⟩ | ⟨hmid, -⟩
  · rw [hring]
    exact ⟨k, htaken, hle, .inl (Nat.le_antisymm hle hk), hsunk⟩
  · rw [hidle] at hmid
    exact hmid.elim

end Found

/-- How far the pass has come with a ring it found DEAD as `r₀` at index `j`, `es` being the events
since. -/
def Emptying [DecidableEq O] (b : Nat) (r₀ : Ring) (f : Stored → LogRecord) (j : Nat) (o : O)
    (es : List (LogEvent P O)) (c : LogConfig P O) : Prop :=
  match c.center with
  | .idle | .discovering _ => False
  | .draining i _ => j < i ∧ Finished b r₀ f (sinkFrom o es) (c.rings o).ring
  | .popping i _ count _ =>
    (j < i ∧ Finished b r₀ f (sinkFrom o es) (c.rings o).ring) ∨
      (j = i ∧ Halfway b r₀ f (sinkFrom o es) count.toNat (c.rings o))

section Steps

variable [DecidableEq P] [DecidableEq O]

/-- Attached rings have different names, and only the ring being drained is inside a pop. -/
structure Orderly (nameOf : O → Name) (c : LogConfig P O) : Prop where
  named : WellNamed nameOf c
  nodup : (c.attached.map AttachedRing.name).Nodup
  alone : ∀ o, (c.rings o).consumer = .idle ∨ ∃ i drained count scratch a,
    c.center = .popping i drained count scratch ∧ c.attached[i]? = some a ∧ a.ring = o

section

omit [DecidableEq P] [DecidableEq O]

theorem Orderly.ring_inj (h : Orderly nameOf c) {i j : Nat} {a b : AttachedRing O}
    (ha : c.attached[i]? = some a) (hb : c.attached[j]? = some b) (hring : a.ring = b.ring) :
    i = j := by
  have hname : a.name = b.name := by
    rw [← h.named.attached a (List.mem_of_getElem? ha), hring,
      h.named.attached b (List.mem_of_getElem? hb)]
  have hi : i < (c.attached.map AttachedRing.name).length := by
    rw [List.length_map]
    exact (List.getElem?_eq_some_iff.mp ha).1
  refine (List.getElem?_inj hi h.nodup).mp ?_
  rw [List.getElem?_map, List.getElem?_map, ha, hb, Option.map_some, Option.map_some, hname]

theorem Orderly.idle (h : Orderly nameOf c)
    (hc : ∀ i drained count scratch, c.center ≠ .popping i drained count scratch) (o : O) :
    (c.rings o).consumer = .idle := by
  rcases h.alone o with hidle | ⟨i, drained, count, scratch, a, hpc, -⟩
  · exact hidle
  · exact absurd hpc (hc i drained count scratch)

theorem Orderly.idle_of_ne (h : Orderly nameOf c) {i : Nat} {drained count : UInt32}
    {scratch : List UInt8} {a : AttachedRing O} {o : O}
    (hpc : c.center = .popping i drained count scratch) (ha : c.attached[i]? = some a)
    (ho : o ≠ a.ring) : (c.rings o).consumer = .idle := by
  rcases h.alone o with hidle | ⟨i', drained', count', scratch', b, hpc', hb, rfl⟩
  · exact hidle
  · rw [hpc] at hpc'
    cases hpc'
    rw [ha] at hb
    cases hb
    exact absurd rfl ho

theorem orderly_initial (rings : O → Ring) : Orderly nameOf (.initial rings : LogConfig P O) :=
  ⟨wellNamed_initial rings, List.nodup_nil, fun _ => .inl rfl⟩

end

/-- A pop that returns leaves its ring idle. -/
theorem RingStep.idle_of_returned {s t : RingConfig P} {pe : PopEvent}
    (h : RingStep s (.pop pe) t) (hret : pe.returned ≠ none) : t.consumer = .idle := by
  obtain ⟨r, producers, pc⟩ := s
  cases h with
  | pop h =>
    cases h with
    | reject | seqOther | releaseHead => rfl
    | _ => exact absurd rfl hret

theorem nodup_step (h : (c.attached.map AttachedRing.name).Nodup)
    (hs : LogStep options nameOf c e c') : (c'.attached.map AttachedRing.name).Nodup := by
  cases hs with
  | @attach entry entries o hpc htype hnew =>
    simp only [LogConfig.setCenter, LogConfig.setAttached, List.map_append, List.map_cons,
      List.map_nil, List.nodup_append, List.nodup_singleton, List.mem_map,
      List.mem_singleton, true_and]
    refine ⟨h, ?_⟩
    rintro _ ⟨a, ha, rfl⟩ _ rfl
    exact hnew a ha
  | @visit i drained a hpc ha =>
    have hsame : (c.attached.set i (a.mark (c.dead a.ring))).map AttachedRing.name =
        c.attached.map AttachedRing.name := by
      obtain ⟨hi, rfl⟩ := List.getElem?_eq_some_iff.mp ha
      have hlen : i < (c.attached.map AttachedRing.name).length := by rwa [List.length_map]
      have hself := List.set_getElem_self hlen
      rw [List.getElem_map] at hself
      rw [List.map_set]
      exact hself
    exact hsame ▸ h
  | finish => exact h.sublist (List.filter_sublist.map _)
  | _ => exact h

/-- A push on any ring leaves the consumers where they are. -/
theorem consumer_push {o' : O} {p : P} {pe : PushEvent} {s : RingConfig P}
    (hs : RingStep (c.rings o') (.push p pe) s) (o : O) :
    ((c.setRing o' s).rings o).consumer = (c.rings o).consumer := by
  by_cases ho : o = o'
  · subst ho
    rw [c.rings_setRing_self]
    cases hs
    rfl
  · rw [c.rings_setRing_of_ne ho]

/-- Once the only pop there is has returned, no ring is inside one. -/
theorem Orderly.idle_of_returned (h : Orderly nameOf c) {i : Nat} {drained count : UInt32}
    {scratch : List UInt8} {a : AttachedRing O} {pe : PopEvent} {s : RingConfig P}
    (hpc : c.center = .popping i drained count scratch) (ha : c.attached[i]? = some a)
    (hs : RingStep (c.rings a.ring) (.pop pe) s) (hret : pe.returned ≠ none) (o : O) :
    ((c.setRing a.ring s).rings o).consumer = .idle := by
  by_cases ho : o = a.ring
  · subst ho
    rw [c.rings_setRing_self]
    exact hs.idle_of_returned hret
  · rw [c.rings_setRing_of_ne ho]
    exact h.idle_of_ne hpc ha ho

theorem alone_step (h : Orderly nameOf c) (hs : LogStep options nameOf c e c') (o : O) :
    (c'.rings o).consumer = .idle ∨ ∃ i drained count scratch a,
      c'.center = .popping i drained count scratch ∧ c'.attached[i]? = some a ∧ a.ring = o := by
  cases hs with
  | log hcall hstep =>
    rw [consumer_push hstep]
    exact h.alone o
  | push he hstep =>
    rw [consumer_push hstep]
    exact h.alone o
  | die | link => exact h.alone o
  | @call i drained count scratch a s hpc ha =>
    by_cases ho : o = a.ring
    · exact .inr ⟨_, _, _, _, a, hpc, ha, ho.symm⟩
    · rw [c.rings_setRing_of_ne ho]
      exact h.alone o
  | @pop i drained count scratch a s hpc ha =>
    by_cases ho : o = a.ring
    · exact .inr ⟨_, _, _, _, a, hpc, ha, ho.symm⟩
    · rw [c.rings_setRing_of_ne ho]
      exact h.alone o
  | empty hpc ha hstep => exact .inl (h.idle_of_returned hpc ha hstep nofun o)
  | sink hpc ha hstep => exact .inl (h.idle_of_returned hpc ha hstep nofun o)
  | @batch i drained count scratch a hpc ha hcount hidle =>
    by_cases ho : o = a.ring
    · exact .inl (ho ▸ hidle)
    · exact .inl (h.idle_of_ne hpc ha ho)
  | discover _ hpc | skip hpc | attach hpc | attachFails hpc | discovered hpc | begin hpc
  | visit hpc | finish hpc => exact .inl (h.idle (by simp [hpc]) o)

theorem orderly_step (h : Orderly nameOf c) (hs : LogStep options nameOf c e c') :
    Orderly nameOf c' :=
  ⟨wellNamed_step h.named hs, nodup_step h.nodup hs, alone_step h hs⟩

theorem LogStep.dead (hs : LogStep options nameOf c e c') {o : O} (h : c.dead o = true) :
    c'.dead o = true := by
  cases hs with
  | die o' =>
    by_cases ho : o = o'
    · subst ho
      exact Function.update_self ..
    · exact (Function.update_of_ne ho ..).trans h
  | _ => exact h

variable {rings : O → Ring}

/-- A ring that `bind` accepted stays one. -/
theorem validMeta_run (hbound : ∀ o, validMeta (rings o).ringMeta = true)
    (hrun : Run (LogStep options nameOf) (.initial rings) log c) (o : O) :
    validMeta (c.rings o).ring.ringMeta = true := by
  induction hrun with
  | nil => exact hbound o
  | snoc _ hs ih =>
    rcases hs.ring o with ⟨-, hsame⟩ | ⟨_, -, hstep⟩
    · rw [hsame]
      exact ih
    · rw [hstep.validMeta]
      exact ih

section Draining

variable {r₀ : Ring} {j : Nat} {a : AttachedRing O} {es : List (LogEvent P O)}

/-- The rest of a pass takes the records of a marked ring out one by one. -/
theorem emptying_step (ho : Orderly nameOf c) (ha : c.attached[j]? = some a)
    (hdead : c.dead a.ring = true) (hf : r₀.FitsLap)
    (hbuffer : ∀ out, (c.rings a.ring).consumer.buffer = some out →
      out.length = options.scratchBytes.toNat)
    (h : Emptying options.drainBatch.toNat r₀ (·.sunk a.name options.scratchBytes.toNat) j a.ring
      es c) (hs : LogStep options nameOf c e c') (hstop : StopsBeforeDead c e)
    (hgo : ∀ count, e ≠ .drained count) :
    Emptying options.drainBatch.toNat r₀ (·.sunk a.name options.scratchBytes.toNat) j a.ring
      (es ++ [e]) c' := by
  have hpush : ∀ (o' : O) (p : P) (pe : PushEvent) (s : RingConfig P), e = .push o' p pe →
      (c.setRing o' s).rings a.ring = c.rings a.ring := by
    intro o' p pe s he
    have hne : a.ring ≠ o' := by
      rintro rfl
      have hlive := hstop a.ring p pe he
      rw [hdead] at hlive
      cases hlive
    exact c.rings_setRing_of_ne hne s
  have hne : ∀ (i : Nat) (b : AttachedRing O), c.attached[i]? = some b → j < i →
      a.ring ≠ b.ring :=
    fun i b hb hlt hring => Nat.ne_of_lt hlt (ho.ring_inj ha hb hring)
  have hother : ∀ (i : Nat) (b : AttachedRing O) (s : RingConfig P), c.attached[i]? = some b →
      j < i → (c.setRing b.ring s).rings a.ring = c.rings a.ring :=
    fun i b s hb hlt => c.rings_setRing_of_ne (hne i b hb hlt) s
  have hself := c.rings_setRing_self a.ring
  have hown : ∀ b : AttachedRing O, c.attached[j]? = some b → a = b :=
    fun b hb => Option.some.inj (ha.symm.trans hb)
  have hquiet : e.sunk a.ring = none → sinkFrom a.ring (es ++ [e]) = sinkFrom a.ring es := by
    intro he
    rw [sinkFrom_snoc, he]
    exact List.append_nil _
  unfold Emptying at h ⊢
  cases hs with
  | log hcall hstep =>
    simp only [hpush _ _ _ _ rfl, hquiet rfl]
    exact h
  | push he hstep =>
    simp only [hpush _ _ _ _ rfl, hquiet rfl]
    exact h
  | die | link =>
    simp only [hquiet rfl]
    exact h
  | discover _ hpc | skip hpc | attach hpc | attachFails hpc | discovered hpc | begin hpc =>
    rw [hpc] at h
    exact h.elim
  | @visit i drained b hpc hb =>
    rw [hpc] at h
    rw [hquiet rfl]
    exact .inl h
  | @call i drained count scratch b s hpc hb hcount hstep =>
    rw [hpc] at h
    rw [show (c.setRing b.ring s).center = _ from hpc, hquiet rfl]
    rcases h with ⟨hlt, hdone⟩ | ⟨rfl, hhalf⟩
    · rw [hother i b s hb hlt]
      exact .inl ⟨hlt, hdone⟩
    · obtain rfl := hown b hb
      rw [hself]
      exact .inr ⟨rfl, hhalf.call hstep (UInt32.lt_iff_toNat_lt.mp hcount)⟩
  | @pop i drained count scratch b s hpc hb hstep =>
    rw [hpc] at h
    rw [show (c.setRing b.ring s).center = _ from hpc, hquiet rfl]
    rcases h with ⟨hlt, hdone⟩ | ⟨rfl, hhalf⟩
    · rw [hother i b s hb hlt]
      exact .inl ⟨hlt, hdone⟩
    · obtain rfl := hown b hb
      rw [hself]
      exact .inr ⟨rfl, hhalf.tau hstep⟩
  | @empty i drained count scratch b s hpc hb hstep =>
    rw [hpc] at h
    rw [hquiet rfl]
    rcases h with ⟨hlt, hdone⟩ | ⟨rfl, hhalf⟩
    · exact ⟨Nat.lt_succ_of_lt hlt, (hother i b s hb hlt).symm ▸ hdone⟩
    · obtain rfl := hown b hb
      exact ⟨Nat.lt_succ_self j, (hself s).symm ▸ hhalf.empty hstep⟩
  | @sink i drained count scratch out b s popped hpc hb hstep =>
    rw [hpc] at h
    rcases h with ⟨hlt, hdone⟩ | ⟨rfl, hhalf⟩
    · have hnone : (LogEvent.sink b.ring popped out (logRecord b.name popped out) :
          LogEvent P O).sunk a.ring = none := if_neg (Ne.symm (hne i b hb hlt))
      rw [hquiet hnone]
      exact .inl ⟨hlt, (hother i b s hb hlt).symm ▸ hdone⟩
    · obtain rfl := hown b hb
      refine .inr ⟨rfl, ?_⟩
      show Halfway _ _ _ _ (count + 1).toNat ((c.setRing a.ring s).rings a.ring)
      rw [hself, sinkFrom_snoc, LogEvent.sunk, if_pos rfl]
      exact hhalf.sink hf hstep hbuffer
  | @batch i drained count scratch b hpc hb hcount hidle =>
    rw [hpc] at h
    rw [hquiet rfl]
    rcases h with ⟨hlt, hdone⟩ | ⟨rfl, hhalf⟩
    · exact ⟨Nat.lt_succ_of_lt hlt, hdone⟩
    · obtain rfl := hown b hb
      exact ⟨Nat.lt_succ_self j, hhalf.full (UInt32.le_iff_toNat_le.mp hcount) hidle⟩
  | finish hpc => exact absurd rfl (hgo _)

/-- The visit in this pass that found a marked ring DEAD, and how far the pass has come since. -/
def Marked (options : CenterOptions) (nameOf : O → Name) (rings : O → Ring)
    (log : List (LogEvent P O)) (c : LogConfig P O) (j : Nat) (a : AttachedRing O) : Prop :=
  ∃ log₁ es c₁ c₂, log = log₁ ++ .visited a.ring true :: es ∧
    Run (Guarded StopsBeforeDead (LogStep options nameOf)) (.initial rings) log₁ c₁ ∧
    LogStep options nameOf c₁ (.visited a.ring true) c₂ ∧ (∀ count, .drained count ∉ es) ∧
    c.dead a.ring = true ∧ ((c₁.rings a.ring).ring.FitsLap →
      Emptying options.drainBatch.toNat (c₁.rings a.ring).ring
        (·.sunk a.name options.scratchBytes.toNat) j a.ring es c)

theorem Marked.extend (ho : Orderly nameOf c)
    (hrun : Run (LogStep options nameOf) (.initial rings) log c)
    (h : Marked options nameOf rings log c j a) (ha : c.attached[j]? = some a)
    (hs : LogStep options nameOf c e c') (hstop : StopsBeforeDead c e)
    (hgo : ∀ count, e ≠ .drained count) : Marked options nameOf rings (log ++ [e]) c' j a := by
  obtain ⟨-, hbuffers, -⟩ := center_run hrun
  obtain ⟨log₁, es, c₁, c₂, rfl, hrun, hvisit, hes, hdead, hemptying⟩ := h
  refine ⟨log₁, es ++ [e], c₁, c₂, by simp, hrun, hvisit, ?_, hs.dead hdead, fun hf =>
    emptying_step ho ha hdead hf (hbuffers.inCall a.ring) (hemptying hf) hs hstop hgo⟩
  intro count hcount
  rcases List.mem_append.mp hcount with hcount | hcount
  · exact hes count hcount
  · exact hgo count (List.mem_singleton.mp hcount).symm

theorem marked_step (ho : Orderly nameOf c)
    (hrun : Run (Guarded StopsBeforeDead (LogStep options nameOf)) (.initial rings) log c)
    (h : ∀ j a, c.attached[j]? = some a → a.removeAfterDrain = true →
      Marked options nameOf rings log c j a)
    (hs : LogStep options nameOf c e c') (hstop : StopsBeforeDead c e) (j : Nat)
    (a : AttachedRing O) (ha : c'.attached[j]? = some a) (hmark : a.removeAfterDrain = true) :
    Marked options nameOf rings (log ++ [e]) c' j a := by
  have hold : c.attached[j]? = some a → (∀ count, e ≠ .drained count) →
      Marked options nameOf rings (log ++ [e]) c' j a :=
    fun ha hgo => (h j a ha hmark).extend ho hrun.unguard ha hs hstop hgo
  cases hs with
  | @attach entry entries o =>
    have ha' : (c.attached ++ [⟨entryName entry, o, false⟩])[j]? = some a := ha
    rw [List.getElem?_append] at ha'
    split at ha'
    · exact hold ha' (by rintro _ ⟨⟩)
    · obtain rfl := List.mem_singleton.mp (List.mem_of_getElem? ha')
      cases hmark
  | @visit i drained b hpc hb =>
    by_cases hj : j = i
    · subst hj
      have ha' : (c.attached.set j (b.mark (c.dead b.ring)))[j]? = some a := ha
      rw [List.getElem?_set_self (List.getElem?_eq_some_iff.mp hb).1] at ha'
      obtain rfl := Option.some.inj ha'
      have hidle := ho.idle (by simp [hpc]) b.ring
      cases hdead : c.dead b.ring with
      | false =>
        -- a ring that was marked before would be DEAD
        rw [AttachedRing.mark, hdead, Bool.or_false] at hmark
        obtain ⟨_, _, _, _, -, -, -, -, hdead', -⟩ := h j b hb hmark
        cases hdead.symm.trans hdead'
      | true =>
        refine ⟨log, [], c, _, rfl, hrun, .visit_as (a := b) hpc hb hdead, ?_, hdead, fun _ => ?_⟩
        · exact fun _ => List.not_mem_nil
        · exact .inr ⟨rfl, _, taken_zero _, .inl ⟨hidle, rfl⟩, Nat.zero_le _, absurd hidle, rfl⟩
    · refine hold ?_ (by rintro _ ⟨⟩)
      exact (List.getElem?_set_ne (Ne.symm hj)).symm.trans ha
  | finish =>
    have hkept := (List.mem_filter.mp (List.mem_of_getElem? ha)).2
    rw [hmark] at hkept
    cases hkept
  | _ => exact hold ha (by rintro _ ⟨⟩)

/-- When `drain_once` detaches a DEAD ring whose producers had stopped, what was popped before had
gone to the sink, and the pass has handed over every record that was published when it found the
ring, and left none, exactly if no slot was stalled then and there were at most `drain_batch`. -/
theorem detached_delivered_iff (hbound : ∀ o, validMeta (rings o).ringMeta = true)
    (hrun : Run (Guarded StopsBeforeDead (LogStep options nameOf)) (.initial rings) log c)
    {count : UInt32} (hfinish : LogStep options nameOf c (.drained count) c')
    (ha : a ∈ c.attached) (hmark : a.removeAfterDrain = true) :
    ∃ log₁ es c₁ c₂, log = log₁ ++ .visited a.ring true :: es ∧
      Run (Guarded StopsBeforeDead (LogStep options nameOf)) (.initial rings) log₁ c₁ ∧
      LogStep options nameOf c₁ (.visited a.ring true) c₂ ∧ (∀ count, .drained count ∉ es) ∧
      sinkFrom a.ring log₁ = (poppedCalls (ringLog a.ring log₁)).map
        (fun x => logRecord a.name x.1 x.2) ∧
      ((c₁.rings a.ring).ring.FitsLap →
        ((sinkFrom a.ring es = (c₁.rings a.ring).ring.unread.map
              (·.sunk a.name options.scratchBytes.toNat) ∧
            ∀ out, (tryPop (c.rings a.ring).ring out).1 = none) ↔
          (c₁.rings a.ring).ring.Unstalled ∧
            (c₁.rings a.ring).ring.unread.length ≤ options.drainBatch.toNat)) := by
  obtain ⟨ho, hmarked⟩ := Run.invariant (I := fun log c => Orderly nameOf c ∧
    ∀ j a, c.attached[j]? = some a → a.removeAfterDrain = true →
      Marked options nameOf rings log c j a) ⟨orderly_initial rings, fun _ _ h => (nomatch h)⟩
    (fun log c e c' hr h hs =>
      ⟨orderly_step h.1 hs.2, marked_step h.1 hr h.2 hs.2 hs.1⟩) hrun
  obtain ⟨j, hj⟩ := List.mem_iff_getElem?.mp ha
  obtain ⟨log₁, es, c₁, c₂, hlog, hrun₁, hvisit, hes, -, hemptying⟩ := hmarked j a hj hmark
  refine ⟨log₁, es, c₁, c₂, hlog, hrun₁, hvisit, hes, ?_, fun hf => ?_⟩
  · rw [← ho.named.attached a ha]
    exact (center_run hrun₁.unguard).2.2.1 a.ring
  · have hvalid := validMeta_run hbound hrun₁.unguard a.ring
    cases hfinish with
    | finish hpc =>
      have hdone := hemptying hf
      rw [Emptying, hpc] at hdone
      obtain ⟨-, k, htaken, hle, hend, hsunk⟩ := hdone
      simp only [tryPop_eq_none_iff, forall_const, hsunk]
      exact htaken.all_iff hvalid hle hend (·.sunk a.name options.scratchBytes.toNat)

end Draining

/-- A ring that nobody has used since the start is as it was. -/
theorem ring_of_quiet {rings : O → Ring} {o : O}
    (hrun : Run (LogStep options nameOf) (.initial rings) log c) (hquiet : ringLog o log = []) :
    c.rings o = .initial (rings o) := by
  induction hrun with
  | nil => rfl
  | snoc _ hs ih =>
    rw [ringLog_snoc, List.append_eq_nil_iff] at hquiet
    rcases hs.ring o with ⟨-, hsame⟩ | ⟨re, he, -⟩
    · rw [hsame]
      exact ih hquiet.1
    · rw [he] at hquiet
      cases hquiet.2

end Steps

/-- A ring of two slots with the first of them filled. -/
def halfRing : Ring := (tryPush (freshRing 2 64) ⟨2, 0, 7, [104, 105]⟩).2

/-- The same with both. -/
def filledRing : Ring := (tryPush halfRing ⟨2, 0, 8, [104, 105]⟩).2

theorem represents_halfRing : ∃ x, Represents halfRing 2 48 0 1 ⟨[x], 0⟩ := by
  have hr : Represents (freshRing 2 64) 2 48 0 0 ⟨[], 0⟩ :=
    represents_freshRing (by decide) (by decide) (by decide)
  obtain ⟨-, hr₁⟩ := hr.push (a := ⟨2, 0, 7, [104, 105]⟩) (.inl (by decide)) (by decide)
  exact ⟨_, hr₁⟩

theorem represents_filledRing : ∃ x y, Represents filledRing 2 48 0 2 ⟨[x, y], 0⟩ := by
  obtain ⟨x, hr⟩ := represents_halfRing
  obtain ⟨-, hr₂⟩ := hr.push (a := ⟨2, 0, 8, [104, 105]⟩) (.inl (by decide)) (by decide)
  exact ⟨x, _, hr₂⟩

/-- A pass that has just seen the owner of its one ring dead. -/
def visitedDead (r : Ring) (linked : Name → Option Bool) : LogConfig Bool Bool :=
  ⟨fun _ => .initial r, Function.update (fun _ => false) false true, linked,
    [⟨twoNames false, false, true⟩], .popping 0 0 0 (List.replicate (UInt32.toNat 1024) 0)⟩

theorem visitedDead_run (r : Ring) (linked : Name → Option Bool) :
    Run (Guarded LeavesRoom (LogStep ⟨1, 1024⟩ twoNames))
      (.ready twoNames (fun _ => r) [false] linked) [.die false, .begun, .visited false true]
      (visitedDead r linked) := by
  refine .cons ⟨leavesRoom_quiet nofun, .die false⟩ ?_
  refine .cons ⟨leavesRoom_quiet nofun, .begin rfl⟩ ?_
  have hlook : LogStep ⟨1, 1024⟩ twoNames (⟨fun _ => .initial r,
      Function.update (fun _ => false) false true, linked, [⟨twoNames false, false, false⟩],
      .draining 0 0⟩ : LogConfig Bool Bool) (.visited false true) _ :=
    .visit_as (a := ⟨twoNames false, false, false⟩) rfl rfl rfl
  exact .single ⟨leavesRoom_quiet nofun, hlook⟩

/-- The owner of a ring dies; the pass that sees this drains one record and detaches it. -/
theorem dead_pass {r : Ring} {t : Nat} {x : Stored} {xs : List Stored}
    (hr : Represents r 2 48 0 t ⟨x :: xs, 0⟩) :
    ∃ (log₁ es : List (LogEvent Bool Bool)) (c c' : LogConfig Bool Bool),
      Run (Guarded StopsBeforeDead (LogStep ⟨1, 1024⟩ twoNames)) (.initial fun _ => r)
          (log₁ ++ .visited false true :: es) c ∧
        ringLog false log₁ = [] ∧ .visited false true ∉ log₁ ∧ .visited false true ∉ es ∧
        LogStep ⟨1, 1024⟩ twoNames c (.drained 1) c' ∧
        c.attached = [⟨twoNames false, false, true⟩] ∧
        Represents (c.rings false).ring 2 48 1 t ⟨xs, 0⟩ := by
  obtain ⟨scratch, hscratch⟩ : ∃ scratch : List UInt8,
      scratch = List.replicate (UInt32.toNat 1024) 0 := ⟨_, rfl⟩
  obtain ⟨hpop, hr'⟩ := hr.pop (.inl (by decide)) rfl scratch
  rcases hview : x.view scratch with ⟨popped, out⟩
  rw [hview] at hpop
  have hnames : ([false].map twoNames).Nodup := by decide
  obtain ⟨log, linked, hready, htau⟩ := ready_run (P := Bool) ⟨1, 1024⟩ (fun _ => r) hnames
    twoNames_entry
  obtain ⟨c, hc⟩ : ∃ c, c = visitedDead r linked := ⟨_, rfl⟩
  have hvisit := visitedDead_run r linked
  rw [← hc] at hvisit
  have hring : c.rings false = .initial r := by rw [hc]; rfl
  have hcenter : c.center = .popping 0 0 0 scratch := by rw [hc, hscratch]; rfl
  have hattached : c.attached = [⟨twoNames false, false, true⟩] := by rw [hc]; rfl
  obtain ⟨es, hsink⟩ := sink_run ⟨1, 1024⟩ twoNames (c := c)
    (a := ⟨twoNames false, false, true⟩) hcenter (by rw [hattached]; rfl) (by decide)
    (by rw [hring]; rfl) (by rw [hring]; exact hpop)
  have hbatch : Guarded LeavesRoom (LogStep ⟨1, 1024⟩ twoNames)
      (c.betweenPops false (tryPop (c.rings false).ring scratch).2 (.popping 0 0 (0 + 1) out)) .tau
      ((c.betweenPops false (tryPop (c.rings false).ring scratch).2
        (.popping 0 0 (0 + 1) out)).setCenter (.draining 1 (0 + (0 + 1)))) :=
    ⟨leavesRoom_quiet nofun, .batch (a := ⟨twoNames false, false, true⟩) rfl
      (congrArg (·[0]?) hattached) (by decide) rfl⟩
  have hrun := ((hready.append hvisit).append hsink).snoc hbatch
  have hlog : log ++ [.die false, .begun, .visited false true] ++
      (es.map (.pop false) ++ [.sink false popped out (logRecord (twoNames false) popped out)]) ++
        [.tau] = (log ++ [.die false, .begun]) ++ .visited false true ::
      (es.map (.pop false) ++ [.sink false popped out (logRecord (twoNames false) popped out)] ++
        [.tau]) := by
    simp
  rw [hlog] at hrun
  refine ⟨_, _, _, _, hrun.unguard.guard ?_, ?_, ?_, by simp,
    .finish rfl (congrArg List.length hattached).le, hattached, ?_⟩
  · rintro bs e cs s s' he - -
    have hmem : e ∈ bs ++ e :: cs := by simp
    rw [← he] at hmem
    rintro o p pe rfl
    have htaus : LogEvent.push o p pe ∈ log := by simpa using hmem
    cases htau _ htaus
  · refine List.filterMap_eq_nil_iff.mpr fun e he => ?_
    rcases List.mem_append.mp he with he | he
    · rw [htau e he]
      rfl
    · obtain rfl | rfl : e = .die false ∨ e = .begun := by simpa using he
      · rfl
      · rfl
  · intro he
    have htaus : LogEvent.visited false true ∈ log := by simpa using he
    cases htau _ htaus
  · rw [hring]
    exact hr'

/-- One record and a batch of one: it is delivered, and the ring is empty when it is detached. -/
theorem detached_delivered_iff_one :
    ∃ (log₁ es : List (LogEvent Bool Bool)) (c c' : LogConfig Bool Bool) (a : AttachedRing Bool),
      Run (Guarded StopsBeforeDead (LogStep ⟨1, 1024⟩ twoNames)) (.initial fun _ => halfRing)
          (log₁ ++ .visited a.ring true :: es) c ∧
        LogStep ⟨1, 1024⟩ twoNames c (.drained 1) c' ∧ a ∈ c.attached ∧
        a.removeAfterDrain = true ∧
        sinkFrom a.ring es = [⟨twoNames false, .info, 0, 7, [104, 105]⟩] ∧
        ∀ out, (tryPop (c.rings a.ring).ring out).1 = none := by
  obtain ⟨x, hr⟩ := represents_halfRing
  obtain ⟨log₁, es, c, c', hrun, hquiet, hlog₁, hes, hfinish, hattached, -⟩ := dead_pass hr
  have ha : ⟨twoNames false, false, true⟩ ∈ c.attached := by simp [hattached]
  refine ⟨log₁, es, c, c', _, hrun, hfinish, ha, rfl, ?_⟩
  obtain ⟨log₁', es', c₁, c₂, hlog, hrun₁, -, -, -, hiff⟩ :=
    detached_delivered_iff (fun _ => by decide +kernel) hrun hfinish ha rfl
  obtain ⟨rfl, -, rfl⟩ := (List.append_cons_inj_of_notMem hlog₁ hes).mp hlog
  have hring : c₁.rings false = .initial halfRing := ring_of_quiet hrun₁.unguard hquiet
  have hunread : halfRing.unread.map (·.sunk (twoNames false) 1024) =
      [⟨twoNames false, .info, 0, 7, [104, 105]⟩] := by decide +kernel
  have hunstalled : halfRing.Unstalled := by
    intro i j hij (hj : j < 2) _
    obtain rfl : i = 0 := by omega
    decide +kernel
  simp only [hring] at hiff
  rw [← hunread]
  exact (hiff (.inl (by decide +kernel))).mpr ⟨hunstalled, by decide +kernel⟩

/-- Two records in a DEAD ring and a batch of one: the second is lost. -/
theorem detached_with_record : ∃ (log : List (LogEvent Bool Bool)) (c c' : LogConfig Bool Bool)
    (a : AttachedRing Bool),
    Run (Guarded StopsBeforeDead (LogStep ⟨1, 1024⟩ twoNames)) (.initial fun _ => filledRing)
        log c ∧
      LogStep ⟨1, 1024⟩ twoNames c (.drained 1) c' ∧ a ∈ c.attached ∧ a.removeAfterDrain = true ∧
      c'.attached = [] ∧ (tryPop (c'.rings a.ring).ring []).1 ≠ none := by
  obtain ⟨x, y, hr⟩ := represents_filledRing
  obtain ⟨log₁, es, c, c', hrun, -, -, -, hfinish, hattached, hr'⟩ := dead_pass hr
  refine ⟨_, c, c', ⟨twoNames false, false, true⟩, hrun, hfinish, by simp [hattached], rfl, ?_⟩
  obtain ⟨hpop, -⟩ := hr'.pop (.inl (by decide)) rfl []
  cases hfinish with
  | finish =>
    refine ⟨by simp [LogConfig.setCenter, LogConfig.setAttached, hattached], ?_⟩
    intro hnone
    cases hpop.symm.trans hnone

end Shmfx
