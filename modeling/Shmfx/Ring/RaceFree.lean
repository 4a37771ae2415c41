import Shmfx.Ring.ReleaseAcquire

/-! The ring under release and acquire: a slot is handed between its producers and the consumer
with its sequence word, so no access to a record races and pops return what was claimed. -/
namespace Shmfx

open Word Window Lts ViewMemory

universe u

variable {P : Type u} {n m : Nat}

/-- The position whose record the next access of a producer stores to. -/
def PushPc.storing : PushPc → Option Nat
  | .storeLen _ pos | .storeType _ pos | .storeFlags _ pos | .storeUser _ pos | .copy _ pos _ =>
    some pos
  | _ => none

/-- The position whose record the next access of the consumer loads from. -/
def PopPc.loading : PopPc → Option Nat
  | .loadLen _ pos | .copy _ pos _ _ | .loadType _ pos _ | .loadFlags _ pos _ _
  | .loadUser _ pos _ _ _ => some pos
  | _ => none

namespace WeakRing

/-- Some participant's next access to a record is in a race. -/
def Racy (c : WeakRing P) : Prop :=
  (∃ p pos, (c.config.producers p).storing = some pos ∧
    Races c.memory (c.views (some p)) (some p) (c.config.ring.slot pos) true) ∨
  ∃ pos, c.config.consumer.loading = some pos ∧
    Races c.memory (c.views none) none (c.config.ring.slot pos) false

/-- Some participant is at work in slot `i`. -/
def Held (n : Nat) (c : WeakRing P) (i : Nat) : Prop :=
  (∃ p a pos, (c.config.producers p).writing = some (a, pos) ∧ pos % n = i) ∨
    ∃ pos, c.config.consumer.reading = some pos ∧ pos % n = i

/-- The last message of a slot's sequence is in view, and so are all accesses to its record. -/
def Holds (c : WeakRing P) (t : Option P) (i : Nat) : Prop :=
  ∃ time msg, Latest (c.memory.messages (.seq i)) time msg ∧ time ≤ (c.views t).time (.seq i) ∧
    Covers c.memory (c.views t) i

/-- The last message of the sequence has the stored value, and while nobody is at work in the slot
it carries all accesses to the record. -/
def SlotReady (n : Nat) (c : WeakRing P) (i : Nat) : Prop :=
  ∃ time msg, Latest (c.memory.messages (.seq i)) time msg ∧ msg.value = c.config.ring.seq i ∧
    (c.Held n i ∨ Covers c.memory msg.view i)

/-- The producer has loaded the message that frees the slot for `pos`. -/
def Freed (n : Nat) (c : WeakRing P) (p : P) (pos : Nat) : Prop :=
  ∃ time msg, c.memory.messages (.seq (pos % n)) time = some msg ∧ msg.value = pos ∧
    time ≤ (c.views (some p)).time (.seq (pos % n)) ∧
    msg.view.seen (pos % n) ⊆ (c.views (some p)).seen (pos % n)

end WeakRing

structure MemoryInv (n : Nat) (c : WeakRing P) : Prop where
  tail : ∀ t, (c.memory.messages .tail t).map Message.value =
    if t ≤ c.config.ring.tail then some t else none
  head : ∃ t msg, Latest (c.memory.messages .head) t msg ∧ msg.value = c.config.ring.head ∧
    t ≤ (c.views none).time .head
  slots : ∀ i, c.SlotReady n i
  claiming : ∀ p a pos retry, c.config.producers p = .compareExchange a pos retry → c.Freed n p pos
  writing : ∀ p a pos, (c.config.producers p).writing = some (a, pos) → c.Holds (some p) (pos % n)
  reading : ∀ pos, c.config.consumer.reading = some pos → c.Holds none (pos % n)

structure WeakInv (n m : Nat) (log : List (RingEvent P)) (c : WeakRing P) : Prop where
  ring : RingInv n m log c.config
  kept : Kept n log c.config
  memory : MemoryInv n c

section Frame

variable {c c' : WeakRing P} {t : Option P} {p : P} {i pos : Nat}

theorem WeakRing.Holds.frame (h : c.Holds t i)
    (hmsgs : c'.memory.messages (.seq i) = c.memory.messages (.seq i))
    (htouched : c'.memory.touched i = c.memory.touched i) (hview : (c.views t).Le (c'.views t)) :
    c'.Holds t i := by
  obtain ⟨time, msg, hlast, htime, hcovers⟩ := h
  exact ⟨time, msg, hmsgs ▸ hlast, htime.trans (hview.time _), hcovers.mono htouched (hview.seen _)⟩

theorem WeakRing.SlotReady.frame (h : c.SlotReady n i)
    (hmsgs : c'.memory.messages (.seq i) = c.memory.messages (.seq i))
    (htouched : c'.memory.touched i = c.memory.touched i)
    (hseq : c'.config.ring.seq i = c.config.ring.seq i) (hheld : c.Held n i → c'.Held n i) :
    c'.SlotReady n i := by
  obtain ⟨time, msg, hlast, hvalue, hready⟩ := h
  refine ⟨time, msg, hmsgs ▸ hlast, hvalue.trans hseq.symm, ?_⟩
  exact hready.imp hheld fun hcovers => hcovers.mono htouched subset_rfl

theorem WeakRing.Freed.frame (h : c.Freed n p pos)
    (hmsgs : ∀ t msg, c.memory.messages (.seq (pos % n)) t = some msg →
      c'.memory.messages (.seq (pos % n)) t = some msg)
    (hview : (c.views (some p)).Le (c'.views (some p))) : c'.Freed n p pos := by
  obtain ⟨time, msg, hmsg, hvalue, htime, hseen⟩ := h
  exact ⟨time, msg, hmsgs _ _ hmsg, hvalue, htime.trans (hview.time _), hseen.trans (hview.seen _)⟩

/-- A step changes at most one slot, its messages stay, and views only grow. -/
theorem MemoryInv.frame (h : MemoryInv n c) (s : Option Nat)
    (hviews : ∀ t, (c.views t).Le (c'.views t))
    (htail : ∀ t, (c'.memory.messages .tail t).map Message.value =
      if t ≤ c'.config.ring.tail then some t else none)
    (hhead : ∃ t msg, Latest (c'.memory.messages .head) t msg ∧
      msg.value = c'.config.ring.head ∧ t ≤ (c'.views none).time .head)
    (hmsgs : ∀ i t msg, c.memory.messages (.seq i) t = some msg →
      c'.memory.messages (.seq i) t = some msg)
    (hkeep : ∀ i, some i ≠ s → c'.memory.messages (.seq i) = c.memory.messages (.seq i) ∧
      c'.memory.touched i = c.memory.touched i ∧ c'.config.ring.seq i = c.config.ring.seq i ∧
      (c.Held n i → c'.Held n i))
    (hslot : ∀ i, some i = s → c'.SlotReady n i)
    (hclaiming : ∀ p a pos retry, c'.config.producers p = .compareExchange a pos retry →
      c.config.producers p = .compareExchange a pos retry ∨ c'.Freed n p pos)
    (hwriting : ∀ p a pos, (c'.config.producers p).writing = some (a, pos) →
      (c.config.producers p).writing = some (a, pos) ∧ some (pos % n) ≠ s ∨
        c'.Holds (some p) (pos % n))
    (hreading : ∀ pos, c'.config.consumer.reading = some pos →
      c.config.consumer.reading = some pos ∧ some (pos % n) ≠ s ∨ c'.Holds none (pos % n)) :
    MemoryInv n c' where
  tail := htail
  head := hhead
  slots i := by
    by_cases hs : some i = s
    · exact hslot i hs
    · obtain ⟨hmsgs, htouched, hseq, hheld⟩ := hkeep i hs
      exact (h.slots i).frame hmsgs htouched hseq hheld
  claiming p a pos retry hpc := by
    rcases hclaiming p a pos retry hpc with hpc | hfreed
    · exact (h.claiming p a pos retry hpc).frame (hmsgs _) (hviews _)
    · exact hfreed
  writing p a pos hw := by
    rcases hwriting p a pos hw with ⟨hw, hs⟩ | hholds
    · obtain ⟨hmsgs, htouched, -⟩ := hkeep _ hs
      exact (h.writing p a pos hw).frame hmsgs htouched (hviews _)
    · exact hholds
  reading pos hr := by
    rcases hreading pos hr with ⟨hr, hs⟩ | hholds
    · obtain ⟨hmsgs, htouched, -⟩ := hkeep _ hs
      exact (h.reading pos hr).frame hmsgs htouched (hviews _)
    · exact hholds

end Frame

section Positions

variable {log : List (RingEvent P)} {c : RingConfig P}

theorem RingInv.seq_lt (h : RingInv n m log c) (hlt : c.ring.tail + n ≤ 2 ^ 64) {i : Nat}
    (hi : i < n) : c.ring.seq i < 2 ^ 64 := by
  obtain ⟨pos, hin, rfl⟩ := exists_mod_eq h.capacity_pos c.released i hi
  have hpos := hin.2
  have hrel := h.released_le
  rcases h.slots pos hin with hseq | ⟨hclaimed, hseq, -⟩ <;> omega

/-- The slot of the next position is free for it while there is room. -/
theorem RingInv.seq_tail (h : RingInv n m log c) (hroom : c.ring.tail < c.released + n) :
    c.ring.seq (c.ring.tail % n) = c.ring.tail := by
  rcases h.slots _ ⟨h.released_le, hroom⟩ with hseq | ⟨hlt, -⟩
  · exact hseq
  · exact absurd hlt (lt_irrefl _)

/-- No sequence has reached the tail while the ring is full. -/
theorem RingInv.room_of_seq (hn : 2 ≤ n) (h : RingInv n m log c)
    (hseq : c.ring.tail ≤ c.ring.seq (c.ring.tail % n)) : c.ring.tail < c.released + n := by
  by_contra hge
  have hfull : c.ring.tail = c.released + n := le_antisymm h.tail_le (Nat.not_lt.mp hge)
  rcases h.seq_tail_of_full hfull with hs | hs <;> omega

theorem producerFacts_loopHead_le {cl : List (Claimed P)} {rel v : Nat} {r : Ring} {p : P}
    (hv : v ≤ r.tail) (a : Push) (retry : Nat) :
    ProducerFacts n m cl rel r p (loopHead a v retry) := by
  unfold loopHead
  split
  · refine .of_not_writing rfl ?_ (by simp)
    intro pos hs
    simp only [PushPc.snapshot, Option.some.injEq] at hs
    omega
  · exact .of_not_writing rfl (by simp [PushPc.snapshot]) (by simp)

/-- The slot of the tail is nobody's while there is room. -/
theorem WeakInv.not_held_tail {c : WeakRing P} (h : WeakInv n m log c)
    (hroom : c.config.ring.tail < c.config.released + n) :
    ¬ c.Held n (c.config.ring.tail % n) := by
  have hin : In n c.config.released c.config.ring.tail := ⟨h.ring.released_le, hroom⟩
  rintro (⟨p, a, pos, hw, hslot⟩ | ⟨pos, hr, hslot⟩)
  · obtain ⟨howns, -⟩ := (h.ring.producers p).writing a pos hw
    have hpos := howns.inWindow.eq_of_mod_eq hin hslot
    exact hpos.not_lt howns.claimed
  · have hpos := (h.ring.reading_inWindow hr).eq_of_mod_eq hin hslot
    exact hpos.not_lt (h.ring.consumer.reading pos hr).2.1

/-- A position that can be claimed has its slot's last message in the claimer's view. -/
theorem WeakInv.holds_claimed {c : WeakRing P} {p : P} (h : WeakInv n m log c)
    (hroom : c.config.ring.tail < c.config.released + n)
    (hfreed : c.Freed n p c.config.ring.tail) :
    c.Holds (some p) (c.config.ring.tail % n) := by
  obtain ⟨time, msg, hmsg, hvalue, htime, hseen⟩ := hfreed
  obtain ⟨time', msg', hlast, hvalue', hready⟩ := h.memory.slots (c.config.ring.tail % n)
  rw [h.ring.seq_tail hroom] at hvalue'
  obtain ⟨rfl, rfl⟩ := hlast.eq_of_value hmsg (by omega)
  exact ⟨time, msg, hlast, htime,
    (hready.resolve_left (h.not_held_tail hroom)).mono rfl hseen⟩

end Positions

section HandOver

variable {c c' : WeakRing P} {t : Option P} {i v : Nat} {V : RingView} {mem : RingMemory P}

/-- Who stores a greater sequence number into a slot it holds leaves it with a message that carries
all accesses to the record. -/
theorem slotReady_stored (hholds : c.Holds t i) (hready : c.SlotReady n i)
    (hs : Stores c.memory .release (c.views t) (.seq i) v mem V) (hlt : c.config.ring.seq i < v)
    (hmem : c'.memory = mem) (hv : c'.config.ring.seq i = v) : c'.SlotReady n i := by
  subst hmem
  obtain ⟨time, msg, hlast, htime, hcovers⟩ := hholds
  obtain ⟨time', msg', hlast', hvalue, -⟩ := hready
  obtain ⟨rfl, rfl⟩ := hlast.unique hlast'
  obtain ⟨time', msg', hlast', hvalue', -, hview⟩ := hs.latest hlast htime (by omega)
  refine ⟨time', msg', hlast', hvalue'.trans hv.symm, .inr ?_⟩
  rw [hview rfl]
  exact hcovers.mono (congrFun hs.frame.1 i) (hs.le.seen i)

end HandOver

section Producer

variable [DecidableEq P] {log : List (RingEvent P)} {c : WeakRing P} {p q : P} {r : Ring}
  {mem : RingMemory P} {V : RingView} {pc : PushPc} {a : Push} {pos i : Nat}

theorem views_afterPush : (c.afterPush p r mem V pc).views (some p) = V := Function.update_self ..

theorem producers_afterPush : (c.afterPush p r mem V pc).config.producers p = pc :=
  Function.update_self ..

theorem producers_afterPush_of_ne (hq : q ≠ p) :
    (c.afterPush p r mem V pc).config.producers q = c.config.producers q :=
  Function.update_of_ne hq ..

theorem le_views_afterPush (hV : (c.views (some p)).Le V) (t : Option P) :
    (c.views t).Le ((c.afterPush p r mem V pc).views t) := by
  by_cases ht : t = some p
  · rw [ht, views_afterPush]
    exact hV
  · rw [show (c.afterPush p r mem V pc).views t = c.views t from Function.update_of_ne ht ..]
    exact .refl _

/-- A producer's step that changes no slot but `s`, at which nobody else is at work. -/
theorem MemoryInv.push (h : MemoryInv n c) (s : Option Nat) (hV : (c.views (some p)).Le V)
    (htail : ∀ t, (mem.messages .tail t).map Message.value =
      if t ≤ r.tail then some t else none)
    (hhead : mem.messages .head = c.memory.messages .head ∧ r.head = c.config.ring.head)
    (hmsgs : ∀ i t msg, c.memory.messages (.seq i) t = some msg →
      mem.messages (.seq i) t = some msg)
    (hkeep : ∀ i, some i ≠ s → mem.messages (.seq i) = c.memory.messages (.seq i) ∧
      mem.touched i = c.memory.touched i ∧ r.seq i = c.config.ring.seq i)
    (hstay : ∀ a pos, (c.config.producers p).writing = some (a, pos) → some (pos % n) ≠ s →
      pc.writing = some (a, pos))
    (hproducers : ∀ q a pos, q ≠ p → (c.config.producers q).writing = some (a, pos) →
      some (pos % n) ≠ s)
    (hconsumer : ∀ pos, c.config.consumer.reading = some pos → some (pos % n) ≠ s)
    (hslot : ∀ i, some i = s → (c.afterPush p r mem V pc).SlotReady n i)
    (hclaiming : ∀ a pos retry, pc = .compareExchange a pos retry →
      (c.afterPush p r mem V pc).Freed n p pos)
    (hwriting : ∀ a pos, pc.writing = some (a, pos) →
      (c.afterPush p r mem V pc).Holds (some p) (pos % n)) :
    MemoryInv n (c.afterPush p r mem V pc) := by
  have hviews : ∀ t, (c.views t).Le ((c.afterPush p r mem V pc).views t) := le_views_afterPush hV
  refine h.frame s hviews htail ?_ hmsgs ?_ hslot ?_ ?_ ?_
  · obtain ⟨t, msg, hlast, hvalue, ht⟩ := h.head
    exact ⟨t, msg, hhead.1.symm ▸ hlast, hvalue.trans hhead.2.symm, ht.trans ((hviews none).time _)⟩
  · intro i hi
    obtain ⟨hm, ht, hs⟩ := hkeep i hi
    refine ⟨hm, ht, hs, ?_⟩
    rintro (⟨q, a, pos, hq, rfl⟩ | hr)
    · refine .inl ⟨q, a, pos, ?_, rfl⟩
      by_cases hqp : q = p
      · subst hqp
        rw [producers_afterPush]
        exact hstay a pos hq hi
      · rw [producers_afterPush_of_ne hqp]
        exact hq
    · exact .inr hr
  · intro q a pos retry hq
    by_cases hqp : q = p
    · subst hqp
      rw [producers_afterPush] at hq
      exact .inr (hclaiming a pos retry hq)
    · rw [producers_afterPush_of_ne hqp] at hq
      exact .inl hq
  · intro q a pos hq
    by_cases hqp : q = p
    · subst hqp
      rw [producers_afterPush] at hq
      exact .inr (hwriting a pos hq)
    · rw [producers_afterPush_of_ne hqp] at hq
      exact .inl ⟨hq, hproducers q a pos hqp hq⟩
  · intro pos hr
    exact .inl ⟨hr, hconsumer pos hr⟩

/-- Steps that touch neither cursors nor slots. -/
theorem MemoryInv.push_quiet (h : MemoryInv n c) (hV : (c.views (some p)).Le V)
    (hmem : ∀ l, l ≠ .lost → mem.messages l = c.memory.messages l)
    (htouched : mem.touched = c.memory.touched) (htail : r.tail = c.config.ring.tail)
    (hhead : r.head = c.config.ring.head) (hseq : r.seq = c.config.ring.seq)
    (hw : pc.writing = (c.config.producers p).writing)
    (hclaiming : ∀ a pos retry, pc = .compareExchange a pos retry →
      (c.afterPush p r mem V pc).Freed n p pos) :
    MemoryInv n (c.afterPush p r mem V pc) := by
  have hseqs : ∀ i, mem.messages (.seq i) = c.memory.messages (.seq i) := by
    intro i
    exact hmem _ (by rintro ⟨⟩)
  have htails := hmem .tail (by rintro ⟨⟩)
  have hheads := hmem .head (by rintro ⟨⟩)
  refine h.push none hV ?_ ⟨hheads, hhead⟩ ?_ ?_ ?_ ?_ ?_ ?_ hclaiming ?_
  · rw [htails, htail]
    exact h.tail
  · intro i t msg hmsg
    rw [hseqs]
    exact hmsg
  · intro i _
    exact ⟨hseqs i, by rw [htouched], by rw [hseq]⟩
  · intro a pos hpos _
    exact hw.trans hpos
  · rintro q a pos _ _ ⟨⟩
  · rintro pos _ ⟨⟩
  · rintro i ⟨⟩
  · intro a pos hpos
    rw [hw] at hpos
    refine (h.writing p a pos hpos).frame (hseqs _) (congrFun htouched _) ?_
    rw [views_afterPush]
    exact hV

omit [DecidableEq P] in
/-- The CAS reads the last message of the tail, since every earlier one is followed by another. -/
theorem MemoryInv.tail_of_updates {new : Nat} {V V' : RingView} {mem' : RingMemory P}
    (h : MemoryInv n c) (hu : Updates c.memory .acqRel V .tail new pos mem' V') :
    pos = c.config.ring.tail ∧ ∃ msg, msg.value = new ∧
      mem' = c.memory.put .tail (c.config.ring.tail + 1) msg := by
  obtain ⟨hmsg, -, hfree⟩ := hu
  rename_i t msg
  have ht := h.tail t
  have hnext := h.tail (t + 1)
  rw [hmsg, Option.map_some] at ht
  rw [hfree, Option.map_none] at hnext
  split_ifs at ht hnext with hle hlt
  obtain rfl : t = c.config.ring.tail := by omega
  exact ⟨Option.some.inj ht, _, rfl, rfl⟩

theorem WeakInv.push_claim {retry : Nat} {V' : RingView} {mem' : RingMemory P}
    (h : WeakInv n m log c) (hpc : c.config.producers p = .compareExchange a pos retry)
    (hu : Updates c.memory .acqRel (c.views (some p)) .tail (u64 (pos + 1)) pos mem' V')
    (hlt : c.config.ring.tail + 1 < 2 ^ 64) :
    MemoryInv n (c.afterPush p (c.config.ring.setTail (u64 (pos + 1))) mem' V'
      (.storeLen a pos)) := by
  obtain ⟨rfl, msg, hvalue, rfl⟩ := h.memory.tail_of_updates hu
  have hroom := (h.ring.producers p).room _ _ _ hpc rfl
  have hholds := h.holds_claimed hroom (h.memory.claiming p _ _ _ hpc)
  have hseq : ∀ i, (c.memory.put .tail (c.config.ring.tail + 1) msg).messages (.seq i) =
      c.memory.messages (.seq i) := by
    intro i
    exact messages_put_of_ne (by rintro ⟨⟩)
  rw [u64_of_lt hlt] at hvalue ⊢
  have hhead : (c.memory.put .tail (c.config.ring.tail + 1) msg).messages .head =
      c.memory.messages .head := messages_put_of_ne (by rintro ⟨⟩)
  refine h.memory.push none hu.le ?_ ⟨hhead, rfl⟩ ?_ ?_ ?_ ?_ ?_ ?_ ?_ ?_
  · intro t
    rw [messages_put_self, Ring.setTail_tail]
    by_cases ht : t = c.config.ring.tail + 1
    · rw [ht, Function.update_self, Option.map_some, hvalue, if_pos le_rfl]
    · rw [Function.update_of_ne ht, h.memory.tail]
      exact if_congr (by omega) rfl rfl
  · intro i t msg' hmsg
    rw [hseq]
    exact hmsg
  · intro i _
    exact ⟨hseq i, rfl, rfl⟩
  · intro a' pos' hw
    rw [hpc] at hw
    cases hw
  · rintro q a' pos' _ _ ⟨⟩
  · rintro pos' _ ⟨⟩
  · rintro i ⟨⟩
  · rintro a' pos' retry' ⟨⟩
  · rintro a' pos' ⟨⟩
    refine hholds.frame (hseq _) rfl ?_
    rw [views_afterPush]
    exact hu.le

/-- A store into the record of the claimed slot. -/
theorem WeakInv.push_store (h : WeakInv n m log c)
    (hw : (c.config.producers p).writing = some (a, pos)) (hw' : pc.writing = some (a, pos))
    (htail : r.tail = c.config.ring.tail) (hhead : r.head = c.config.ring.head)
    (hseq : r.seq = c.config.ring.seq) :
    MemoryInv n (c.afterPush p r (c.memory.touch (some p) (pos % n) true)
      (c.memory.mark (c.views (some p)) (pos % n)) pc) := by
  obtain ⟨howns, -⟩ := (h.ring.producers p).writing a pos hw
  obtain ⟨time, msg, hlast, htime, hcovers⟩ := h.memory.writing p a pos hw
  refine h.memory.push (some (pos % n)) (View.le_mark ..) ?_ ⟨rfl, hhead⟩ (fun _ _ _ => id) ?_ ?_ ?_
    ?_ ?_ ?_ ?_
  · rw [htail]
    exact h.memory.tail
  · intro i hi
    refine ⟨rfl, ?_, by rw [hseq]⟩
    exact Function.update_of_ne (fun he => hi (congrArg some he)) ..
  · intro a' pos' hpos hne
    rw [hw] at hpos
    cases hpos
    exact absurd rfl hne
  · intro q a' pos' hq hpos he
    exact ((h.ring.producers q).writing a' pos' hpos).1.slot_ne howns hq (Option.some.inj he)
  · intro pos' hr he
    refine howns.slot_ne_head (h.ring.reading_inWindow hr) ?_ (Option.some.inj he).symm
    exact (h.ring.consumer.reading pos' hr).2.2.1
  · rintro i ⟨⟩
    obtain ⟨time', msg', hlast', hvalue, -⟩ := h.memory.slots (pos % n)
    have hheld : ((c.afterPush p r (c.memory.touch (some p) (pos % n) true)
        (c.memory.mark (c.views (some p)) (pos % n)) pc).config.producers p).writing =
        some (a, pos) := by
      rw [producers_afterPush]
      exact hw'
    exact ⟨time', msg', hlast', hvalue.trans (congrFun hseq _).symm,
      .inl (.inl ⟨p, a, pos, hheld, rfl⟩)⟩
  · rintro a' pos' retry rfl
    cases hw'
  · intro a' pos' hpos
    rw [hw'] at hpos
    cases hpos
    refine ⟨time, msg, hlast, ?_, ?_⟩
    · rw [views_afterPush]
      exact htime
    · rw [views_afterPush]
      exact hcovers.touch _ _

/-- Publishing hands the slot over with everything that was done to its record. -/
theorem WeakInv.push_publish {V' : RingView} {mem' : RingMemory P} (h : WeakInv n m log c)
    (hpc : c.config.producers p = .publish a pos)
    (hs : Stores c.memory .release (c.views (some p)) (.seq (pos % n)) (pos + 1) mem' V') :
    MemoryInv n (c.afterPush p (c.config.ring.setSeq (pos % n) (pos + 1)) mem' V' .idle) := by
  have hw : (c.config.producers p).writing = some (a, pos) := by rw [hpc]; rfl
  obtain ⟨howns, -⟩ := (h.ring.producers p).writing a pos hw
  obtain ⟨htouched, hother, hmsgs⟩ := hs.frame
  refine h.memory.push (some (pos % n)) hs.le ?_ ⟨hother _ (by rintro ⟨⟩), rfl⟩ (fun _ => hmsgs _)
    ?_ ?_ ?_ ?_ ?_ ?_ ?_
  · rw [hother _ (by rintro ⟨⟩)]
    exact h.memory.tail
  · intro i hi
    have hne : i ≠ pos % n := fun he => hi (congrArg some he)
    refine ⟨hother _ ?_, by rw [htouched], ?_⟩
    · rintro ⟨⟩
      exact hne rfl
    · rw [Ring.setSeq_seq, Function.update_of_ne hne]
  · intro a' pos' hpos hne
    rw [hw] at hpos
    cases hpos
    exact absurd rfl hne
  · intro q a' pos' hq hpos he
    exact ((h.ring.producers q).writing a' pos' hpos).1.slot_ne howns hq (Option.some.inj he)
  · intro pos' hr he
    refine howns.slot_ne_head (h.ring.reading_inWindow hr) ?_ (Option.some.inj he).symm
    exact (h.ring.consumer.reading pos' hr).2.2.1
  · rintro i ⟨⟩
    refine slotReady_stored (h.memory.writing p a pos hw) (h.memory.slots _) hs ?_ rfl ?_
    · rw [howns.seq]
      exact Nat.lt_succ_self pos
    · exact Function.update_self ..
  · rintro a' pos' retry ⟨⟩
  · rintro a' pos' ⟨⟩

omit [DecidableEq P] in
theorem MemoryInv.loads_tail {v : Nat} {o : MemoryOrder} {V V' : RingView} (h : MemoryInv n c)
    (hl : Loads c.memory o V .tail v V') : v ≤ c.config.ring.tail := by
  obtain ⟨hmsg, -⟩ := hl
  rename_i t msg
  have ht := h.tail t
  rw [hmsg, Option.map_some] at ht
  split_ifs at ht with hle
  exact (Option.some.inj ht).le.trans hle

omit [DecidableEq P] in
/-- A loaded sequence number has been the slot's, so it is not greater than the one stored now. -/
theorem MemoryInv.loads_seq {v : Nat} {o : MemoryOrder} {V V' : RingView} (h : MemoryInv n c)
    (hl : Loads c.memory o V (.seq i) v V') : v ≤ c.config.ring.seq i := by
  obtain ⟨hmsg, -⟩ := hl
  obtain ⟨_, _, hlast, hvalue, -⟩ := h.slots i
  exact (hlast.value_le hmsg).trans hvalue.le

theorem loopHead_ne_compareExchange (a : Push) (v retry : Nat) (a' : Push) (pos retry' : Nat) :
    loopHead a v retry ≠ .compareExchange a' pos retry' := by
  unfold loopHead
  split <;> rintro ⟨⟩

/-- A step that makes no claim, stores no sequence number and keeps what is being written. -/
theorem Kept.push_read {d : RingConfig P} {e : PushEvent} (hk : Kept n log d)
    (hc : claims [RingEvent.push p e] = []) (hw : pc.writing = (d.producers p).writing) :
    Kept n (log ++ [.push p e]) ⟨d.ring, Function.update d.producers p pc, d.consumer⟩ := by
  intro k x hx hrel hseq
  rw [claims_append, hc, List.append_nil] at hx
  have hwriting := hk k x hx hrel hseq
  by_cases hxp : x.producer = p
  · rw [hxp] at hwriting ⊢
    simpa [hw] using hwriting
  · simpa [Function.update_of_ne hxp] using hwriting

/-- One access of `try_push`, by the program point it is made from. -/
theorem weakInv_pushStep {e : PushEvent} (hn : 2 ≤ n) (h : WeakInv n m log c)
    (hs : WeakPushStep p c.config.ring c.memory (c.views (some p)) (c.config.producers p) e r mem V
      pc) (hlt : c.config.ring.tail + n ≤ 2 ^ 64) :
    WeakInv n m (log ++ [.push p e]) (c.afterPush p r mem V pc) := by
  have hslot : ∀ pos, c.config.ring.slot pos = pos % n := fun pos => by
    rw [Ring.slot, h.ring.recordMax]
  -- steps that the ring takes with the same result under any memory
  have hsame : ∀ {e : PushEvent} {r : Ring} {mem : RingMemory P} {V : RingView} {pc : PushPc},
      PushStep c.config.ring (c.config.producers p) e r pc →
      MemoryInv n (c.afterPush p r mem V pc) →
      WeakInv n m (log ++ [.push p e]) (c.afterPush p r mem V pc) :=
    fun hs hm => ⟨ringInv_pushStep hn h.ring hs hlt, kept_pushStep h.ring h.kept hs (by omega), hm⟩
  -- loads, which may return a stale value
  have hread : ∀ {e : PushEvent} {V : RingView} {pc : PushPc}, claims [RingEvent.push p e] = [] →
      pc.writing = (c.config.producers p).writing →
      ProducerFacts n m (claims log) c.config.released c.config.ring p pc →
      MemoryInv n (c.afterPush p c.config.ring c.memory V pc) →
      WeakInv n m (log ++ [.push p e]) (c.afterPush p c.config.ring c.memory V pc) :=
    fun hc hw hfacts hm => ⟨h.ring.producer_read h.ring.valid h.ring.recordMax h.ring.maxPayload rfl
      rfl rfl rfl hc hfacts, h.kept.push_read hc hw, hm⟩
  have hquiet : ∀ {V : RingView} {pc : PushPc}, (c.views (some p)).Le V →
      pc.writing = (c.config.producers p).writing →
      (∀ a pos retry, pc ≠ .compareExchange a pos retry) →
      MemoryInv n (c.afterPush p c.config.ring c.memory V pc) := by
    intro V pc hV hw hne
    exact h.memory.push_quiet hV (fun _ _ => rfl) rfl rfl rfl rfl hw
      fun a pos retry hpc => absurd hpc (hne a pos retry)
  have hfacts := h.ring.producers p
  generalize hpc : c.config.producers p = pc₀ at hs hsame hread hquiet hfacts
  cases hs with
  | call a => exact hsame (.call a) (hquiet (.refl _) rfl (by rintro _ _ _ ⟨⟩))
  | enter hv => exact hsame (.enter hv) (hquiet (.refl _) rfl (by rintro _ _ _ ⟨⟩))
  | reject hv => exact hsame (.reject hv) (hquiet (.refl _) rfl (by rintro _ _ _ ⟨⟩))
  | loadTail hl | casFail hl | reloadTail hl =>
    refine hread rfl (loopHead_writing ..)
      (producerFacts_loopHead_le (h.memory.loads_tail hl) _ _) ?_
    exact hquiet hl.le (loopHead_writing ..) (loopHead_ne_compareExchange _ _ _)
  | @seqFree a pos retry v _ hl hd =>
    have hpos := hfacts.snapshot pos rfl
    rw [hslot] at hl
    have hseq := h.memory.loads_seq hl
    have hbound := h.ring.seq_lt hlt (Nat.mod_lt pos h.ring.capacity_pos)
    obtain rfl : v = pos := (diff64_eq_zero (by omega) (by omega)).mp hd
    refine hread rfl rfl (.of_not_writing rfl (by simpa [PushPc.snapshot] using hpos) ?_) ?_
    · rintro _ _ _ ⟨rfl, rfl, rfl⟩ rfl
      exact h.ring.room_of_seq hn hseq
    · refine h.memory.push_quiet hl.le (fun _ _ => rfl) rfl rfl rfl rfl (by rw [hpc]; rfl) ?_
      rintro _ _ _ ⟨rfl, rfl, rfl⟩
      obtain ⟨time, msg, hmsg, hvalue, htime, hview⟩ := hl.acquired rfl
      refine ⟨time, msg, hmsg, hvalue, ?_, ?_⟩ <;> rw [views_afterPush]
      · exact htime
      · exact hview.seen _
  | seqFull hl hd | seqAhead hl hd =>
    refine hread rfl rfl (.of_not_writing rfl (by simp [PushPc.snapshot]) (by simp)) ?_
    exact hquiet hl.le rfl (by rintro _ _ _ ⟨⟩)
  | claim hu =>
    obtain ⟨hpos, -⟩ := h.memory.tail_of_updates hu
    exact hsame (.claim hpos.symm) (h.push_claim hpc hu (by omega))
  | addLost hu =>
    refine hsame .addLost (h.memory.push_quiet hu.le ?_ ?_ rfl rfl rfl (by rw [hpc]; rfl) ?_)
    · obtain ⟨_, _, _⟩ := hu
      exact fun l hl => messages_put_of_ne hl
    · obtain ⟨_, _, _⟩ := hu
      rfl
    · rintro _ _ _ ⟨⟩
  | storeLen | storeType | storeFlags | storeUser =>
    refine hsame (by constructor) ?_
    rw [hslot]
    exact h.push_store (by rw [hpc]; rfl) rfl rfl rfl rfl
  | copyByte hj =>
    refine hsame (.copyByte hj) ?_
    rw [hslot]
    exact h.push_store (by rw [hpc]; rfl) rfl rfl rfl rfl
  | copyDone => exact hsame .copyDone (hquiet (.refl _) rfl (by rintro _ _ _ ⟨⟩))
  | @publish a pos _ _ hstore =>
    have hclaimed := (hfacts.writing a pos rfl).1.claimed
    refine hsame .publish ?_
    rw [hslot, u64_of_lt (by omega)] at hstore ⊢
    exact h.push_publish hpc hstore

end Producer

section Consumer

variable [DecidableEq P] {log : List (RingEvent P)} {c : WeakRing P} {r : Ring}
  {mem : RingMemory P} {V : RingView} {pc : PopPc} {pos i : Nat}

theorem views_afterPop : (c.afterPop r mem V pc).views none = V := by
  simp [WeakRing.afterPop]

theorem le_views_afterPop (hV : (c.views none).Le V) (t : Option P) :
    (c.views t).Le ((c.afterPop r mem V pc).views t) := by
  cases t with
  | none =>
    rw [views_afterPop]
    exact hV
  | some p =>
    have hsame : (c.afterPop r mem V pc).views (some p) = c.views (some p) :=
      Function.update_of_ne (Option.some_ne_none p) V c.views
    rw [hsame]
    exact .refl _

/-- A step of the consumer that changes no slot but `s`, which no producer is writing. -/
theorem MemoryInv.pop (h : MemoryInv n c) (s : Option Nat) (hV : (c.views none).Le V)
    (htail : mem.messages .tail = c.memory.messages .tail ∧ r.tail = c.config.ring.tail)
    (hhead : ∃ t msg, Latest (mem.messages .head) t msg ∧ msg.value = r.head ∧ t ≤ V.time .head)
    (hmsgs : ∀ i t msg, c.memory.messages (.seq i) t = some msg →
      mem.messages (.seq i) t = some msg)
    (hkeep : ∀ i, some i ≠ s → mem.messages (.seq i) = c.memory.messages (.seq i) ∧
      mem.touched i = c.memory.touched i ∧ r.seq i = c.config.ring.seq i)
    (hstay : ∀ pos, c.config.consumer.reading = some pos → some (pos % n) ≠ s →
      pc.reading = some pos)
    (hproducers : ∀ p a pos, (c.config.producers p).writing = some (a, pos) → some (pos % n) ≠ s)
    (hslot : ∀ i, some i = s → (c.afterPop r mem V pc).SlotReady n i)
    (hreading : ∀ pos, pc.reading = some pos → (c.afterPop r mem V pc).Holds none (pos % n)) :
    MemoryInv n (c.afterPop r mem V pc) := by
  refine h.frame s (le_views_afterPop hV) ?_ ?_ hmsgs ?_ hslot ?_ ?_ ?_
  · intro t
    have ht := h.tail t
    rw [← htail.1, ← htail.2] at ht
    exact ht
  · obtain ⟨t, msg, hlast, hvalue, ht⟩ := hhead
    refine ⟨t, msg, hlast, hvalue, ?_⟩
    rw [views_afterPop]
    exact ht
  · intro i hi
    obtain ⟨hm, ht, hs⟩ := hkeep i hi
    refine ⟨hm, ht, hs, ?_⟩
    rintro (hw | ⟨pos, hr, rfl⟩)
    · exact .inl hw
    · exact .inr ⟨pos, hstay pos hr hi, rfl⟩
  · intro p a pos retry hp
    exact .inl hp
  · intro p a pos hw
    exact .inl ⟨hw, hproducers p a pos hw⟩
  · intro pos hr
    exact .inr (hreading pos hr)

/-- Steps that change neither the memory nor which slot is read. -/
theorem MemoryInv.pop_quiet (h : MemoryInv n c) (hV : (c.views none).Le V)
    (hr : ∀ pos, c.config.consumer.reading = some pos → pc.reading = some pos)
    (hreading : ∀ pos, pc.reading = some pos →
      (c.afterPop c.config.ring c.memory V pc).Holds none (pos % n)) :
    MemoryInv n (c.afterPop c.config.ring c.memory V pc) := by
  refine h.pop none hV ⟨rfl, rfl⟩ ?_ (fun _ _ _ => id) (fun _ _ => ⟨rfl, rfl, rfl⟩)
    (fun pos hpos _ => hr pos hpos) ?_ ?_ hreading
  · obtain ⟨t, msg, hlast, hvalue, ht⟩ := h.head
    exact ⟨t, msg, hlast, hvalue, ht.trans (hV.time _)⟩
  · rintro p a pos _ ⟨⟩
  · rintro i ⟨⟩

omit [DecidableEq P] in
/-- No producer writes the slot that is read. -/
theorem WeakInv.not_writing_read (h : WeakInv n m log c)
    (hr : c.config.consumer.reading = some pos) {p : P} {a : Push} {pos' : Nat}
    (hw : (c.config.producers p).writing = some (a, pos')) : some (pos' % n) ≠ some (pos % n) := by
  intro he
  refine ((h.ring.producers p).writing a pos' hw).1.slot_ne_head (h.ring.reading_inWindow hr) ?_
    (Option.some.inj he)
  exact (h.ring.consumer.reading pos hr).2.2.1

/-- A load from the record of the slot that is read. -/
theorem WeakInv.pop_read (h : WeakInv n m log c) (hr : c.config.consumer.reading = some pos)
    (hr' : pc.reading = some pos) :
    MemoryInv n (c.afterPop c.config.ring (c.memory.touch none (pos % n) false)
      (c.memory.mark (c.views none) (pos % n)) pc) := by
  obtain ⟨time, msg, hlast, htime, hcovers⟩ := h.memory.reading pos hr
  refine h.memory.pop (some (pos % n)) (View.le_mark ..) ⟨rfl, rfl⟩ h.memory.head (fun _ _ _ => id)
    ?_ ?_ (fun _ _ _ => h.not_writing_read hr) ?_ ?_
  · intro i hi
    exact ⟨rfl, Function.update_of_ne (fun he => hi (congrArg some he)) .., rfl⟩
  · intro pos' hpos _
    exact hr'.trans (hr.symm.trans hpos)
  · rintro i ⟨⟩
    obtain ⟨time', msg', hlast', hvalue, -⟩ := h.memory.slots (pos % n)
    exact ⟨time', msg', hlast', hvalue, .inl (.inr ⟨pos, hr', rfl⟩)⟩
  · intro pos' hpos
    obtain rfl : pos = pos' := by simpa [hr'] using hpos
    refine ⟨time, msg, hlast, ?_, ?_⟩ <;> rw [views_afterPop]
    · exact htime
    · exact hcovers.touch _ _

/-- Releasing the slot hands it back with everything that was read of its record. -/
theorem WeakInv.pop_releaseSlot {V' : RingView} {mem' : RingMemory P} {out : List UInt8}
    {popped : PoppedRecord} (hn : 2 ≤ n) (h : WeakInv n m log c)
    (hpc : c.config.consumer = .releaseSlot out pos popped)
    (hs : Stores c.memory .release (c.views none) (.seq (pos % n)) (pos + n) mem' V') :
    MemoryInv n (c.afterPop (c.config.ring.setSeq (pos % n) (pos + n)) mem' V'
      (.releaseHead out pos popped)) := by
  have hr : c.config.consumer.reading = some pos := by rw [hpc]; rfl
  obtain ⟨htouched, hother, hmsgs⟩ := hs.frame
  refine h.memory.pop (some (pos % n)) hs.le ⟨hother _ (by rintro ⟨⟩), rfl⟩ ?_ (fun _ => hmsgs _)
    ?_ ?_ (fun _ _ _ => h.not_writing_read hr) ?_ ?_
  · obtain ⟨t, msg, hlast, hvalue, ht⟩ := h.memory.head
    rw [hother _ (by rintro ⟨⟩)]
    exact ⟨t, msg, hlast, hvalue, ht.trans (hs.le.time _)⟩
  · intro i hi
    have hne : i ≠ pos % n := fun he => hi (congrArg some he)
    refine ⟨hother _ ?_, by rw [htouched], ?_⟩
    · rintro ⟨⟩
      exact hne rfl
    · rw [Ring.setSeq_seq, Function.update_of_ne hne]
  · intro pos' hpos hne
    rw [hr] at hpos
    cases hpos
    exact absurd rfl hne
  · rintro i ⟨⟩
    refine slotReady_stored (h.memory.reading pos hr) (h.memory.slots _) hs ?_ rfl ?_
    · have hseq := (h.ring.consumer.reading pos hr).2.2.1
      omega
    · exact Function.update_self ..
  · rintro pos' ⟨⟩

theorem WeakInv.pop_releaseHead {V' : RingView} {mem' : RingMemory P} {out : List UInt8}
    {popped : PoppedRecord} (h : WeakInv n m log c)
    (hpc : c.config.consumer = .releaseHead out pos popped)
    (hs : Stores c.memory .release (c.views none) .head (pos + 1) mem' V') :
    MemoryInv n (c.afterPop (c.config.ring.setHead (pos + 1)) mem' V' .idle) := by
  have hseq : ∀ i, mem'.messages (.seq i) = c.memory.messages (.seq i) := by
    intro i
    exact hs.frame.2.1 _ (by rintro ⟨⟩)
  have hhead := (h.ring.consumer.releasing out pos popped hpc).1
  obtain ⟨t, msg, hlast, hvalue, ht⟩ := h.memory.head
  obtain ⟨t', msg', hlast', hvalue', ht', -⟩ := hs.latest hlast ht (by omega)
  refine h.memory.pop none hs.le ⟨hs.frame.2.1 _ (by rintro ⟨⟩), rfl⟩
    ⟨t', msg', hlast', hvalue', ht'⟩ ?_ ?_ ?_ ?_ ?_ ?_
  · intro i
    rw [hseq]
    exact fun _ _ => id
  · intro i _
    exact ⟨hseq i, by rw [hs.frame.1], rfl⟩
  · intro pos' hpos
    rw [hpc] at hpos
    cases hpos
  · rintro p a pos' _ ⟨⟩
  · rintro i ⟨⟩
  · rintro pos' ⟨⟩

/-- The message that makes `head` readable is the last of its slot. -/
theorem WeakInv.pop_seqReady {V' : RingView} {out : List UInt8} (hn : 2 ≤ n) (h : WeakInv n m log c)
    (hpc : c.config.consumer = .loadSeq out pos) (hlt : c.config.ring.tail + n ≤ 2 ^ 64)
    (hl : Loads c.memory .acquire (c.views none) (.seq (pos % n)) (u64 (pos + 1)) V') :
    c.config.ring.seq (pos % n) = u64 (pos + 1) ∧
      MemoryInv n (c.afterPop c.config.ring c.memory V' (.loadLen out pos)) := by
  have hidle : c.config.consumer.reading = none := by rw [hpc]; rfl
  have hpos := h.ring.consumer.snapshot out pos hpc
  have hrel : c.config.released = c.config.ring.head := by rw [RingConfig.released, hpc]
  have hle := h.ring.released_le
  have hin : In n c.config.released pos := ⟨by omega, by omega⟩
  obtain ⟨time, msg, hlast, hvalue, hready⟩ := h.memory.slots (pos % n)
  obtain ⟨time', msg', hmsg', hvalue', htime', hview⟩ := hl.acquired rfl
  rw [u64_of_lt (by omega)] at hvalue' ⊢
  have hseq : c.config.ring.seq (pos % n) = pos + 1 := by
    have hvalue_le := hlast.value_le hmsg'
    rcases h.ring.slots pos hin with hs | ⟨-, hs, -⟩ <;> omega
  refine ⟨hseq, h.memory.pop_quiet hl.le ?_ ?_⟩
  · intro pos' hr
    rw [hidle] at hr
    cases hr
  · rintro pos' ⟨⟩
    have hfree : ¬ c.Held n (pos % n) := by
      rintro (⟨p, a, pos', hw, hslot⟩ | ⟨pos', hr, -⟩)
      · exact ((h.ring.producers p).writing a pos' hw).1.slot_ne_head hin hseq hslot
      · rw [hidle] at hr
        cases hr
    obtain ⟨rfl, rfl⟩ := hlast.eq_of_value hmsg' (by omega)
    refine ⟨time', msg', hlast, ?_, ?_⟩ <;> rw [views_afterPop]
    · exact htime'
    · exact (hready.resolve_left hfree).mono rfl (hview.seen _)

/-- One access of `try_pop`, by the program point it is made from. -/
theorem weakInv_popStep {e : PopEvent} (hn : 2 ≤ n) (h : WeakInv n m log c)
    (hs : WeakPopStep c.config.ring c.memory (c.views none) c.config.consumer e r mem V pc)
    (hlt : c.config.ring.tail + n ≤ 2 ^ 64) :
    WeakInv n m (log ++ [.pop e]) (c.afterPop r mem V pc) := by
  have hslot : ∀ pos, c.config.ring.slot pos = pos % n := fun pos => by
    rw [Ring.slot, h.ring.recordMax]
  have hsame : ∀ {e : PopEvent} {r : Ring} {mem : RingMemory P} {V : RingView} {pc : PopPc},
      PopStep c.config.ring c.config.consumer e r pc → MemoryInv n (c.afterPop r mem V pc) →
      WeakInv n m (log ++ [.pop e]) (c.afterPop r mem V pc) :=
    fun hs hm => ⟨ringInv_popStep hn h.ring hs hlt, kept_popStep h.ring h.kept hs (by omega), hm⟩
  have hquiet : ∀ {V : RingView} {pc : PopPc}, (c.views none).Le V →
      c.config.consumer.reading = none → pc.reading = none →
      MemoryInv n (c.afterPop c.config.ring c.memory V pc) := by
    intro V pc hV hr hr'
    refine h.memory.pop_quiet hV ?_ ?_
    · intro pos hpos
      rw [hr] at hpos
      cases hpos
    · intro pos hpos
      rw [hr'] at hpos
      cases hpos
  generalize hpc : c.config.consumer = pc₀ at hs hsame hquiet
  cases hs with
  | call out => exact hsame (.call out) (hquiet (.refl _) rfl rfl)
  | enter hv => exact hsame (.enter hv) (hquiet (.refl _) rfl rfl)
  | reject hv => exact hsame (.reject hv) (hquiet (.refl _) rfl rfl)
  | @loadHead out v _ hl =>
    obtain ⟨t, msg, hlast, hvalue, ht⟩ := h.memory.head
    have hV := hl.le
    have hv : v = c.config.ring.head := by
      obtain ⟨hmsg, ht'⟩ := hl
      obtain ⟨-, rfl⟩ := hlast.eq_of_time hmsg (ht.trans ht')
      exact hvalue
    subst hv
    exact hsame .loadHead (hquiet hV rfl rfl)
  | seqReady hl =>
    rw [hslot] at hl
    obtain ⟨hseq, hmemory⟩ := h.pop_seqReady hn hpc hlt hl
    exact hsame (.seqReady (by rw [hslot]; exact hseq)) hmemory
  | seqOther hl hne =>
    -- a stale sequence number only makes the pop come back empty
    have hreleased : c.config.released = c.config.ring.head := by rw [RingConfig.released, hpc]
    refine ⟨?_, ?_, hquiet hl.le rfl rfl⟩
    · exact h.ring.consumer_read rfl hreleased (by rintro _ _ _ ⟨⟩)
        ⟨by simp, by simp [PopPc.reading], by simp⟩
    · intro k x hx hrel hseq
      rw [claims_append, claims_pop, List.append_nil] at hx
      exact h.kept k x hx (hreleased.le.trans hrel) hseq
  | loadLen hsize =>
    refine hsame (.loadLen hsize) ?_
    rw [hslot]
    exact h.pop_read (by rw [hpc]; rfl) rfl
  | copyByte hj =>
    refine hsame (.copyByte hj) ?_
    rw [hslot]
    exact h.pop_read (by rw [hpc]; rfl) rfl
  | @copyDone out pos size =>
    refine hsame .copyDone (h.memory.pop_quiet (.refl _) ?_ ?_)
    · intro pos' hpos
      rw [hpc] at hpos
      exact hpos
    · rintro pos' hpos
      refine (h.memory.reading pos' (by rw [hpc]; exact hpos)).frame rfl rfl ?_
      rw [views_afterPop]
      exact .refl _
  | loadType | loadFlags | loadUser =>
    refine hsame (by constructor) ?_
    rw [hslot]
    exact h.pop_read (by rw [hpc]; rfl) rfl
  | @releaseSlot out pos popped _ _ hstore =>
    have hclaimed := (h.ring.consumer.reading pos (by rw [hpc]; rfl)).2.1
    refine hsame .releaseSlot ?_
    rw [hslot, h.ring.recordMax, u64_of_lt (by omega)] at hstore ⊢
    exact h.pop_releaseSlot hn hpc hstore
  | @releaseHead out pos popped _ _ hstore =>
    have hclaimed := (h.ring.consumer.releasing out pos popped hpc).2.1
    refine hsame .releaseHead ?_
    rw [u64_of_lt (by omega)] at hstore ⊢
    exact h.pop_releaseHead hpc hstore

end Consumer

theorem memoryInv_initial (recordMax recordStride : Nat) :
    MemoryInv n (.initial (freshRing recordMax recordStride) : WeakRing P) where
  tail t := by
    cases t <;> rfl
  head := by
    refine ⟨0, ⟨0, .bot⟩, ⟨rfl, fun t ht => if_neg ht.ne', fun t _ ht => ?_⟩, rfl, le_rfl⟩
    exact absurd ht (Nat.not_lt_zero t)
  slots i := by
    refine ⟨0, _, ⟨rfl, fun t ht => if_neg ht.ne', fun t _ ht => ?_⟩, rfl, .inr fun k hk => ?_⟩
    · exact absurd ht (Nat.not_lt_zero t)
    · exact absurd hk (Nat.not_lt_zero k)
  claiming := by rintro p a pos retry ⟨⟩
  writing := by rintro p a pos ⟨⟩
  reading := by rintro pos ⟨⟩

section Runs

variable [DecidableEq P] {log : List (RingEvent P)} {c : WeakRing P} {r : Ring} {payload : Span}
  {recordMax maxPayload : UInt32}

theorem weakInv_run (hn : 2 ≤ n) {c₀ : WeakRing P} (h₀ : WeakInv n m [] c₀)
    (hrun : Run WeakStep c₀ log c) (hlt : (claims log).length + n ≤ 2 ^ 64) :
    WeakInv n m log c := by
  induction hrun with
  | nil => exact h₀
  | snoc _ hs ih =>
    rw [claims_append, List.length_append] at hlt
    have hinv := ih (by omega)
    have htail := hinv.ring.tail
    cases hs with
    | push hs => exact weakInv_pushStep hn hinv hs (by omega)
    | pop hs => exact weakInv_popStep hn hinv hs (by omega)

omit [DecidableEq P] in
theorem WeakInv.not_racy (h : WeakInv n m log c) : ¬ c.Racy := by
  have hslot : ∀ pos, c.config.ring.slot pos = pos % n := fun pos => by
    rw [Ring.slot, h.ring.recordMax]
  rintro (⟨p, pos, hp, hrace⟩ | ⟨pos, hc, hrace⟩)
  · have hw : ∃ a, (c.config.producers p).writing = some (a, pos) := by
      revert hp
      cases c.config.producers p <;> simp [PushPc.storing, PushPc.writing]
    obtain ⟨a, hw⟩ := hw
    obtain ⟨_, _, -, -, hcovers⟩ := h.memory.writing p a pos hw
    rw [hslot] at hrace
    exact hcovers.not_races hrace
  · have hr : c.config.consumer.reading = some pos := by
      revert hc
      cases c.config.consumer <;> simp [PopPc.loading, PopPc.reading]
    obtain ⟨_, _, -, -, hcovers⟩ := h.memory.reading pos hr
    rw [hslot] at hrace
    exact hcovers.not_races hrace

/-- What a run delivers, read off the invariant. -/
theorem RingInv.delivery {c : RingConfig P} (h : RingInv n m log c) (hkept : Kept n log c)
    (hprogram : ∀ p, ProgramOrder p log (c.producers p)) : RingDelivery m log c := by
  have hslot : ∀ i, c.ring.slot i = i % n := fun i => by rw [Ring.slot, h.recordMax]
  refine ⟨h.position, h.delivered, ?_, hprogram, ?_, ?_⟩
  · intro k x hx hrel
    rw [hslot]
    have hlt := (List.getElem?_eq_some_iff.mp hx).1
    have htail := h.tail_le
    have hcount := h.tail
    rcases h.slots k ⟨hrel, by omega⟩ with hfree | ⟨-, hseq, y, hy, hcarries⟩
    · exact .inl (hkept k x hx hrel hfree)
    · obtain rfl : x = y := by simpa [hx] using hy
      exact .inr ⟨hseq, hcarries⟩
  · intro p q a b i j hpq hi hj
    rw [hslot, hslot]
    exact ((h.producers p).writing a i hi).1.slot_ne ((h.producers q).writing b j hj).1 hpq
  · intro p a i j hi hj
    rw [hslot, hslot]
    exact ((h.producers p).writing a i hi).1.slot_ne_head (h.reading_inWindow hj)
      (h.consumer.reading j hj).2.2.1

omit [DecidableEq P] in
/-- Seen from its producer, a load of a stale value is a load from a ring that holds it. -/
theorem WeakPushStep.exists_pushStep {p : P} {ring r : Ring} {mem mem' : RingMemory P}
    {V V' : RingView} {pc pc' : PushPc} {e : PushEvent}
    (hs : WeakPushStep p ring mem V pc e r mem' V' pc') :
    ∃ ring' r', PushStep ring' pc e r' pc' := by
  cases hs with
  | call a => exact ⟨ring, ring, .call a⟩
  | enter hv => exact ⟨ring, ring, .enter hv⟩
  | reject hv => exact ⟨ring, ring, .reject hv⟩
  | @loadTail a v _ _ => exact ⟨ring.setTail v, ring.setTail v, .loadTail⟩
  | @casFail a pos retry v _ _ => exact ⟨ring.setTail v, ring.setTail v, .casFail⟩
  | @reloadTail a retry v _ _ => exact ⟨ring.setTail v, ring.setTail v, .reloadTail⟩
  | @seqFree a pos retry s _ _ hd =>
    refine ⟨ring.setSeq (ring.slot pos) s, _, .seqFree ?_⟩
    simpa [Ring.slot] using hd
  | @seqFull a pos retry s _ _ hd =>
    refine ⟨ring.setSeq (ring.slot pos) s, _, .seqFull ?_⟩
    simpa [Ring.slot] using hd
  | @seqAhead a pos retry s _ _ hd =>
    refine ⟨ring.setSeq (ring.slot pos) s, _, .seqAhead ?_⟩
    simpa [Ring.slot] using hd
  | @claim a pos _ _ _ _ => exact ⟨ring.setTail pos, _, .claim rfl⟩
  | addLost => exact ⟨ring, _, .addLost⟩
  | storeLen => exact ⟨ring, _, .storeLen⟩
  | storeType => exact ⟨ring, _, .storeType⟩
  | storeFlags => exact ⟨ring, _, .storeFlags⟩
  | storeUser => exact ⟨ring, _, .storeUser⟩
  | copyByte hj => exact ⟨ring, _, .copyByte hj⟩
  | copyDone => exact ⟨ring, _, .copyDone⟩
  | publish => exact ⟨ring, _, .publish⟩

theorem programOrder_weakRun (hrun : Run WeakStep (.initial r) log c) :
    ∀ p, ProgramOrder p log (c.config.producers p) := by
  induction hrun with
  | nil => exact fun p => ⟨rfl, rfl⟩
  | snoc _ hs ih =>
    intro p
    cases hs with
    | pop hs => exact (ih p).other rfl
    | @push q e r mem V pc hs =>
      by_cases hq : p = q
      · subst hq
        obtain ⟨_, _, hstep⟩ := hs.exists_pushStep
        rw [producers_afterPush]
        exact (ih p).snoc hstep
      · rw [producers_afterPush_of_ne hq]
        exact (ih p).other (eventsOf_other (Ne.symm hq) e)

/-- With the memory orders of the source, where loads may return stale cursors and sequence numbers
and only the acquiring loads of a slot's sequence order the accesses to its record: no access to a
record races, and the ring delivers as when every access took effect at once. -/
theorem ring_race_free (hinit : initializeRing payload recordMax maxPayload = .ok r)
    (hn : 2 ≤ recordMax.toNat) (hrun : Run WeakStep (.initial r) log c)
    (hclaims : (claims log).length < 2 ^ 63) :
    ¬ c.Racy ∧ RingDelivery r.ringMeta.maxPayload log c.config := by
  have hprogram := programOrder_weakRun hrun
  obtain ⟨rfl, hm, hs⟩ := initializeRing_ok hinit
  have hmax := recordMax.toNat_lt
  have hinv := weakInv_run hn ⟨ringInv_initial hm hs, by rintro k x ⟨⟩, memoryInv_initial _ _⟩ hrun
    (by omega)
  exact ⟨hinv.not_racy, hinv.ring.delivery hinv.kept hprogram⟩

/-- Two slots of 48 payload bytes, one producer: a record pushed and popped. -/
theorem ring_race_free_push_pop : ∃ log c, Run WeakStep (.initial (freshRing 2 64)) log c ∧
    (poppedCalls log).length = 1 ∧ ¬ c.Racy ∧ RingDelivery (P := Unit) 48 log c.config := by
  obtain ⟨log, hrun, hclaims, hpop⟩ := calls_run (c := .initial (freshRing 2 64)) (p := ()) rfl rfl
    [.push ⟨7, 0, 9, [1, 2, 3]⟩, .pop [0, 0]]
  obtain ⟨c, hweak, -⟩ := weak_of_atomic hrun
  have hinit : initializeRing ⟨0, 320⟩ 2 48 = .ok (freshRing 2 64) := rfl
  have hfew : (claims log).length < 2 ^ 63 := lt_of_le_of_lt hclaims (by decide)
  refine ⟨log, c, hweak, ?_, ring_race_free hinit (by decide) hweak hfew⟩
  rw [hpop]
  decide +kernel

end Runs

end Shmfx
