import Shmfx.Lib.Lts
import Shmfx.Lib.Seqlock
import Shmfx.Registry.Entry

/-! `publish_slot` against `snapshot_slot` on one registry slot, one shared access per step. -/
namespace Shmfx

open Lts Seqlock

/-- Where the writer stands inside `publish_slot`; `todo` holds the fields `slot = source` has not
stored yet, the seqlock word among them. -/
inductive PublishPc
  | idle
  | storeOdd (source : RegistryEntry) (s : UInt32)
  | copy (source : RegistryEntry) (s : UInt32) (todo : Finset EntryField)
  | restoreSeq (source : RegistryEntry) (s : UInt32)
  | storeEven (source : RegistryEntry) (s : UInt32)

inductive PublishEvent
  | tau
  | begun (source : RegistryEntry)
  | published (source : RegistryEntry)

/-- One access of `publish_slot`; the registry's mutex keeps it to one writer at a time. -/
inductive PublishStep (slot : RegistryEntry) :
    PublishPc → PublishEvent → RegistryEntry → PublishPc → Prop
  | load (source : RegistryEntry) :
      PublishStep slot .idle (.begun source) slot (.storeOdd source slot.seqStorage)
  | storeOdd {source : RegistryEntry} {s : UInt32} :
      PublishStep slot (.storeOdd source s) .tau (slot.setSeq (s + 1))
        (.copy source s Finset.univ)
  | copyField {source : RegistryEntry} {s : UInt32} {todo : Finset EntryField} {f : EntryField}
      (h : f ∈ todo) :
      PublishStep slot (.copy source s todo) .tau (slot.copyField source f)
        (.copy source s (todo.erase f))
  | copyDone {source : RegistryEntry} {s : UInt32} :
      PublishStep slot (.copy source s ∅) .tau slot (.restoreSeq source s)
  | restoreSeq {source : RegistryEntry} {s : UInt32} :
      PublishStep slot (.restoreSeq source s) .tau (slot.setSeq (s + 1)) (.storeEven source s)
  | storeEven {source : RegistryEntry} {s : UInt32} :
      PublishStep slot (.storeEven source s) (.published source) (slot.setSeq (s + 2)) .idle

/-- The bound of the retry loop in `snapshot_slot`. -/
def snapshotRetries : Nat := 100

/-- Where the reader stands inside `snapshot_slot`; `out` is its destination as filled so far. -/
inductive SnapshotPc
  | idle
  | loadFirst (out : RegistryEntry) (retry : Nat)
  | copy (out : RegistryEntry) (retry : Nat) (s₁ : UInt32) (todo : Finset EntryField)
  | loadSecond (out : RegistryEntry) (retry : Nat) (s₁ : UInt32)

inductive SnapshotEvent
  | tau
  | call
  | loaded
  | taken (out : RegistryEntry)
  | failed

/-- One access of `snapshot_slot`, which only reads the slot. -/
inductive SnapshotStep (slot : RegistryEntry) : SnapshotPc → SnapshotEvent → SnapshotPc → Prop
  | call (out : RegistryEntry) : SnapshotStep slot .idle .call (.loadFirst out 0)
  | odd {out : RegistryEntry} {retry : Nat} (hr : retry < snapshotRetries)
      (h : slot.seqStorage &&& 1 ≠ 0) :
      SnapshotStep slot (.loadFirst out retry) .tau (.loadFirst out (retry + 1))
  | even {out : RegistryEntry} {retry : Nat} (hr : retry < snapshotRetries)
      (h : slot.seqStorage &&& 1 = 0) :
      SnapshotStep slot (.loadFirst out retry) .loaded
        (.copy out retry slot.seqStorage Finset.univ)
  | exhausted {out : RegistryEntry} {retry : Nat} (hr : snapshotRetries ≤ retry) :
      SnapshotStep slot (.loadFirst out retry) .failed .idle
  | copyField {out : RegistryEntry} {retry : Nat} {s₁ : UInt32} {todo : Finset EntryField}
      {f : EntryField} (h : f ∈ todo) :
      SnapshotStep slot (.copy out retry s₁ todo) .tau
        (.copy (out.copyField slot f) retry s₁ (todo.erase f))
  | copyDone {out : RegistryEntry} {retry : Nat} {s₁ : UInt32} :
      SnapshotStep slot (.copy out retry s₁ ∅) .tau (.loadSecond out retry s₁)
  | same {out : RegistryEntry} {retry : Nat} {s₁ : UInt32} (h : s₁ = slot.seqStorage) :
      SnapshotStep slot (.loadSecond out retry s₁) (.taken out) .idle
  | moved {out : RegistryEntry} {retry : Nat} {s₁ : UInt32} (h : s₁ ≠ slot.seqStorage) :
      SnapshotStep slot (.loadSecond out retry s₁) .tau (.loadFirst out (retry + 1))

structure SlotConfig where
  slot : RegistryEntry
  writer : PublishPc
  reader : SnapshotPc

def SlotConfig.initial (slot : RegistryEntry) : SlotConfig := ⟨slot, .idle, .idle⟩

inductive SlotEvent
  | write (e : PublishEvent)
  | read (e : SnapshotEvent)

/-- Writer and reader take their accesses in any order. -/
inductive SlotStep : SlotConfig → SlotEvent → SlotConfig → Prop
  | write {c : SlotConfig} {e : PublishEvent} {slot : RegistryEntry} {pc : PublishPc}
      (h : PublishStep c.slot c.writer e slot pc) : SlotStep c (.write e) ⟨slot, pc, c.reader⟩
  | read {c : SlotConfig} {e : SnapshotEvent} {pc : SnapshotPc}
      (h : SnapshotStep c.slot c.reader e pc) : SlotStep c (.read e) ⟨c.slot, c.writer, pc⟩

def SlotEvent.begun : SlotEvent → Option RegistryEntry
  | .write (.begun source) => some source
  | _ => none

def SlotEvent.published : SlotEvent → Option RegistryEntry
  | .write (.published source) => some source
  | _ => none

/-- The sources of all `publish_slot` calls so far. -/
def sources (log : List SlotEvent) : List RegistryEntry := log.filterMap SlotEvent.begun

/-- The sources of the finished ones. -/
def publishes (log : List SlotEvent) : List RegistryEntry := log.filterMap SlotEvent.published

def SlotEvent.tally (n : Nat) : SlotEvent → Nat
  | .read .loaded => 0
  | .write (.published _) => n + 1
  | _ => n

/-- Publishes finished since the reader's last first load of the seqlock word. -/
def publishesSinceLoad (log : List SlotEvent) : Nat := log.foldl SlotEvent.tally 0

/-- The snapshot is the slot's first content or the source of one publish, field for field. -/
def Whole (slot : RegistryEntry) (log : List SlotEvent) (out : RegistryEntry) : Prop :=
  out.SameContent slot ∨ ∃ source ∈ sources log, out.SameContent source

/-- From any slot without a writer in progress, publishing sources out of `S` in any interleaving,
no successful snapshot mixes two contents. -/
def NeverTorn (S : Set RegistryEntry) : Prop :=
  ∀ slot log c c' out, slot.seqStorage &&& 1 = 0 → Run SlotStep (.initial slot) log c →
    (∀ source ∈ sources log, source ∈ S) → SlotStep c (.read (.taken out)) c' →
    publishesSinceLoad log < 2 ^ 31 → Whole slot log out

variable {slot slot₀ source out : RegistryEntry} {c c' : SlotConfig} {log : List SlotEvent}
  {e : SlotEvent}

theorem and_one_eq_zero {s : UInt32} : s &&& 1 = 0 ↔ s.toNat % 2 = 0 := by
  rw [← UInt32.toNat_inj, UInt32.toNat_and]
  simp [Nat.and_one_is_mod]

theorem add_one_odd {s : UInt32} (h : s &&& 1 = 0) : (s + 1) &&& 1 ≠ 0 := by
  rw [and_one_eq_zero] at h
  simp only [ne_eq, and_one_eq_zero, UInt32.toNat_add, UInt32.reduceToNat]
  omega

theorem add_two_even {s : UInt32} (h : s &&& 1 = 0) : (s + 2) &&& 1 = 0 := by
  rw [and_one_eq_zero] at h ⊢
  simp only [UInt32.toNat_add, UInt32.reduceToNat]
  omega

theorem or_one_odd (s : UInt32) : (s ||| 1) &&& 1 ≠ 0 := by
  have h : (s.toNat ||| 1).testBit 0 = true := by simp
  simp only [Nat.testBit_zero, decide_eq_true_eq] at h
  simp only [ne_eq, and_one_eq_zero, UInt32.toNat_or, UInt32.reduceToNat, h, one_ne_zero,
    not_false_eq_true]

theorem and_not_one_even (s : UInt32) : (s &&& ~~~1) &&& 1 = 0 := by
  have h : (~~~1 : UInt32) &&& 1 = 0 := by decide
  rw [UInt32.and_assoc, h, UInt32.and_zero]

theorem publishesSinceLoad_snoc (log : List SlotEvent) (e : SlotEvent) :
    publishesSinceLoad (log ++ [e]) = e.tally (publishesSinceLoad log) := by
  simp [publishesSinceLoad]

/-- The slot holds neither its old nor its new content for certain. -/
def PublishPc.Busy : PublishPc → Prop
  | .copy .. | .restoreSeq .. | .storeEven .. => True
  | .idle | .storeOdd .. => False

/-- The content after the publishes finished so far. -/
def content (slot₀ : RegistryEntry) (log : List SlotEvent) : RegistryEntry :=
  (publishes log).getLast?.getD slot₀

/-- What the writer's position says of the slot after `n` publishes from sequence `base`. -/
def PublishPc.Facts (base n : Nat) (slot : RegistryEntry) : PublishPc → Prop
  | .idle => True
  | .storeOdd source s => s = slot.seqStorage ∧ source.seqStorage &&& 1 ≠ 0
  | .copy source s todo => s.toNat = version base n ∧ source.seqStorage &&& 1 ≠ 0 ∧
      ∀ f, f ≠ .seqStorage → f ∉ todo → slot.value f = source.value f
  | .restoreSeq source s | .storeEven source s => s.toNat = version base n ∧
      ∀ f, f ≠ .seqStorage → slot.value f = source.value f

def SnapshotPc.Facts (base n since : Nat) (busy : Prop) (held : RegistryEntry) : SnapshotPc → Prop
  | .copy out _ s₁ todo => ∃ k, n = k + since ∧
      Reading .seqStorage base n busy held.value k s₁.toNat out.value todo
  | .loadSecond out _ s₁ => ∃ k, n = k + since ∧
      Reading .seqStorage base n busy held.value k s₁.toNat out.value ∅
  | _ => True

structure SlotInv (slot₀ : RegistryEntry) (log : List SlotEvent) (c : SlotConfig) : Prop where
  discipline : Discipline .seqStorage slot₀.seqStorage.toNat (publishes log).length c.writer.Busy
    c.slot.seqStorage.toNat c.slot.value (content slot₀ log).value
  writer : c.writer.Facts slot₀.seqStorage.toNat (publishes log).length c.slot
  reader : c.reader.Facts slot₀.seqStorage.toNat (publishes log).length (publishesSinceLoad log)
    c.writer.Busy (content slot₀ log)

theorem slotInv_initial (slot₀ : RegistryEntry) : SlotInv slot₀ [] (.initial slot₀) where
  discipline := by
    refine ⟨fun h => h.elim, fun _ => ?_, fun _ f _ => rfl⟩
    have := slot₀.seqStorage.toNat_lt
    simp [SlotConfig.initial, version, publishes]
  writer := trivial
  reader := trivial

/-- An open read goes on through a writer's access that finishes no publish, if the writer is busy
afterwards or nothing was stored. -/
theorem SnapshotPc.Facts.occupy {base n since : Nat} {busy : Prop} {held : RegistryEntry}
    {pc : SnapshotPc} (h : pc.Facts base n since busy held) : pc.Facts base n since True held := by
  cases pc with
  | idle | loadFirst => trivial
  | copy | loadSecond =>
    obtain ⟨k, hk, hr⟩ := h
    exact ⟨k, hk, hr.occupy⟩

theorem SnapshotPc.Facts.commit {base n since : Nat} {busy busy' : Prop}
    {held held' : RegistryEntry} {pc : SnapshotPc} (h : pc.Facts base n since busy held) :
    pc.Facts base (n + 1) (since + 1) busy' held' := by
  cases pc with
  | idle | loadFirst => trivial
  | copy | loadSecond =>
    obtain ⟨k, hk, hr⟩ := h
    exact ⟨k, by omega, hr.commit⟩

theorem version_succ_odd {base n : Nat} {s : UInt32} (hb : base % 2 = 0)
    (hs : s.toNat = version base n) : (s + 1).toNat % 2 = 1 := by
  have := version_even hb n
  simp only [UInt32.toNat_add, UInt32.reduceToNat]
  omega

theorem version_succ {base n : Nat} {s : UInt32} (hs : s.toNat = version base n) :
    (s + 2).toNat = version base (n + 1) := by
  simp only [UInt32.toNat_add, UInt32.reduceToNat, hs, version]
  omega

/-- A busy writer needs only an odd word and its own facts. -/
theorem SlotInv.busy {pc : PublishPc} {held : RegistryEntry} (h : SlotInv slot₀ log c)
    (hbusy : pc.Busy) (hseq : held.seqStorage.toNat % 2 = 1)
    (hf : pc.Facts slot₀.seqStorage.toNat (publishes log).length held) :
    SlotInv slot₀ (log ++ [.write .tau]) ⟨held, pc, c.reader⟩ := by
  have hp : publishes (log ++ [.write .tau]) = publishes log := by
    simp [publishes, SlotEvent.published]
  have hs : publishesSinceLoad (log ++ [.write .tau]) = publishesSinceLoad log :=
    publishesSinceLoad_snoc ..
  have htrue : pc.Busy = True := eq_true hbusy
  have hc : content slot₀ (log ++ [.write .tau]) = content slot₀ log := by rw [content, hp, content]
  refine ⟨⟨fun _ => hseq, fun hn => absurd hbusy hn, fun hn => absurd hbusy hn⟩, ?_, ?_⟩
  · rw [hp]
    exact hf
  · rw [hp, hs, hc]
    simp only [htrue]
    exact h.reader.occupy

theorem slotInv_publishStep {e : PublishEvent} {pc : PublishPc} (hb : slot₀.seqStorage &&& 1 = 0)
    (h : SlotInv slot₀ log c) (hs : PublishStep c.slot c.writer e slot pc)
    (hodd : ∀ source ∈ sources (log ++ [.write e]), source.seqStorage &&& 1 ≠ 0) :
    SlotInv slot₀ (log ++ [.write e]) ⟨slot, pc, c.reader⟩ := by
  have hbase := and_one_eq_zero.mp hb
  have hd := h.discipline
  have hw := h.writer
  have hr := h.reader
  generalize hpc : c.writer = pc₀ at hs hd hw hr
  cases hs with
  | load source =>
    have hsource : source.seqStorage &&& 1 ≠ 0 := by
      apply hodd
      simp [sources, SlotEvent.begun]
    have hp : publishes (log ++ [.write (.begun source)]) = publishes log := by
      simp [publishes, SlotEvent.published]
    refine ⟨?_, ⟨rfl, hsource⟩, ?_⟩
    · rw [content, hp]
      exact hd
    · rw [content, hp, publishesSinceLoad_snoc]
      exact hr
  | @storeOdd source s =>
    obtain ⟨rfl, hsource⟩ := hw
    have hv := hd.seq_eq id
    exact h.busy trivial (version_succ_odd hbase hv) ⟨hv, hsource, by simp⟩
  | @copyField source s todo f hf =>
    obtain ⟨hv, hsource, hcopied⟩ := hw
    refine h.busy trivial ?_ ⟨hv, hsource, ?_⟩
    · by_cases hfs : f = .seqStorage
      · subst hfs
        have := mt and_one_eq_zero.mpr hsource
        simp only [RegistryEntry.copyField]
        omega
      · rw [RegistryEntry.copyField_seqStorage _ _ hfs]
        exact hd.odd trivial
    · intro g hg hmem
      rw [RegistryEntry.value_copyField]
      by_cases hgf : g = f
      · rw [if_pos hgf]
      · rw [if_neg hgf]
        exact hcopied g hg fun hm => hmem (Finset.mem_erase.mpr ⟨hgf, hm⟩)
  | @copyDone source s =>
    obtain ⟨hv, -, hcopied⟩ := hw
    exact h.busy trivial (hd.odd trivial) ⟨hv, fun f hf => hcopied f hf (Finset.notMem_empty f)⟩
  | @restoreSeq source s =>
    obtain ⟨hv, hcopied⟩ := hw
    refine h.busy trivial (version_succ_odd hbase hv) ⟨hv, ?_⟩
    intro f hf
    rw [RegistryEntry.value_setSeq _ _ hf, hcopied f hf]
  | @storeEven source s =>
    obtain ⟨hv, hcopied⟩ := hw
    have hp : publishes (log ++ [.write (.published source)]) = publishes log ++ [source] := by
      simp [publishes, SlotEvent.published]
    refine ⟨⟨fun hbusy => hbusy.elim, fun _ => ?_, fun _ f hf => ?_⟩, trivial, ?_⟩
    · rw [hp, List.length_append]
      exact version_succ hv
    · rw [content, hp, RegistryEntry.value_setSeq _ _ hf, hcopied f hf]
      simp
    · rw [hp, publishesSinceLoad_snoc, List.length_append]
      exact hr.commit

/-- A reader's access leaves the writer's side alone. -/
theorem slotInv_snapshotStep {e : SnapshotEvent} {pc : SnapshotPc} (h : SlotInv slot₀ log c)
    (hs : SnapshotStep c.slot c.reader e pc) :
    SlotInv slot₀ (log ++ [.read e]) ⟨c.slot, c.writer, pc⟩ := by
  have hp : publishes (log ++ [.read e]) = publishes log := by
    simp [publishes, SlotEvent.published]
  have hd := h.discipline
  have hr := h.reader
  refine ⟨by rw [content, hp]; exact hd, by rw [hp]; exact h.writer, ?_⟩
  rw [content, hp, publishesSinceLoad_snoc]
  generalize c.reader = pc₀ at hs hr
  cases hs with
  | call | odd | exhausted | same | moved => trivial
  | even _ he => exact ⟨_, rfl, hd.load (and_one_eq_zero.mp he)⟩
  | @copyField out retry s₁ todo f hf =>
    obtain ⟨k, hk, hr⟩ := hr
    exact ⟨k, hk, hr.copy hd (RegistryEntry.value_copyField out c.slot f)⟩
  | copyDone => exact hr

theorem slotInv_step (hb : slot₀.seqStorage &&& 1 = 0) (h : SlotInv slot₀ log c)
    (hs : SlotStep c e c') (hodd : ∀ source ∈ sources (log ++ [e]), source.seqStorage &&& 1 ≠ 0) :
    SlotInv slot₀ (log ++ [e]) c' := by
  cases hs with
  | write hs => exact slotInv_publishStep hb h hs hodd
  | read hs => exact slotInv_snapshotStep h hs

theorem slotInv_run (hb : slot₀.seqStorage &&& 1 = 0) (hrun : Run SlotStep (.initial slot₀) log c)
    (hodd : ∀ source ∈ sources log, source.seqStorage &&& 1 ≠ 0) : SlotInv slot₀ log c := by
  induction hrun with
  | nil => exact slotInv_initial slot₀
  | snoc _ hs ih =>
    refine slotInv_step hb (ih fun source hm => hodd source ?_) hs hodd
    simp only [sources, List.filterMap_append, List.mem_append] at hm ⊢
    exact .inl hm

/-- With odd sources a successful snapshot is the content of the last finished publish. -/
theorem snapshot_eq_content (hb : slot₀.seqStorage &&& 1 = 0)
    (hrun : Run SlotStep (.initial slot₀) log c)
    (hodd : ∀ source ∈ sources log, source.seqStorage &&& 1 ≠ 0)
    (hs : SlotStep c (.read (.taken out)) c') (hlt : publishesSinceLoad log < 2 ^ 31) :
    out.SameContent (content slot₀ log) := by
  have hinv := slotInv_run hb hrun hodd
  have hd := hinv.discipline
  have hr := hinv.reader
  cases hs with
  | read hs =>
    generalize c.reader = pc₀ at hs hr
    cases hs with
    | same heq =>
      obtain ⟨k, hk, hr⟩ := hr
      intro f hf
      exact hr.accept (and_one_eq_zero.mp hb) hd (by rw [heq]) (by omega) hf

/-- The source of the publish in progress. -/
def PublishPc.pending : PublishPc → Option RegistryEntry
  | .idle => none
  | .storeOdd source _ | .copy source _ _ | .restoreSeq source _ | .storeEven source _ =>
    some source

theorem PublishStep.pending_eq {e : PublishEvent} {pc pc' : PublishPc}
    (h : PublishStep slot pc e slot₀ pc') :
    pc.pending.toList ++ sources [.write e] =
      publishes [.write e] ++ pc'.pending.toList := by
  cases h <;> rfl

/-- Publishes finish in the order they begin, one at a time. -/
theorem sources_eq (hrun : Run SlotStep (.initial slot₀) log c) :
    sources log = publishes log ++ c.writer.pending.toList := by
  induction hrun with
  | nil => rfl
  | @snoc log c e c' _ hs ih =>
    rw [sources, publishes, List.filterMap_append, List.filterMap_append]
    cases hs with
    | read hs =>
      rw [← sources, ih]
      exact (List.append_nil _).trans (congrArg (· ++ _) (List.append_nil _).symm)
    | write hs =>
      rw [← sources, ih, List.append_assoc, List.append_assoc]
      exact congrArg _ hs.pending_eq

theorem content_cases (slot₀ : RegistryEntry) (log : List SlotEvent) :
    content slot₀ log = slot₀ ∨ content slot₀ log ∈ publishes log := by
  unfold content
  cases h : (publishes log).getLast? with
  | none => exact .inl rfl
  | some source => exact .inr (List.mem_of_getLast? h)

/-- A loop that copies one field of `source` a step, in any order, fills in exactly the fields
still to do. -/
theorem copyFields_run {σ α : Type*} (step : σ → α → σ → Prop) (a : α) (source : RegistryEntry)
    (state : RegistryEntry → Finset EntryField → σ)
    (hstep : ∀ out todo f, f ∈ todo →
      step (state out todo) a (state (out.copyField source f) (todo.erase f)))
    (todo : Finset EntryField) (out : RegistryEntry) :
    ∃ out', Run step (state out todo) (List.replicate todo.card a) (state out' ∅) ∧
      ∀ f, out'.value f = if f ∈ todo then source.value f else out.value f := by
  induction todo using Finset.induction_on generalizing out with
  | empty => exact ⟨out, .nil, by simp⟩
  | insert f todo hf ih =>
    obtain ⟨out', hrun, hval⟩ := ih (out.copyField source f)
    have hfirst := hstep out (insert f todo) f (Finset.mem_insert_self f todo)
    rw [Finset.erase_insert hf] at hfirst
    rw [Finset.card_insert_of_notMem hf, List.replicate_succ]
    refine ⟨out', Run.cons hfirst hrun, ?_⟩
    intro g
    rw [hval, RegistryEntry.value_copyField]
    by_cases hg : g = f
    · simp [hg]
    · simp [hg]

/-- Undisturbed, the struct copy of `snapshot_slot` takes every field still to do. -/
theorem copy_run (slot : RegistryEntry) (pc : PublishPc) (retry : Nat) (s₁ : UInt32)
    (todo : Finset EntryField) (out : RegistryEntry) :
    ∃ out', Run SlotStep ⟨slot, pc, .copy out retry s₁ todo⟩
        (List.replicate (todo.card + 1) (.read .tau)) ⟨slot, pc, .loadSecond out' retry s₁⟩ ∧
      ∀ f, out'.value f = if f ∈ todo then slot.value f else out.value f := by
  obtain ⟨out', hrun, hval⟩ := copyFields_run SlotStep (.read .tau) slot
    (fun out todo => ⟨slot, pc, .copy out retry s₁ todo⟩)
    (fun _ _ _ hf => .read (.copyField hf)) todo out
  rw [List.replicate_succ']
  exact ⟨out', hrun.snoc (.read .copyDone), hval⟩

theorem publishesSinceLoad_tau (log : List SlotEvent) (k : Nat) :
    publishesSinceLoad (log ++ List.replicate k (.read .tau)) = publishesSinceLoad log := by
  induction k with
  | zero => simp
  | succ k ih =>
    rw [List.replicate_succ', ← List.append_assoc, publishesSinceLoad_snoc, ih]
    rfl

theorem sources_tau (log : List SlotEvent) (k : Nat) :
    sources (log ++ List.replicate k (.read .tau)) = sources log := by
  simp [sources, List.filterMap_append, SlotEvent.begun]

/-- The slot that a publish of `e` will tear: `e` with other values in two fields. -/
def tornBy (e : RegistryEntry) : RegistryEntry :=
  { e with seqStorage := 0, totalSize := e.totalSize + 1, createdAtNs := e.createdAtNs + 1 }

/-- An even source word stored in the middle of the copy invites a reader to a half-written slot. -/
theorem torn_of_even {e : RegistryEntry} (he : e.seqStorage &&& 1 = 0) :
    ∃ log c c' out, Run SlotStep (.initial (tornBy e)) log c ∧ sources log = [e] ∧
      publishesSinceLoad log = 0 ∧ SlotStep c (.read (.taken out)) c' ∧
      ¬ Whole (tornBy e) log out := by
  let half : RegistryEntry := { tornBy e with seqStorage := e.seqStorage, totalSize := e.totalSize }
  let todo : Finset EntryField := (Finset.univ.erase .seqStorage).erase .totalSize
  have h₁ : SlotStep (.initial (tornBy e)) (.write (.begun e)) ⟨tornBy e, .storeOdd e 0, .idle⟩ :=
    .write (.load e)
  have h₂ : SlotStep ⟨tornBy e, .storeOdd e 0, .idle⟩ (.write .tau)
      ⟨(tornBy e).setSeq 1, .copy e 0 Finset.univ, .idle⟩ := .write .storeOdd
  have h₃ : SlotStep ⟨(tornBy e).setSeq 1, .copy e 0 Finset.univ, .idle⟩ (.write .tau)
      ⟨(tornBy e).setSeq e.seqStorage, .copy e 0 (Finset.univ.erase .seqStorage), .idle⟩ :=
    .write (@PublishStep.copyField _ e 0 _ .seqStorage (Finset.mem_univ _))
  have h₄ : SlotStep
      ⟨(tornBy e).setSeq e.seqStorage, .copy e 0 (Finset.univ.erase .seqStorage), .idle⟩
      (.write .tau) ⟨half, .copy e 0 todo, .idle⟩ :=
    .write (@PublishStep.copyField _ e 0 _ .totalSize (by simp))
  have h₅ : SlotStep ⟨half, .copy e 0 todo, .idle⟩ (.read .call)
      ⟨half, .copy e 0 todo, .loadFirst e 0⟩ := .read (.call e)
  have h₆ : SlotStep ⟨half, .copy e 0 todo, .loadFirst e 0⟩ (.read .loaded)
      ⟨half, .copy e 0 todo, .copy e 0 e.seqStorage Finset.univ⟩ := .read (.even (by decide) he)
  obtain ⟨out, hcopy, hval⟩ := copy_run half (.copy e 0 todo) 0 e.seqStorage Finset.univ e
  have h₇ : SlotStep ⟨half, .copy e 0 todo, .loadSecond out 0 e.seqStorage⟩ (.read (.taken out))
      ⟨half, .copy e 0 todo, .idle⟩ := .read (.same rfl)
  have hopen := Run.cons h₁ (Run.cons h₂ (Run.cons h₃ (Run.cons h₄ (Run.cons h₅ (Run.single h₆)))))
  have hrun := hopen.append hcopy
  refine ⟨_, _, _, out, hrun, sources_tau .., publishesSinceLoad_tau .., h₇, ?_⟩
  have hout : ∀ f, out.value f = half.value f := fun f => by
    rw [hval, if_pos (Finset.mem_univ f)]
  rw [Whole, sources_tau]
  rintro (hsame | ⟨source, hm, hsame⟩)
  · have h := hsame .totalSize (by simp)
    rw [hout] at h
    simp [half, tornBy, RegistryEntry.value] at h
    omega
  · obtain rfl : source = e := List.mem_singleton.mp hm
    have h := hsame .createdAtNs (by simp)
    rw [hout] at h
    simp [half, tornBy, RegistryEntry.value] at h
    omega

/-- Snapshots are never torn exactly when no source carries an even seqlock word. -/
theorem neverTorn_iff (S : Set RegistryEntry) :
    NeverTorn S ↔ ∀ source ∈ S, source.seqStorage &&& 1 ≠ 0 := by
  constructor
  · intro h source hS heven
    obtain ⟨log, c, c', out, hrun, hsources, hnone, hstep, htorn⟩ := torn_of_even heven
    have hb : (tornBy source).seqStorage &&& 1 = 0 := show (0 : UInt32) &&& 1 = 0 by decide
    refine htorn (h _ log c c' out hb hrun ?_ hstep (by omega))
    simpa [hsources] using hS
  · intro hodd slot log c c' out hb hrun hS hstep hlt
    have hsame :=
      snapshot_eq_content hb hrun (fun source hm => hodd source (hS source hm)) hstep hlt
    rcases content_cases slot log with hc | hc
    · exact .inl (hc ▸ hsame)
    · refine .inr ⟨_, ?_, hsame⟩
      rw [sources_eq hrun]
      exact List.mem_append_left _ hc

/-- A freshly filled entry, word zero as `create` leaves it, is enough to tear a slot. -/
theorem torn_snapshot : ∃ slot source log c c' out,
    slot.seqStorage = 0 ∧ source.seqStorage = 0 ∧ Run SlotStep (.initial slot) log c ∧
      sources log = [source] ∧ publishesSinceLoad log = 0 ∧
      SlotStep c (.read (.taken out)) c' ∧ ¬ Whole slot log out := by
  let source : RegistryEntry :=
    ⟨0, 0, fun i => if i = 0 then 47 else if i = 1 then 97 else 0, 4096, 1, 100, 5, 0, 0, 7, 7,
      fun _ => 0⟩
  have heven : source.seqStorage &&& 1 = 0 := by decide
  obtain ⟨log, c, c', out, hrun, hsources, hnone, hstep, htorn⟩ := torn_of_even heven
  exact ⟨tornBy source, source, log, c, c', out, rfl, rfl, hrun, hsources, hnone, hstep, htorn⟩

end Shmfx
