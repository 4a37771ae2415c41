import Shmfx.Registry.Recovery

/-! What the death of a writer leaves in the registry, and what the recovery makes of it. -/
namespace Shmfx

open Lts

/-- The slot a struct copy stores to, and the fields it has not stored yet. -/
def HolderPc.copying : HolderPc → Option (SlotIndex × Finset EntryField)
  | .publish i _ (.copy _ _ todo) => some (i, todo)
  | .clear i _ _ (.copy _ todo) => some (i, todo)
  | _ => none

/-- No process dies inside a struct copy while the slot already has an even word and a name;
entries come with a NUL-terminated, non-empty name. -/
def DeathShown (c : CrashConfig) : CrashEvent → Prop
  | .died => ∀ i todo, c.pc.copying = some (i, todo) →
      todo = ∅ ∨ (c.payload.slots i).seqStorage &&& 1 ≠ 0 ∨ (c.payload.slots i).name 0 = 0
  | .registering entry => (RegistryCall.register entry).WellFormed
  | _ => True

/-- What a recovery owes: whole entries out of `S`, one slot for each name, and every slot that
the dead writer did not write as it was. -/
structure CrashAtomic (S : Set RegistryEntry) (c : CrashConfig) : Prop where
  whole : ∀ i, c.payload.bitIsSet i = true → ∃ entry ∈ S, (c.payload.slots i).SameContent entry
  distinct : ∀ i j, c.payload.bitIsSet i = true → c.payload.bitIsSet j = true →
    entryName (c.payload.slots i) = entryName (c.payload.slots j) → i = j
  kept : ∀ i, c.writing ≠ some i → c.payload.slots i = c.start.slots i ∧
    c.payload.bitIsSet i = c.start.bitIsSet i

def CountsBits (p : RegistryPayload) : Prop := p.countStorage.toNat = p.occupied.card

/-- The registry between two calls. -/
structure RegistrySound (S : Set RegistryEntry) (p : RegistryPayload) : Prop where
  intact : ∀ i, p.damaged i = false
  whole : ∀ i, p.bitIsSet i = true → ∃ entry ∈ S, (p.slots i).SameContent entry
  distinct : ∀ i j, p.bitIsSet i = true → p.bitIsSet j = true →
    entryName (p.slots i) = entryName (p.slots j) → i = j
  counted : CountsBits p

/-- Slot `t` as a finished call may leave it: empty, or with an entry whose name no other slot
has. -/
def Settled (S : Set RegistryEntry) (p₀ p : RegistryPayload) (t : SlotIndex) : Prop :=
  p.damaged t = false ∧ (p.bitIsSet t = true →
    (∃ entry ∈ S, (p.slots t).SameContent entry) ∧
      ∀ j, j ≠ t → p₀.bitIsSet j = true → entryName (p₀.slots j) ≠ entryName (p.slots t))

def SameElsewhere (p₀ p : RegistryPayload) (w : Option SlotIndex) : Prop :=
  ∀ i, w ≠ some i → p.slots i = p₀.slots i ∧ p.bitIsSet i = p₀.bitIsSet i

/-- What `register_segment` publishes in slot `i`. -/
structure Fresh (S : Set RegistryEntry) (p₀ : RegistryPayload) (i : SlotIndex)
    (entry : RegistryEntry) : Prop where
  registered : entry ∈ S
  named : entry.name 0 ≠ 0
  unused : ∀ j, j ≠ i → p₀.bitIsSet j = true → entryName (p₀.slots j) ≠ entryName entry

def Publishable (S : Set RegistryEntry) (p₀ : RegistryPayload) (i : SlotIndex)
    (source : RegistryEntry) : Bool → Prop
  | true => source = zeroEntry
  | false => Fresh S p₀ i source

/-- The slot at each point of `publish_slot`. -/
def PublishPhase (c : CrashConfig) (i : SlotIndex) : PublishPc → Prop
  | .idle => False
  | .storeOdd _ _ => c.writing = none ∨ c.writing = some i ∧ (c.payload.slots i).name 0 = 0
  | .copy source _ todo => c.writing = some i ∧
      (∀ f, f ∉ todo → (c.payload.slots i).value f = source.value f) ∧
      (.seqStorage ∈ todo → (c.payload.slots i).seqStorage &&& 1 ≠ 0)
  | .restoreSeq source _ => c.writing = some i ∧ (c.payload.slots i).SameContent source
  | .storeEven source _ => c.writing = some i ∧ (c.payload.slots i).SameContent source ∧
      (c.payload.slots i).seqStorage &&& 1 ≠ 0

/-- The slot at each point of `clear_slot_for_recovery`. -/
def ClearPhase (p : RegistryPayload) (i : SlotIndex) : ClearPc → Prop
  | .storeOdd _ => p.damaged i = true
  | .copy _ todo => (.name 0 ∉ todo → (p.slots i).name 0 = 0) ∧
      (.seqStorage ∈ todo → (p.slots i).seqStorage &&& 1 ≠ 0)
  | .storeEven _ => (p.slots i).name 0 = 0
  | .clearBit => (p.slots i).name 0 = 0 ∧ (p.slots i).seqStorage &&& 1 = 0

def PublishPc.Loaded (P : RegistryEntry → UInt32 → Prop) : PublishPc → Prop
  | .idle => False
  | .storeOdd source s | .copy source s _ | .restoreSeq source s | .storeEven source s => P source s

/-- The slots before `rest` have been looked at, and `count` of them are occupied. -/
def Scanned (p : RegistryPayload) (rest : List SlotIndex) (count : UInt32) : Prop :=
  ∃ done, done ++ rest = List.finRange maxRegistryEntries ∧
    count.toNat = done.countP fun i => p.bitIsSet i

/-- The recovery puts the slot right, if it has to. -/
def Recoverable (S : Set RegistryEntry) (p₀ p : RegistryPayload) (t : SlotIndex) : Prop :=
  p.damaged t = true ∨ Settled S p₀ p t

def CrashPhase (S : Set RegistryEntry) (c : CrashConfig) : Prop :=
  match c.pc with
  | .free | .locked | .leaving =>
    (∀ t, c.writing = some t → Settled S c.start c.payload t) ∧ CountsBits c.payload
  | .abandoned => ∀ t, c.writing = some t → Recoverable S c.start c.payload t
  | .setBit i entry => c.writing = none ∧ c.payload.bitIsSet i = false ∧ CountsBits c.payload ∧
      Fresh S c.start i entry
  | .addCount i entry => c.writing = some i ∧ c.payload.bitIsSet i = true ∧
      (c.payload.slots i).name 0 = 0 ∧ (c.payload.slots i).seqStorage &&& 1 = 0 ∧
      CountsBits c.payload.addCount ∧ Fresh S c.start i entry
  | .publish i removing pc => c.payload.bitIsSet i = true ∧ CountsBits c.payload ∧
      pc.Loaded (fun source s => s &&& 1 = 0 ∧ Publishable S c.start i source removing) ∧
      PublishPhase c i pc
  | .clearBit i => c.writing = some i ∧ c.payload.bitIsSet i = true ∧
      (c.payload.slots i).name 0 = 0 ∧ (c.payload.slots i).seqStorage &&& 1 = 0 ∧
      CountsBits c.payload
  | .subCount => (∀ t, c.writing = some t → Settled S c.start c.payload t) ∧
      CountsBits c.payload.subCount
  | .recover rest count => Scanned c.payload rest count ∧ ∀ t, c.writing = some t →
      Settled S c.start c.payload t ∨ t ∈ rest ∧ c.payload.damaged t = true
  | .clear i rest count pc => c.writing = some i ∧ Scanned (c.payload.clearBit i) rest count ∧
      ClearPhase c.payload i pc

structure CrashInv (S : Set RegistryEntry) (c : CrashConfig) : Prop where
  start : RegistrySound S c.start
  elsewhere : SameElsewhere c.start c.payload c.writing
  phase : CrashPhase S c

section Proofs

variable {S : Set RegistryEntry} {p p₀ q : RegistryPayload} {i j t : SlotIndex}
  {w : Option SlotIndex} {c d : CrashConfig} {rest : List SlotIndex} {count : UInt32}

theorem damaged_eq_false : p.damaged i = false ↔ (p.slots i).seqStorage &&& 1 = 0 ∧
    (p.bitIsSet i = true ↔ (p.slots i).name 0 ≠ 0) := by
  unfold RegistryPayload.damaged
  cases p.bitIsSet i <;> simp

theorem damaged_of_odd (h : (p.slots i).seqStorage &&& 1 ≠ 0) : p.damaged i = true := by
  rw [← Bool.not_eq_false, damaged_eq_false]
  exact fun hd => h hd.1

theorem damaged_of_unnamed (hb : p.bitIsSet i = true) (h : (p.slots i).name 0 = 0) :
    p.damaged i = true := by
  rw [← Bool.not_eq_false, damaged_eq_false]
  exact fun hd => hd.2.mp hb h

theorem settled_of_free (hd : p.damaged t = false) (hb : p.bitIsSet t = false) :
    Settled S p₀ p t :=
  ⟨hd, fun h => by rw [hb] at h; cases h⟩

theorem settled_of_cleared (hname : (p.slots t).name 0 = 0)
    (heven : (p.slots t).seqStorage &&& 1 = 0) : Settled S p₀ (p.clearBit t) t := by
  have hb : (p.clearBit t).bitIsSet t = false := by simp
  refine settled_of_free ?_ hb
  rw [damaged_eq_false, hb]
  exact ⟨heven, nofun, fun h => absurd hname h⟩

theorem recoverable_of_unnamed (h : (p.slots t).name 0 = 0) : Recoverable S p₀ p t := by
  cases hb : p.bitIsSet t with
  | true => exact .inl (damaged_of_unnamed hb h)
  | false =>
    cases hd : p.damaged t with
    | true => exact .inl hd
    | false => exact .inr (settled_of_free hd hb)

theorem RegistrySound.settled (h : RegistrySound S p) (t : SlotIndex) : Settled S p p t := by
  refine ⟨h.intact t, fun hb => ⟨h.whole t hb, fun j hj hbj he => ?_⟩⟩
  exact hj (h.distinct j t hbj hb he)

/-- A payload that differs from a sound one in a settled slot only is sound. -/
theorem sound_of_settled (h : RegistrySound S p₀) (he : SameElsewhere p₀ p w)
    (hw : ∀ t, w = some t → Settled S p₀ p t) (hc : CountsBits p) : RegistrySound S p := by
  refine ⟨fun i => ?_, fun i hb => ?_, fun i j hi hj hname => ?_, hc⟩
  · by_cases hwi : w = some i
    · exact (hw i hwi).1
    · obtain ⟨hs, hb⟩ := he i hwi
      rw [damaged_eq_false, hs, hb]
      exact damaged_eq_false.mp (h.intact i)
  · by_cases hwi : w = some i
    · exact ((hw i hwi).2 hb).1
    · obtain ⟨hs, hb'⟩ := he i hwi
      rw [hs]
      exact h.whole i (hb' ▸ hb)
  · by_cases hwi : w = some i
    · by_contra hne
      obtain ⟨hs, hb⟩ := he j fun hwj => hne (Option.some.inj (hwi.symm.trans hwj))
      rw [hs] at hname
      exact ((hw i hwi).2 hi).2 j (Ne.symm hne) (hb ▸ hj) hname.symm
    · obtain ⟨hs, hb⟩ := he i hwi
      by_cases hwj : w = some j
      · by_contra hne
        rw [hs] at hname
        exact ((hw j hwj).2 hj).2 i hne (hb ▸ hi) hname
      · obtain ⟨hs', hb'⟩ := he j hwj
        rw [hs, hs'] at hname
        exact h.distinct i j (hb ▸ hi) (hb' ▸ hj) hname

/-- The payload between two calls represents a map again. -/
theorem RegistrySound.exists_map (h : RegistrySound S p) : ∃ m, RegistryInv p m := by
  classical
  let m : EntryMap := fun name =>
    if hn : ∃ i, p.bitIsSet i = true ∧ entryName (p.slots i) = name then
      some (p.slots hn.choose).content
    else none
  refine ⟨m, ⟨fun name e => ?_, fun i => ?_, h.distinct, fun i => ?_, h.counted⟩⟩
  · constructor
    · intro hm
      by_cases hn : ∃ i, p.bitIsSet i = true ∧ entryName (p.slots i) = name
      · simp only [m, dif_pos hn, Option.some.injEq] at hm
        exact ⟨hn.choose, hn.choose_spec.1, hn.choose_spec.2, hm⟩
      · simp only [m, dif_neg hn] at hm
        cases hm
    · rintro ⟨i, hb, hn, rfl⟩
      have hex : ∃ i, p.bitIsSet i = true ∧ entryName (p.slots i) = name := ⟨i, hb, hn⟩
      have heq := h.distinct _ i hex.choose_spec.1 hb (hex.choose_spec.2.trans hn.symm)
      simp only [m, dif_pos hex, heq]
  · rw [(damaged_eq_false.mp (h.intact i)).2]
    constructor
    · exact entryName_ne_nil
    · exact fun hne hzero => hne (entryName_eq_nil hzero)
  · exact (damaged_eq_false.mp (h.intact i)).1

theorem SameElsewhere.refl (p : RegistryPayload) (w : Option SlotIndex) : SameElsewhere p p w :=
  fun _ _ => ⟨rfl, rfl⟩

/-- A store to slot `i` by the call that writes slot `i`. -/
theorem SameElsewhere.write (h : SameElsewhere p₀ p w) (hw : w = none ∨ w = some i)
    (hq : SameElsewhere p q (some i)) : SameElsewhere p₀ q (some i) := by
  intro j hj
  have hwj : w ≠ some j := by
    rcases hw with rfl | rfl
    · exact nofun
    · exact hj
  obtain ⟨hs, hb⟩ := hq j hj
  obtain ⟨hs₀, hb₀⟩ := h j hwj
  exact ⟨hs.trans hs₀, hb.trans hb₀⟩

theorem sameElsewhere_setSlot (p : RegistryPayload) (i : SlotIndex) (slot : RegistryEntry) :
    SameElsewhere p (p.setSlot i slot) (some i) := by
  intro j hj
  have hne : j ≠ i := fun h => hj (congrArg some h.symm)
  exact ⟨slots_setSlot_of_ne slot hne, rfl⟩

theorem sameElsewhere_setBit (p : RegistryPayload) (i : SlotIndex) :
    SameElsewhere p (p.setBit i) (some i) := by
  intro j hj
  have hne : j ≠ i := fun h => hj (congrArg some h.symm)
  exact ⟨rfl, by simp [hne]⟩

theorem sameElsewhere_clearBit (p : RegistryPayload) (i : SlotIndex) :
    SameElsewhere p (p.clearBit i) (some i) := by
  intro j hj
  have hne : j ≠ i := fun h => hj (congrArg some h.symm)
  exact ⟨rfl, by simp [hne]⟩

theorem scanned_initial (p : RegistryPayload) :
    Scanned p (List.finRange maxRegistryEntries) 0 :=
  ⟨[], List.nil_append _, rfl⟩

theorem Scanned.next (h : Scanned p (i :: rest) count) :
    Scanned p rest (if p.bitIsSet i then count + 1 else count) := by
  obtain ⟨done, hdone, hcount⟩ := h
  refine ⟨done ++ [i], by rw [List.append_assoc, List.singleton_append, hdone], ?_⟩
  rw [List.countP_append, List.countP_singleton]
  cases hb : p.bitIsSet i with
  | false => simpa using hcount
  | true =>
    have hle : done.countP (fun i => p.bitIsSet i) ≤ maxRegistryEntries := by
      have hlen := congrArg List.length hdone
      rw [List.length_append, List.length_finRange] at hlen
      exact List.countP_le_length.trans (by omega)
    simp only [if_true, UInt32.toNat_add, UInt32.reduceToNat, hcount, maxRegistryEntries] at hle ⊢
    omega

theorem Scanned.clear (h : Scanned p (i :: rest) count) :
    Scanned (p.clearBit i) rest count := by
  obtain ⟨done, hdone, hcount⟩ := h
  have hnodup : (done ++ i :: rest).Nodup := hdone ▸ List.nodup_finRange _
  obtain ⟨-, -, hdisjoint⟩ := List.nodup_append.mp hnodup
  refine ⟨done ++ [i], by rw [List.append_assoc, List.singleton_append, hdone], ?_⟩
  rw [List.countP_append, hcount, List.countP_singleton, if_neg (by simp), Nat.add_zero]
  refine List.countP_congr fun j hj => ?_
  have hne : j ≠ i := hdisjoint j hj i List.mem_cons_self
  simp [hne]

/-- At the end of the scan the count is that of the occupied slots. -/
theorem Scanned.counted (h : Scanned p [] count) : CountsBits { p with countStorage := count } := by
  obtain ⟨done, hdone, hcount⟩ := h
  rw [List.append_nil] at hdone
  have hoccupied : p.occupied = (done.filter fun i => p.bitIsSet i).toFinset := by
    ext i
    simp [RegistryPayload.occupied, hdone]
  have hnodup : done.Nodup := hdone ▸ List.nodup_finRange _
  show count.toNat = p.occupied.card
  rw [hcount, hoccupied, List.toFinset_card_of_nodup (hnodup.filter _),
    List.countP_eq_length_filter]

theorem Scanned.of_bits (h : Scanned p rest count)
    (hb : ∀ i, q.bitIsSet i = p.bitIsSet i) : Scanned q rest count := by
  obtain ⟨done, hdone, hcount⟩ := h
  exact ⟨done, hdone, by simpa only [hb] using hcount⟩

theorem name_of_sameContent {e e' : RegistryEntry} (h : e.SameContent e') : e.name = e'.name := by
  funext i
  exact UInt8.toNat_inj.mp (h (.name i) (by simp))

theorem settled_of_copied {entry : RegistryEntry} (hb : p.bitIsSet i = true)
    (heven : (p.slots i).seqStorage &&& 1 = 0) (hfresh : Fresh S p₀ i entry)
    (hsame : (p.slots i).SameContent entry) : Settled S p₀ p i := by
  have hname := name_of_sameContent hsame
  have hview : entryName (p.slots i) = entryName entry := congrArg fixedNameView hname
  refine ⟨?_, fun _ => ⟨⟨entry, hfresh.registered, hsame⟩, ?_⟩⟩
  · rw [damaged_eq_false, hname, hb]
    exact ⟨heven, ⟨fun _ => hfresh.named, fun _ => rfl⟩⟩
  · rw [hview]
    exact hfresh.unused

/-- After a finished copy the slot shows an odd word, or no name, or is the new entry. -/
theorem recoverable_of_copied {source : RegistryEntry} {removing : Bool}
    (hb : p.bitIsSet i = true) (hsource : Publishable S p₀ i source removing)
    (hsame : (p.slots i).SameContent source) : Recoverable S p₀ p i := by
  by_cases heven : (p.slots i).seqStorage &&& 1 = 0
  · cases removing with
    | true =>
      refine .inl (damaged_of_unnamed hb ?_)
      rw [name_of_sameContent hsame, hsource]
      rfl
    | false => exact .inr (settled_of_copied hb heven hsource hsame)
  · exact .inl (damaged_of_odd heven)

theorem publish_step {start : RegistryPayload} {removing : Bool} {pc pc' : PublishPc}
    {slot : RegistryEntry} (h : CrashInv S ⟨p, .publish i removing pc, start, w⟩)
    (hs : PublishStep (p.slots i) pc .tau slot pc') :
    CrashInv S ⟨p.setSlot i slot, .publish i removing pc', start, some i⟩ := by
  obtain ⟨hstart, helse, hb, hc, hloaded, hphase⟩ := h
  have hwrite (hw : w = none ∨ w = some i) : SameElsewhere start (p.setSlot i slot) (some i) :=
    helse.write hw (sameElsewhere_setSlot p i slot)
  cases hs with
  | storeOdd =>
    refine ⟨hstart, hwrite (hphase.imp_right And.left), hb, hc, hloaded, rfl, ?_, fun _ => ?_⟩
    · intro f hf
      exact absurd (Finset.mem_univ f) hf
    · rw [slots_setSlot_self]
      exact add_one_odd hloaded.1
  | @copyField source s todo f hf =>
    obtain ⟨hw, hdone, hodd⟩ := hphase
    refine ⟨hstart, hwrite (.inr hw), hb, hc, hloaded, rfl, ?_, fun htodo => ?_⟩
    · intro g hg
      rw [slots_setSlot_self, RegistryEntry.value_copyField]
      split
      · rfl
      · rename_i hne
        exact hdone g fun hmem => hg (Finset.mem_erase.mpr ⟨hne, hmem⟩)
    · obtain ⟨hne, hmem⟩ := Finset.mem_erase.mp htodo
      rw [slots_setSlot_self, RegistryEntry.copyField_seqStorage _ _ (Ne.symm hne)]
      exact hodd hmem
  | copyDone =>
    obtain ⟨hw, hdone, -⟩ := hphase
    refine ⟨hstart, hwrite (.inr hw), hb, hc, hloaded, rfl, fun f _ => ?_⟩
    rw [slots_setSlot_self]
    exact hdone f (Finset.notMem_empty f)
  | restoreSeq =>
    obtain ⟨hw, hsame⟩ := hphase
    refine ⟨hstart, hwrite (.inr hw), hb, hc, hloaded, rfl, fun f hf => ?_, ?_⟩
    · rw [slots_setSlot_self, RegistryEntry.value_setSeq _ _ hf]
      exact hsame f hf
    · rw [slots_setSlot_self]
      exact add_one_odd hloaded.1

theorem published_step {start : RegistryPayload} {removing : Bool} {pc : PublishPc}
    {source slot : RegistryEntry} (h : CrashInv S ⟨p, .publish i removing pc, start, w⟩)
    (hs : PublishStep (p.slots i) pc (.published source) slot .idle) :
    CrashInv S ⟨p.setSlot i slot, if removing then .clearBit i else .leaving, start, some i⟩ := by
  obtain ⟨hstart, helse, hb, hc, hloaded, hphase⟩ := h
  cases hs with
  | @storeEven _ s =>
    obtain ⟨hw, hsame, -⟩ := hphase
    have heven : (s + 2) &&& 1 = 0 := add_two_even hloaded.1
    have hcopied : ((p.slots i).setSeq (s + 2)).SameContent source := fun f hf => by
      rw [RegistryEntry.value_setSeq _ _ hf]
      exact hsame f hf
    refine ⟨hstart, helse.write (.inr hw) (sameElsewhere_setSlot p i _), ?_⟩
    cases removing with
    | true =>
      refine ⟨rfl, hb, ?_, ?_, hc⟩
      · rw [slots_setSlot_self, name_of_sameContent hcopied, hloaded.2]
        rfl
      · rw [slots_setSlot_self]
        exact heven
    | false =>
      refine ⟨fun t ht => ?_, hc⟩
      cases ht
      refine settled_of_copied hb ?_ hloaded.2 ?_
      · rw [slots_setSlot_self]
        exact heven
      · rw [slots_setSlot_self]
        exact hcopied

/-- What a writer leaves where it may die is for the recovery to put right. -/
theorem recoverable_of_phase (h : CrashPhase S c) (hok : DeathShown c .died) (hf : c.pc ≠ .free)
    (ha : c.pc ≠ .abandoned) (hw : c.writing = some t) :
    Recoverable S c.start c.payload t := by
  obtain ⟨p, pc, start, w⟩ := c
  cases pc with
  | free => exact absurd rfl hf
  | abandoned => exact absurd rfl ha
  | locked => exact .inr (h.1 t hw)
  | leaving => exact .inr (h.1 t hw)
  | subCount => exact .inr (h.1 t hw)
  | setBit i entry => cases h.1.symm.trans hw
  | addCount i entry =>
    obtain ⟨hi, hb, hname, -⟩ := h
    cases hi.symm.trans hw
    exact .inl (damaged_of_unnamed hb hname)
  | clearBit i =>
    obtain ⟨hi, hb, hname, -⟩ := h
    cases hi.symm.trans hw
    exact .inl (damaged_of_unnamed hb hname)
  | recover rest count =>
    rcases h.2 t hw with hs | ⟨-, hd⟩
    · exact .inr hs
    · exact .inl hd
  | publish i removing pc =>
    obtain ⟨hb, -, hloaded, hphase⟩ := h
    cases pc with
    | idle => exact hphase.elim
    | storeOdd source s =>
      rcases hphase with hnone | ⟨hi, hname⟩
      · cases hnone.symm.trans hw
      · cases hi.symm.trans hw
        exact .inl (damaged_of_unnamed hb hname)
    | copy source s todo =>
      obtain ⟨hi, hdone, -⟩ := hphase
      cases hi.symm.trans hw
      rcases hok t todo rfl with rfl | hodd | hname
      · exact recoverable_of_copied hb hloaded.2 fun f _ => hdone f (Finset.notMem_empty f)
      · exact .inl (damaged_of_odd hodd)
      · exact .inl (damaged_of_unnamed hb hname)
    | restoreSeq source s =>
      cases hphase.1.symm.trans hw
      exact recoverable_of_copied hb hloaded.2 hphase.2
    | storeEven source s =>
      cases hphase.1.symm.trans hw
      exact .inl (damaged_of_odd hphase.2.2)
  | clear i rest count pc =>
    obtain ⟨hi, -, hphase⟩ := h
    cases hi.symm.trans hw
    cases pc with
    | storeOdd s => exact .inl hphase
    | copy s todo =>
      rcases hok t todo rfl with rfl | hodd | hname
      · exact recoverable_of_unnamed (hphase.1 (Finset.notMem_empty _))
      · exact .inl (damaged_of_odd hodd)
      · exact recoverable_of_unnamed hname
    | storeEven s => exact recoverable_of_unnamed hphase
    | clearBit => exact recoverable_of_unnamed hphase.1

theorem name_eq_zero_iff {e : RegistryEntry} : e.name 0 = 0 ↔ e.value (.name 0) = 0 :=
  UInt8.toNat_inj.symm

theorem clear_step {start : RegistryPayload} {pc pc' : ClearPc} {slot : RegistryEntry}
    (h : CrashInv S ⟨p, .clear i rest count pc, start, w⟩)
    (hs : ClearStep (p.slots i) pc slot pc') :
    CrashInv S ⟨p.setSlot i slot, .clear i rest count pc', start, w⟩ := by
  obtain ⟨hstart, helse, rfl, hscan, hphase⟩ := h
  have helse' := helse.write (.inr rfl) (sameElsewhere_setSlot p i slot)
  refine ⟨hstart, helse', rfl, hscan.of_bits fun j => ?_, ?_⟩
  · simp
  cases hs with
  | storeOdd =>
    refine ⟨fun hmem => absurd (Finset.mem_univ _) hmem, fun _ => ?_⟩
    rw [slots_setSlot_self]
    exact or_one_odd _
  | @copyField s todo f hf =>
    refine ⟨fun hmem => ?_, fun hmem => ?_⟩
    · rw [slots_setSlot_self, name_eq_zero_iff, RegistryEntry.value_copyField]
      split
      · rfl
      · rename_i hne
        exact name_eq_zero_iff.mp (hphase.1 fun h => hmem (Finset.mem_erase.mpr ⟨hne, h⟩))
    · obtain ⟨hne, hmem⟩ := Finset.mem_erase.mp hmem
      rw [slots_setSlot_self, RegistryEntry.copyField_seqStorage _ _ (Ne.symm hne)]
      exact hphase.2 hmem
  | copyDone =>
    show ((p.setSlot i _).slots i).name 0 = 0
    rw [slots_setSlot_self]
    exact hphase.1 (Finset.notMem_empty _)
  | storeEven =>
    refine ⟨?_, ?_⟩
    · rw [slots_setSlot_self]
      exact hphase
    · rw [slots_setSlot_self]
      exact and_not_one_even _

theorem RegistrySound.even (h : RegistrySound S p) (i : SlotIndex) :
    (p.slots i).seqStorage &&& 1 = 0 :=
  (damaged_eq_false.mp (h.intact i)).1

theorem RegistrySound.unnamed (h : RegistrySound S p) (hb : p.bitIsSet i = false) :
    (p.slots i).name 0 = 0 := by
  by_contra hname
  have hset := (damaged_eq_false.mp (h.intact i)).2.mpr hname
  rw [hb] at hset
  cases hset

/-- The slot the search of `register_segment` finds has the name of the entry. -/
theorem RegistrySound.found (h : RegistrySound S p) {entry : RegistryEntry}
    (hloop : p.registerLoop (entryName entry) (List.finRange maxRegistryEntries) none = .inl i) :
    p.bitIsSet i = true ∧ entryName (p.slots i) = entryName entry := by
  rcases registerLoop_spec p (entryName entry) (List.finRange maxRegistryEntries) none with
    ⟨j, -, hj, hb, hnamed⟩ | ⟨-, hj⟩
  · cases hj.symm.trans hloop
    exact ⟨hb, (named_iff_of_even (h.even i)).mp hnamed⟩
  · cases hj.symm.trans hloop

/-- The free slot it finds instead is free, and no slot has the name. -/
theorem RegistrySound.free (h : RegistrySound S p) {entry : RegistryEntry}
    (hloop : p.registerLoop (entryName entry) (List.finRange maxRegistryEntries) none =
      .inr (some i)) :
    p.bitIsSet i = false ∧
      ∀ j, p.bitIsSet j = true → entryName (p.slots j) ≠ entryName entry := by
  rcases registerLoop_spec p (entryName entry) (List.finRange maxRegistryEntries) none with
    ⟨j, -, hj, -⟩ | ⟨hnone, hj⟩
  · cases hj.symm.trans hloop
  · have hfind := Sum.inr.inj (hj.symm.trans hloop)
    rw [Option.none_or] at hfind
    refine ⟨by simpa using List.find?_some hfind, fun j hb hname => ?_⟩
    have hfalse := hnone j (List.mem_finRange j) hb
    rw [(named_iff_of_even (h.even j)).mpr hname] at hfalse
    cases hfalse

/-- A process that has not stored anything leaves a sound registry to the next one. -/
theorem RegistrySound.crashInv_leaving (h : RegistrySound S p) :
    CrashInv S ⟨p, .leaving, p, none⟩ :=
  ⟨h, .refl _ _, nofun, h.counted⟩

theorem replace_step {entry : RegistryEntry} (h : RegistrySound S p)
    (hloop : p.registerLoop (entryName entry) (List.finRange maxRegistryEntries) none = .inl i)
    (hS : entry ∈ S) (hname : entry.name 0 ≠ 0) :
    CrashInv S ⟨p, .publish i false (.storeOdd entry (p.slots i).seqStorage), p, none⟩ := by
  obtain ⟨hb, hfound⟩ := h.found hloop
  have hfresh : Fresh S p i entry := by
    refine ⟨hS, hname, fun j hj hbj he => ?_⟩
    exact hj (h.distinct j i hbj hb (he.trans hfound.symm))
  exact ⟨h, .refl _ _, hb, h.counted, ⟨h.even i, hfresh⟩, .inl rfl⟩

theorem insert_step {entry : RegistryEntry} (h : RegistrySound S p)
    (hloop : p.registerLoop (entryName entry) (List.finRange maxRegistryEntries) none =
      .inr (some i)) (hS : entry ∈ S) (hname : entry.name 0 ≠ 0) :
    CrashInv S ⟨p, .setBit i entry, p, none⟩ := by
  obtain ⟨hb, hunused⟩ := h.free hloop
  exact ⟨h, .refl _ _, rfl, hb, h.counted, hS, hname, fun j _ => hunused j⟩

theorem remove_step {name : Name} (h : RegistrySound S p)
    (hfind : (List.finRange maxRegistryEntries).find? (fun i => p.bitIsSet i && p.named i name) =
      some i) :
    CrashInv S ⟨p, .publish i true (.storeOdd zeroEntry (p.slots i).seqStorage), p, none⟩ := by
  have hfound := List.find?_some hfind
  rw [Bool.and_eq_true] at hfound
  exact ⟨h, .refl _ _, hfound.1, h.counted, ⟨h.even i, rfl⟩, .inl rfl⟩

theorem setBit_step {start : RegistryPayload} {entry : RegistryEntry}
    (h : CrashInv S ⟨p, .setBit i entry, start, w⟩) :
    CrashInv S ⟨p.setBit i, .addCount i entry, start, some i⟩ := by
  obtain ⟨hstart, helse, rfl, hb, hc, hfresh⟩ := h
  have hp : RegistrySound S p := sound_of_settled hstart helse nofun hc
  refine ⟨hstart, helse.write (.inl rfl) (sameElsewhere_setBit p i), rfl, by simp, ?_, ?_, ?_,
    hfresh⟩
  · exact hp.unnamed hb
  · exact hp.even i
  · exact count_setBit hb hc

theorem clearBit_step {start : RegistryPayload} (h : CrashInv S ⟨p, .clearBit i, start, w⟩) :
    CrashInv S ⟨p.clearBit i, .subCount, start, w⟩ := by
  obtain ⟨hstart, helse, rfl, hb, hname, heven, hc⟩ := h
  refine ⟨hstart, helse.write (.inr rfl) (sameElsewhere_clearBit p i), fun t ht => ?_,
    count_clearBit hb hc⟩
  cases ht
  exact settled_of_cleared hname heven

theorem cleared_step {start : RegistryPayload}
    (h : CrashInv S ⟨p, .clear i rest count .clearBit, start, w⟩) :
    CrashInv S ⟨p.clearBit i, .recover rest count, start, w⟩ := by
  obtain ⟨hstart, helse, rfl, hscan, hname, heven⟩ := h
  refine ⟨hstart, helse.write (.inr rfl) (sameElsewhere_clearBit p i), hscan, fun t ht => ?_⟩
  cases ht
  exact .inl (settled_of_cleared hname heven)

/-- Only the slot of the dead writer needs a recovery. -/
theorem CrashInv.writing_of_damaged (h : CrashInv S c) (hd : c.payload.damaged i = true) :
    c.writing = some i := by
  by_contra hne
  obtain ⟨hs, hb⟩ := h.elsewhere i hne
  have hsound := h.start.intact i
  rw [damaged_eq_false, ← hs, ← hb, ← damaged_eq_false, hd] at hsound
  cases hsound

theorem damaged_step {start : RegistryPayload}
    (h : CrashInv S ⟨p, .recover (i :: rest) count, start, w⟩) (hd : p.damaged i = true) :
    CrashInv S ⟨p, .clear i rest count (.storeOdd (p.slots i).seqStorage), start, w⟩ := by
  have hw := h.writing_of_damaged hd
  obtain ⟨hstart, helse, hscan, -⟩ := h
  exact ⟨hstart, helse, hw, hscan.clear, hd⟩

theorem intact_step {start : RegistryPayload}
    (h : CrashInv S ⟨p, .recover (i :: rest) count, start, w⟩) (hd : p.damaged i = false) :
    CrashInv S ⟨p, .recover rest (if p.bitIsSet i then count + 1 else count), start, w⟩ := by
  obtain ⟨hstart, helse, hscan, hslot⟩ := h
  refine ⟨hstart, helse, hscan.next, fun t hw => ?_⟩
  rcases hslot t hw with hs | ⟨hmem, hdt⟩
  · exact .inl hs
  · rcases List.mem_cons.mp hmem with rfl | hmem
    · cases hd.symm.trans hdt
    · exact .inr ⟨hmem, hdt⟩

theorem recovered_step {start : RegistryPayload}
    (h : CrashInv S ⟨p, .recover [] count, start, w⟩) :
    CrashInv S ⟨{ p with countStorage := count }, .locked, start, w⟩ := by
  obtain ⟨hstart, helse, hscan, hslot⟩ := h
  refine ⟨hstart, helse, fun t hw => ?_, hscan.counted⟩
  rcases hslot t hw with hs | ⟨hmem, -⟩
  · exact hs
  · cases hmem

theorem bitIsSet_zeroPayload (i : SlotIndex) : zeroPayload.bitIsSet i = false := by
  simp [zeroPayload, RegistryPayload.bitIsSet, Bitmap.test]

theorem sound_zeroPayload : RegistrySound S zeroPayload := by
  refine ⟨fun i => ?_, fun i hb => ?_, fun i j hb => ?_, registryInv_zeroPayload.count⟩
  · rw [damaged_eq_false, bitIsSet_zeroPayload]
    exact ⟨show (0 : UInt32) &&& 1 = 0 by decide, nofun, fun h => absurd rfl h⟩
  · cases (bitIsSet_zeroPayload i).symm.trans hb
  · cases (bitIsSet_zeroPayload i).symm.trans hb

theorem crashInv_initial : CrashInv S .initial :=
  ⟨sound_zeroPayload, .refl _ _, nofun, registryInv_zeroPayload.count⟩

theorem crashInv_step {e : CrashEvent} (h : CrashInv S c) (hs : CrashStep c e d)
    (hok : DeathShown c e) (hS : ∀ entry, e = .registering entry → entry ∈ S) :
    CrashInv S d := by
  have hsound : (c.pc = .free ∨ c.pc = .locked) → RegistrySound S c.payload := by
    obtain ⟨hstart, helse, hphase⟩ := h
    obtain ⟨p, pc, start, w⟩ := c
    rintro (rfl | rfl)
    · exact sound_of_settled hstart helse hphase.1 hphase.2
    · exact sound_of_settled hstart helse hphase.1 hphase.2
  cases hs with
  | lock =>
    have hp := hsound (.inl rfl)
    exact ⟨hp, .refl _ _, nofun, hp.counted⟩
  | replace hloop => exact replace_step (hsound (.inr rfl)) hloop (hS _ rfl) hok.1
  | insert hloop => exact insert_step (hsound (.inr rfl)) hloop (hS _ rfl) hok.1
  | full => exact (hsound (.inr rfl)).crashInv_leaving
  | remove hfind => exact remove_step (hsound (.inr rfl)) hfind
  | absent => exact (hsound (.inr rfl)).crashInv_leaving
  | list => exact ⟨h.start, h.elsewhere, h.phase⟩
  | setBit => exact setBit_step h
  | addCount =>
    obtain ⟨hstart, helse, hw, hb, hname, heven, hc, hfresh⟩ := h
    exact ⟨hstart, helse, hb, hc, ⟨heven, hfresh⟩, .inr ⟨hw, hname⟩⟩
  | publish hstep => exact publish_step h hstep
  | published hstep => exact published_step h hstep
  | clearBit => exact clearBit_step h
  | subCount => exact ⟨h.start, h.elsewhere, h.phase⟩
  | unlock => exact ⟨h.start, h.elsewhere, h.phase⟩
  | die hf ha =>
    have hslot := fun t => recoverable_of_phase (t := t) h.phase hok hf ha
    exact ⟨h.start, h.elsewhere, hslot⟩
  | takeOver =>
    refine ⟨h.start, h.elsewhere, scanned_initial _, fun t hw => ?_⟩
    rcases h.phase t hw with hd | hs
    · exact .inr ⟨List.mem_finRange t, hd⟩
    · exact .inl hs
  | damaged hd => exact damaged_step h hd
  | intact hd => exact intact_step h hd
  | clear hstep => exact clear_step h hstep
  | cleared => exact cleared_step h
  | recovered => exact recovered_step h

theorem crashInv_run {as : List CrashEvent}
    (hr : Run (Guarded DeathShown CrashStep) .initial as c)
    (hS : ∀ entry, .registering entry ∈ as → entry ∈ S) : CrashInv S c := by
  induction hr with
  | nil => exact crashInv_initial
  | snoc _ hs ih =>
    refine crashInv_step (ih fun entry h => hS entry (List.mem_append_left _ h)) hs.2 hs.1 ?_
    rintro entry rfl
    exact hS entry (List.mem_append_right _ (List.mem_singleton_self _))

theorem recovered_crashInv {as : List CrashEvent}
    (hr : Run (Guarded DeathShown CrashStep) .initial (as ++ [.recovered]) c) :
    RegistrySound {entry | .registering entry ∈ as} c.payload ∧
      SameElsewhere c.start c.payload c.writing := by
  have hinv : CrashInv {entry | .registering entry ∈ as} c := by
    refine crashInv_run hr fun entry h => ?_
    simpa using h
  obtain ⟨b, -, -, hs⟩ := hr.unsnoc
  obtain ⟨hstart, helse, hphase⟩ := hinv
  cases hs with
  | recovered => exact ⟨sound_of_settled hstart helse hphase.1 hphase.2, helse⟩

/-- After such a recovery the payload represents a map again. -/
theorem recovered_registryInv {as : List CrashEvent}
    (hr : Run (Guarded DeathShown CrashStep) .initial (as ++ [.recovered]) c) :
    ∃ m, RegistryInv c.payload m :=
  (recovered_crashInv hr).1.exists_map

/-- As long as no process dies where the slot it copies into looks finished, every recovery
leaves whole entries under distinct names, and every slot the dead writer did not write. -/
theorem registry_crash_atomic {as : List CrashEvent}
    (hr : Run (Guarded DeathShown CrashStep) .initial (as ++ [.recovered]) c) :
    CrashAtomic {entry | .registering entry ∈ as} c := by
  obtain ⟨hsound, helse⟩ := recovered_crashInv hr
  exact ⟨hsound.whole, hsound.distinct, helse⟩

/-- A recovery that ends meets the condition: nobody dies in it. -/
theorem recovery_guarded (start : RegistryPayload) (w : Option SlotIndex) (p : RegistryPayload) :
    ∃ n, Run (Guarded DeathShown CrashStep) ⟨p, .abandoned, start, w⟩
      (List.replicate n .tau ++ [.recovered])
      ⟨p.recoverRegistryInvariant, .locked, start, w⟩ := by
  obtain ⟨n, hr⟩ := recovery_run start w p
  refine ⟨n, hr.guard fun bs a cs s s' has _ _ => ?_⟩
  have ha : a ∈ List.replicate n CrashEvent.tau ++ [.recovered] := by simp [has]
  rcases List.mem_append.mp ha with ha | ha
  · rw [List.eq_of_mem_replicate ha]
    trivial
  · rw [List.mem_singleton.mp ha]
    trivial

theorem exists_free (name : Name) :
    ∃ i, zeroPayload.registerLoop name (List.finRange maxRegistryEntries) none = .inr (some i) := by
  rcases registerLoop_spec zeroPayload name (List.finRange maxRegistryEntries) none with
    ⟨i, -, -, hb, -⟩ | ⟨-, hloop⟩
  · cases (bitIsSet_zeroPayload i).symm.trans hb
  · rw [Option.none_or] at hloop
    cases hfind : (List.finRange maxRegistryEntries).find? fun i => !zeroPayload.bitIsSet i with
    | none =>
      have h := List.find?_eq_none.mp hfind ⟨0, by decide⟩ (List.mem_finRange _)
      simp [bitIsSet_zeroPayload] at h
    | some i =>
      rw [hfind] at hloop
      exact ⟨i, hloop⟩

/-- An entry named `a`. -/
def smallEntry : RegistryEntry :=
  { zeroEntry with name := Function.update (fun _ => 0) 0 97, totalSize := 4096 }

theorem smallEntry_wellFormed : (RegistryCall.register smallEntry).WellFormed := by
  refine ⟨?_, 1, ?_⟩
  · decide
  · decide

theorem registering_run : ∃ i,
    Run (Guarded DeathShown CrashStep) .initial [.tau, .registering smallEntry, .tau]
      ⟨zeroPayload.setBit i, .addCount i smallEntry, zeroPayload, some i⟩ := by
  obtain ⟨i, hi⟩ := exists_free (entryName smallEntry)
  have h₁ : Guarded DeathShown CrashStep .initial .tau ⟨zeroPayload, .locked, zeroPayload, none⟩ :=
    ⟨trivial, .lock⟩
  have h₂ : Guarded DeathShown CrashStep ⟨zeroPayload, .locked, zeroPayload, none⟩
      (.registering smallEntry) ⟨zeroPayload, .setBit i smallEntry, zeroPayload, none⟩ :=
    ⟨smallEntry_wellFormed, .insert hi⟩
  exact ⟨i, ((Run.single h₁).snoc h₂).snoc ⟨trivial, .setBit⟩⟩

/-- A registration that dies after `set_bit`. -/
theorem registry_crash_atomic_bit : ∃ as c, .died ∈ as ∧
    Run (Guarded DeathShown CrashStep) .initial (as ++ [.recovered]) c ∧
    CrashAtomic {entry | .registering entry ∈ as} c := by
  obtain ⟨i, hr⟩ := registering_run
  have hdie : Guarded DeathShown CrashStep
      ⟨zeroPayload.setBit i, .addCount i smallEntry, zeroPayload, some i⟩ .died
      ⟨zeroPayload.setBit i, .abandoned, zeroPayload, some i⟩ := by
    refine ⟨fun j todo h => ?_, .die nofun nofun⟩
    cases h
  obtain ⟨n, hrecovery⟩ := recovery_guarded zeroPayload (some i) (zeroPayload.setBit i)
  have hrun := (hr.snoc hdie).append hrecovery
  rw [← List.append_assoc] at hrun
  exact ⟨_, _, by simp, hrun, registry_crash_atomic hrun⟩

/-- A recovery that finds no damage only stores the count. -/
theorem recoverRegistryInvariant_intact (h : ∀ i, p.damaged i = false) :
    p.recoverRegistryInvariant.slots = p.slots ∧
      p.recoverRegistryInvariant.bitmap = p.bitmap := by
  unfold RegistryPayload.recoverRegistryInvariant
  generalize List.finRange maxRegistryEntries = rest
  generalize (0 : UInt32) = count
  induction rest generalizing count with
  | nil => exact ⟨rfl, rfl⟩
  | cons i rest ih =>
    rw [RegistryPayload.recoverLoop, h i]
    exact ih _

/-- The slot after the stores of the word and of one byte of the name. -/
def halfEntry : RegistryEntry :=
  ((zeroEntry.setSeq 1).copyField smallEntry .seqStorage).copyField smallEntry (.name 0)

/-- A registration that dies after these two stores, and `n` accesses of a recovery. -/
def tornLog (n : Nat) : List CrashEvent :=
  [.tau, .registering smallEntry, .tau, .tau, .tau, .tau, .tau, .died] ++ List.replicate n .tau

theorem publish_setSlot {start : RegistryPayload} {removing : Bool} {slot slot' : RegistryEntry}
    {pc pc' : PublishPc} (h : PublishStep slot pc .tau slot' pc') :
    CrashStep ⟨p.setSlot i slot, .publish i removing pc, start, w⟩ .tau
      ⟨p.setSlot i slot', .publish i removing pc', start, some i⟩ := by
  rw [← setSlot_setSlot p i slot slot']
  refine .publish ?_
  rwa [slots_setSlot_self]

theorem halfEntry_run : ∃ i,
    Run CrashStep .initial [.tau, .registering smallEntry, .tau, .tau, .tau, .tau, .tau, .died]
      ⟨(zeroPayload.setBit i).addCount.setSlot i halfEntry, .abandoned, zeroPayload, some i⟩ := by
  obtain ⟨i, hr⟩ := registering_run
  have h₁ := hr.unguard.snoc .addCount
  have h₂ := h₁.snoc (.publish .storeOdd)
  have h₃ := h₂.snoc (publish_setSlot (.copyField (Finset.mem_univ .seqStorage)))
  have h₄ := h₃.snoc (publish_setSlot (.copyField (f := .name 0) (by simp)))
  exact ⟨i, h₄.snoc (.die nofun nofun)⟩

/-- The word of the source is even and the name has begun, so the recovery takes the slot for a
finished one. -/
theorem registry_torn : ∃ i n c, Run CrashStep .initial (tornLog n ++ [.recovered]) c ∧
    c.payload.bitIsSet i = true ∧ c.payload.slots i = halfEntry ∧
    ¬ CrashAtomic {entry | .registering entry ∈ tornLog n} c := by
  obtain ⟨i, hr⟩ := halfEntry_run
  generalize hp : (zeroPayload.setBit i).addCount.setSlot i halfEntry = p at hr
  have hslot : p.slots i = halfEntry := by rw [← hp, slots_setSlot_self]
  have hbit : p.bitIsSet i = true := by simp [← hp]
  have hintact (j : SlotIndex) : p.damaged j = false := by
    by_cases hj : j = i
    · rw [damaged_eq_false, hj, hslot, hbit]
      decide
    · have helse : p.slots j = zeroPayload.slots j ∧ p.bitIsSet j = zeroPayload.bitIsSet j := by
        rw [← hp, slots_setSlot_of_ne halfEntry hj]
        exact ⟨rfl, by simp [hj]⟩
      rw [damaged_eq_false, helse.1, helse.2]
      exact damaged_eq_false.mp ((sound_zeroPayload (S := ∅)).intact j)
  obtain ⟨n, hrecovery⟩ := recovery_run zeroPayload (some i) p
  obtain ⟨hslots, hbits⟩ := recoverRegistryInvariant_intact hintact
  have hslot' : p.recoverRegistryInvariant.slots i = halfEntry := by rw [hslots, hslot]
  have hbit' : p.recoverRegistryInvariant.bitIsSet i = true := by
    rw [RegistryPayload.bitIsSet, hbits]
    exact hbit
  have hrun : Run CrashStep .initial (tornLog n ++ [.recovered])
      ⟨p.recoverRegistryInvariant, .locked, zeroPayload, some i⟩ := by
    rw [tornLog, List.append_assoc]
    exact hr.append hrecovery
  generalize p.recoverRegistryInvariant = q at hrun hslot' hbit'
  refine ⟨i, n, _, hrun, hbit', hslot', fun h => ?_⟩
  obtain ⟨entry, hmem, hsame⟩ := h.whole i hbit'
  obtain rfl : entry = smallEntry := by simpa [tornLog] using hmem
  have hsize := hsame .totalSize (by simp)
  rw [hslot'] at hsize
  cases hsize

end Proofs

end Shmfx
