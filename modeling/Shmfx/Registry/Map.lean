import Mathlib.Data.Set.Card
import Shmfx.Registry.Payload

/-! The registry payload as a finite map from names to entries. -/
namespace Shmfx

open Lts

/-- The abstract registry: entries by name, their seqlock word zeroed. -/
abbrev EntryMap := Name → Option RegistryEntry

/-- The number of names present. -/
noncomputable def EntryMap.size (m : EntryMap) : Nat := {name | m name ≠ none}.ncard

def RegistryEntry.content (e : RegistryEntry) : RegistryEntry := e.setSeq 0

inductive RegistryCall
  | register (entry : RegistryEntry)
  | unregister (name : Name)
  | list (start : Name)

inductive RegistryReply
  | done (error : Option ErrorCode)
  | listed (entries : List RegistryEntry)
  deriving DecidableEq

/-- Entries come with a NUL-terminated, non-empty name. -/
def RegistryCall.WellFormed : RegistryCall → Prop
  | .register entry => entry.name 0 ≠ 0 ∧ ∃ i, entry.name i = 0
  | .unregister _ | .list _ => True

def registryCall (p : RegistryPayload) : RegistryCall → RegistryReply × RegistryPayload
  | .register entry => (.done (errorOf (p.registerSegment entry).1), (p.registerSegment entry).2)
  | .unregister name => (.done (errorOf (p.unregister name).1), (p.unregister name).2)
  | .list start => (.listed (p.list start), p)

/-- A call with its reply, run on the payload. -/
def RegistryStep (p : RegistryPayload) (a : RegistryCall × RegistryReply) (q : RegistryPayload) :
    Prop := registryCall p a.1 = (a.2, q)

/-- A call with its reply, on the map. -/
inductive MapStep (m : EntryMap) : RegistryCall × RegistryReply → EntryMap → Prop
  | insert {entry : RegistryEntry}
      (h : m (entryName entry) ≠ none ∨ m.size < maxRegistryEntries) :
      MapStep m (.register entry, .done none)
        (Function.update m (entryName entry) (some entry.content))
  | full {entry : RegistryEntry} (h : m (entryName entry) = none)
      (hs : m.size = maxRegistryEntries) :
      MapStep m (.register entry, .done (some .quotaExceeded)) m
  | delete {name : Name} (h : m name ≠ none) :
      MapStep m (.unregister name, .done none) (Function.update m name none)
  | absent {name : Name} (h : m name = none) :
      MapStep m (.unregister name, .done (some .notFound)) m
  | list {start : Name} {entries : List RegistryEntry} (hn : (entries.map entryName).Nodup)
      (h : ∀ e, e ∈ entries.map RegistryEntry.content ↔ ∃ name, m name = some e ∧ start <+: name) :
      MapStep m (.list start, .listed entries) m

def RegistryPayload.occupied (p : RegistryPayload) : Finset SlotIndex :=
  Finset.univ.filter fun i => p.bitIsSet i = true

/-- The payload represents the map, and its four views agree. -/
structure RegistryInv (p : RegistryPayload) (m : EntryMap) : Prop where
  represents : ∀ name e, m name = some e ↔
    ∃ i, p.bitIsSet i = true ∧ entryName (p.slots i) = name ∧ (p.slots i).content = e
  bit_iff : ∀ i, p.bitIsSet i = true ↔ entryName (p.slots i) ≠ []
  unique : ∀ i j, p.bitIsSet i = true → p.bitIsSet j = true →
    entryName (p.slots i) = entryName (p.slots j) → i = j
  even : ∀ i, (p.slots i).seqStorage &&& 1 = 0
  count : p.countStorage.toNat = p.occupied.card

variable {p q : RegistryPayload} {m : EntryMap} {entry : RegistryEntry} {name start : Name}
  {i j : SlotIndex}

theorem snapshotSlot_even {slot : RegistryEntry} (h : slot.seqStorage &&& 1 = 0) :
    snapshotSlot slot = some slot := by
  simp [snapshotSlot, snapshotRetries, snapshotLoop, h]

@[simp] theorem bitIsSet_setBit : (p.setBit i).bitIsSet j = (decide (j = i) || p.bitIsSet j) := by
  simp [RegistryPayload.bitIsSet, RegistryPayload.setBit, Bitmap.test_set, Fin.ext_iff]

@[simp] theorem bitIsSet_clearBit :
    (p.clearBit i).bitIsSet j = (decide (j ≠ i) && p.bitIsSet j) := by
  simp [RegistryPayload.bitIsSet, RegistryPayload.clearBit, Bitmap.test_clear, Fin.ext_iff]

@[simp] theorem bitIsSet_addCount : p.addCount.bitIsSet j = p.bitIsSet j := rfl

@[simp] theorem bitIsSet_subCount : p.subCount.bitIsSet j = p.bitIsSet j := rfl

@[simp] theorem bitIsSet_publish : (p.publish i entry).bitIsSet j = p.bitIsSet j := rfl

theorem slots_publish : (p.publish i entry).slots j =
    if j = i then publishSlot (p.slots i) entry else p.slots j := by
  simp [RegistryPayload.publish, Function.update_apply]

@[simp] theorem entryName_publishSlot (slot source : RegistryEntry) :
    entryName (publishSlot slot source) = entryName source := rfl

@[simp] theorem content_publishSlot (slot source : RegistryEntry) :
    (publishSlot slot source).content = source.content := rfl

theorem publishSlot_even {slot source : RegistryEntry} (h : slot.seqStorage &&& 1 = 0) :
    (publishSlot slot source).seqStorage &&& 1 = 0 :=
  add_two_even h

theorem entryName_ne_nil (h : entry.name 0 ≠ 0) : entryName entry ≠ [] := by
  rw [entryName, fixedNameView, List.ofFn_succ, List.takeWhile_cons_of_pos (by simpa using h)]
  exact List.cons_ne_nil _ _

theorem entryName_eq_nil (h : entry.name 0 = 0) : entryName entry = [] := by
  rw [entryName, fixedNameView, List.ofFn_succ, List.takeWhile_cons_of_neg (by simpa using h)]

theorem entryName_zeroEntry : entryName zeroEntry = [] :=
  entryName_eq_nil rfl

theorem named_iff_of_even (h : (p.slots i).seqStorage &&& 1 = 0) :
    p.named i name = true ↔ entryName (p.slots i) = name := by
  simp [RegistryPayload.named, snapshotSlot_even h, entryNameEquals]

theorem RegistryInv.named_iff (h : RegistryInv p m) :
    p.named i name = true ↔ entryName (p.slots i) = name :=
  named_iff_of_even (h.even i)

theorem RegistryInv.present_iff (h : RegistryInv p m) :
    m name ≠ none ↔ ∃ i, p.bitIsSet i = true ∧ entryName (p.slots i) = name := by
  rw [Option.ne_none_iff_exists']
  constructor
  · rintro ⟨e, he⟩
    obtain ⟨i, hb, hn, -⟩ := (h.represents name e).mp he
    exact ⟨i, hb, hn⟩
  · rintro ⟨i, hb, hn⟩
    exact ⟨_, (h.represents name _).mpr ⟨i, hb, hn, rfl⟩⟩

/-- Distinct occupied slots hold distinct names, so the map has one name per set bit. -/
theorem RegistryInv.size_eq (h : RegistryInv p m) : m.size = p.occupied.card := by
  have hset : {name | m name ≠ none} =
      (fun i => entryName (p.slots i)) '' (p.occupied : Set SlotIndex) := by
    ext name
    simp [RegistryPayload.occupied, h.present_iff]
  have hinj : Set.InjOn (fun i => entryName (p.slots i)) (p.occupied : Set SlotIndex) := by
    intro i hi j hj he
    exact h.unique i j (by simpa [RegistryPayload.occupied] using hi)
      (by simpa [RegistryPayload.occupied] using hj) he
  rw [EntryMap.size, hset, hinj.ncard_image, Set.ncard_coe_finset]

theorem size_empty : EntryMap.size (fun _ => none) = 0 := by
  simp [EntryMap.size]

theorem size_single (name : Name) (entry : RegistryEntry) :
    EntryMap.size (Function.update (fun _ => none) name (some entry)) = 1 := by
  have hone : {name' | Function.update (fun _ => none) name (some entry) name' ≠ none} =
      {name} := by
    ext name'
    simp [Function.update_apply]
  rw [EntryMap.size, hone, Set.ncard_singleton]

theorem RegistryPayload.occupied_card_le (p : RegistryPayload) :
    p.occupied.card ≤ maxRegistryEntries := by
  simpa using Finset.card_le_univ p.occupied

/-- The search loop finds the slot of the name or, if no slot has it, the first free one. -/
theorem registerLoop_spec (p : RegistryPayload) (name : Name) (is : List SlotIndex)
    (free : Option SlotIndex) :
    (∃ i ∈ is, p.registerLoop name is free = .inl i ∧ p.bitIsSet i = true ∧
      p.named i name = true) ∨
    ((∀ i ∈ is, p.bitIsSet i = true → p.named i name = false) ∧
      p.registerLoop name is free = .inr (free.or (is.find? fun i => !p.bitIsSet i))) := by
  induction is generalizing free with
  | nil => exact .inr ⟨by simp, by simp [RegistryPayload.registerLoop]⟩
  | cons i is ih =>
    cases hb : p.bitIsSet i with
    | false =>
      rcases ih (free.or (some i)) with ⟨j, hj, hloop, hset, hname⟩ | ⟨hnone, hloop⟩
      · refine .inl ⟨j, List.mem_cons_of_mem i hj, ?_, hset, hname⟩
        simpa [RegistryPayload.registerLoop, hb] using hloop
      · refine .inr ⟨?_, ?_⟩
        · intro j hj hset
          rcases List.mem_cons.mp hj with rfl | hj
          · simp [hb] at hset
          · exact hnone j hj hset
        · rw [RegistryPayload.registerLoop, if_neg (by simp [hb]), hloop,
            List.find?_cons_of_pos (by simp [hb])]
          cases free <;> rfl
    | true =>
      cases hname : p.named i name with
      | true =>
        refine .inl ⟨i, List.mem_cons_self, ?_, hb, hname⟩
        simp [RegistryPayload.registerLoop, hb, hname]
      | false =>
        rcases ih free with ⟨j, hj, hloop, hset, hname'⟩ | ⟨hnone, hloop⟩
        · refine .inl ⟨j, List.mem_cons_of_mem i hj, ?_, hset, hname'⟩
          simpa [RegistryPayload.registerLoop, hb, hname] using hloop
        · refine .inr ⟨?_, ?_⟩
          · intro j hj hset
            rcases List.mem_cons.mp hj with rfl | hj
            · exact hname
            · exact hnone j hj hset
          · simp [RegistryPayload.registerLoop, hb, hname, hloop]

/-- The map after slot `i` is published with `source`. -/
def RegistryPayload.rewritten (p : RegistryPayload) (m : EntryMap) (i : SlotIndex)
    (source : RegistryEntry) : EntryMap := fun name =>
  if name = entryName source ∧ name ≠ [] then some source.content
  else if p.bitIsSet i = true ∧ entryName (p.slots i) = name then none
  else m name

/-- All three writing calls: one slot republished, its bit following its name, the count the
bits. -/
theorem RegistryInv.rewrite (h : RegistryInv p m) {source : RegistryEntry}
    (hbit : ∀ j, q.bitIsSet j = true ↔ if j = i then entryName source ≠ [] else p.bitIsSet j = true)
    (hslot : ∀ j, q.slots j = if j = i then publishSlot (p.slots i) source else p.slots j)
    (hcount : q.countStorage.toNat = q.occupied.card)
    (hfresh : ∀ j, j ≠ i → p.bitIsSet j = true → entryName (p.slots j) ≠ entryName source) :
    RegistryInv q (p.rewritten m i source) where
  represents name e := by
    unfold RegistryPayload.rewritten
    constructor
    · intro hm
      split at hm
      · rename_i hname
        refine ⟨i, (hbit i).mpr (by simpa [← hname.1] using hname.2), ?_, ?_⟩
        · simp [hslot, hname.1]
        · simpa [hslot] using hm
      · split at hm
        · contradiction
        · rename_i hold
          obtain ⟨j, hb, hn, hc⟩ := (h.represents name e).mp hm
          have hj : j ≠ i := by
            rintro rfl
            exact hold ⟨hb, hn⟩
          exact ⟨j, by simpa [hbit, hj] using hb, by simpa [hslot, hj] using hn,
            by simpa [hslot, hj] using hc⟩
    · rintro ⟨j, hb, hn, hc⟩
      by_cases hj : j = i
      · subst hj
        simp only [hbit, hslot, if_true, entryName_publishSlot, content_publishSlot] at hb hn hc
        rw [if_pos ⟨hn.symm, hn ▸ hb⟩, hc]
      · simp only [hbit, hslot, hj, if_false] at hb hn hc
        have hsource : name ≠ entryName source := hn ▸ hfresh j hj hb
        have hother : ¬ (p.bitIsSet i = true ∧ entryName (p.slots i) = name) := by
          rintro ⟨hbi, hni⟩
          exact hj (h.unique j i hb hbi (hn.trans hni.symm))
        rw [if_neg fun hs => hsource hs.1, if_neg hother]
        exact (h.represents name e).mpr ⟨j, hb, hn, hc⟩
  bit_iff j := by
    by_cases hj : j = i
    · simp [hbit, hslot, hj]
    · simp [hbit, hslot, hj, h.bit_iff j]
  unique j k hj hk he := by
    by_cases hji : j = i <;> by_cases hki : k = i <;> simp only [hbit, hslot, hji, hki, if_true,
      if_false, entryName_publishSlot] at hj hk he
    · rw [hji, hki]
    · exact absurd he.symm (hfresh k hki hk)
    · exact absurd he (hfresh j hji hj)
    · exact h.unique j k hj hk he
  even j := by
    by_cases hj : j = i
    · simpa [hslot, hj] using publishSlot_even (h.even i)
    · simpa [hslot, hj] using h.even j
  count := hcount

theorem rewritten_eq_update (hne : entryName entry ≠ [])
    (hold : p.bitIsSet i = true → entryName (p.slots i) = entryName entry) :
    p.rewritten m i entry = Function.update m (entryName entry) (some entry.content) := by
  funext name
  rw [RegistryPayload.rewritten, Function.update_apply]
  by_cases hn : name = entryName entry
  · rw [if_pos ⟨hn, hn ▸ hne⟩, if_pos hn]
  · rw [if_neg fun h => hn h.1, if_neg hn, if_neg]
    rintro ⟨hb, he⟩
    exact hn (he.symm.trans (hold hb))

theorem rewritten_zeroEntry (hb : p.bitIsSet i = true) :
    p.rewritten m i zeroEntry = Function.update m (entryName (p.slots i)) none := by
  funext name
  rw [RegistryPayload.rewritten, Function.update_apply, entryName_zeroEntry,
    if_neg fun h => h.2 h.1]
  by_cases hn : name = entryName (p.slots i)
  · rw [if_pos ⟨hb, hn.symm⟩, if_pos hn]
  · rw [if_neg fun h => hn h.2.symm, if_neg hn]

theorem RegistryInv.replace (h : RegistryInv p m) (hne : entryName entry ≠ [])
    (hb : p.bitIsSet i = true) (hn : entryName (p.slots i) = entryName entry) :
    RegistryInv (p.publish i entry)
      (Function.update m (entryName entry) (some entry.content)) := by
  rw [← rewritten_eq_update hne fun _ => hn]
  refine h.rewrite ?_ (fun _ => slots_publish) h.count ?_
  · intro j
    by_cases hj : j = i
    · simp [hj, hb, hne]
    · simp [hj]
  · intro j hj hbj he
    exact hj (h.unique j i hbj hb (he.trans hn.symm))

theorem occupied_setBit (hb : p.bitIsSet i = false) :
    (p.setBit i).occupied.card = p.occupied.card + 1 := by
  have hset : (p.setBit i).occupied = insert i p.occupied := by
    ext j
    simp [RegistryPayload.occupied]
  rw [hset, Finset.card_insert_of_notMem (by simp [RegistryPayload.occupied, hb])]

theorem occupied_clearBit (hb : p.bitIsSet i = true) :
    (p.clearBit i).occupied.card = p.occupied.card - 1 := by
  have hset : (p.clearBit i).occupied = p.occupied.erase i := by
    ext j
    simp [RegistryPayload.occupied]
  rw [hset, Finset.card_erase_of_mem (by simp [RegistryPayload.occupied, hb])]

/-- The count follows the bitmap when a slot is taken. -/
theorem count_setBit (hb : p.bitIsSet i = false) (h : p.countStorage.toNat = p.occupied.card) :
    (p.setBit i).addCount.countStorage.toNat = (p.setBit i).occupied.card := by
  have hcard := occupied_setBit hb
  have hle := (p.setBit i).occupied_card_le
  show (p.countStorage + 1).toNat = (p.setBit i).occupied.card
  simp only [UInt32.toNat_add, UInt32.reduceToNat, maxRegistryEntries] at hle ⊢
  omega

/-- The count follows the bitmap when a slot is given back. -/
theorem count_clearBit (hb : p.bitIsSet i = true) (h : p.countStorage.toNat = p.occupied.card) :
    (p.clearBit i).subCount.countStorage.toNat = (p.clearBit i).occupied.card := by
  have hcard := occupied_clearBit hb
  have hle := p.occupied_card_le
  have hpos : 0 < p.occupied.card :=
    Finset.card_pos.mpr ⟨i, by simp [RegistryPayload.occupied, hb]⟩
  show (p.countStorage - 1).toNat = (p.clearBit i).occupied.card
  simp only [UInt32.toNat_sub, UInt32.reduceToNat, maxRegistryEntries] at hle ⊢
  omega

theorem RegistryInv.insert (h : RegistryInv p m) (hne : entryName entry ≠ [])
    (hb : p.bitIsSet i = false) (habs : m (entryName entry) = none) :
    RegistryInv ((p.setBit i).addCount.publish i entry)
      (Function.update m (entryName entry) (some entry.content)) := by
  rw [← rewritten_eq_update (p := p) (i := i) hne (by simp [hb])]
  refine h.rewrite ?_ (fun _ => slots_publish) (count_setBit hb h.count) ?_
  · intro j
    by_cases hj : j = i
    · simp [hj, hne]
    · simp [hj]
  · intro j _ hbj he
    exact h.present_iff.mpr ⟨j, hbj, he⟩ habs

theorem RegistryInv.delete (h : RegistryInv p m) (hb : p.bitIsSet i = true) :
    RegistryInv ((p.publish i zeroEntry).clearBit i).subCount
      (Function.update m (entryName (p.slots i)) none) := by
  rw [← rewritten_zeroEntry hb]
  refine h.rewrite ?_ (fun _ => slots_publish) (count_clearBit hb h.count) ?_
  · intro j
    by_cases hj : j = i
    · simp [hj, entryName_zeroEntry]
    · simp [hj]
  · intro j _ hbj he
    rw [entryName_zeroEntry] at he
    exact (h.bit_iff j).mp hbj he

theorem RegistryInv.register (h : RegistryInv p m) (hne : entryName entry ≠ []) :
    ∃ m', MapStep m (.register entry, (registryCall p (.register entry)).1) m' ∧
      RegistryInv (registryCall p (.register entry)).2 m' := by
  rcases registerLoop_spec p (entryName entry) (List.finRange maxRegistryEntries) none with
    ⟨i, -, hloop, hb, hnamed⟩ | ⟨hnone, hloop⟩
  · have hn := h.named_iff.mp hnamed
    have hcall : p.registerSegment entry = (.ok (), p.publish i entry) := by
      unfold RegistryPayload.registerSegment
      rw [hloop]
    simp only [registryCall, hcall, errorOf]
    exact ⟨_, .insert (.inl (h.present_iff.mpr ⟨i, hb, hn⟩)), h.replace hne hb hn⟩
  · have habs : m (entryName entry) = none := by
      by_contra hm
      obtain ⟨i, hb, hn⟩ := h.present_iff.mp hm
      have := hnone i (List.mem_finRange i) hb
      simp [h.named_iff.mpr hn] at this
    rw [Option.none_or] at hloop
    cases hfree : (List.finRange maxRegistryEntries).find? fun i => !p.bitIsSet i with
    | none =>
      rw [hfree] at hloop
      have hcall : p.registerSegment entry = (.error .quotaExceeded, p) := by
        unfold RegistryPayload.registerSegment
        rw [hloop]
      have hall : p.occupied = Finset.univ := by
        ext i
        simpa [RegistryPayload.occupied] using List.find?_eq_none.mp hfree i (List.mem_finRange i)
      simp only [registryCall, hcall, errorOf]
      refine ⟨m, .full habs ?_, h⟩
      rw [h.size_eq, hall, Finset.card_univ, Fintype.card_fin]
    | some i =>
      rw [hfree] at hloop
      have hb : p.bitIsSet i = false := by simpa using List.find?_some hfree
      have hcall : p.registerSegment entry = (.ok (), (p.setBit i).addCount.publish i entry) := by
        unfold RegistryPayload.registerSegment
        rw [hloop]
      have hroom : m.size < maxRegistryEntries := by
        rw [h.size_eq]
        have := occupied_setBit hb
        have := (p.setBit i).occupied_card_le
        omega
      simp only [registryCall, hcall, errorOf]
      exact ⟨_, .insert (.inr hroom), h.insert hne hb habs⟩

theorem RegistryInv.unregister (h : RegistryInv p m) (name : Name) :
    ∃ m', MapStep m (.unregister name, (registryCall p (.unregister name)).1) m' ∧
      RegistryInv (registryCall p (.unregister name)).2 m' := by
  cases hfind : (List.finRange maxRegistryEntries).find? fun i =>
      p.bitIsSet i && p.named i name with
  | none =>
    have hcall : p.unregister name = (.error .notFound, p) := by
      unfold RegistryPayload.unregister
      rw [hfind]
    have habs : m name = none := by
      by_contra hm
      obtain ⟨i, hb, hn⟩ := h.present_iff.mp hm
      have := List.find?_eq_none.mp hfind i (List.mem_finRange i)
      simp [hb, h.named_iff.mpr hn] at this
    simp only [registryCall, hcall, errorOf]
    exact ⟨m, .absent habs, h⟩
  | some i =>
    have hcall : p.unregister name = (.ok (), ((p.publish i zeroEntry).clearBit i).subCount) := by
      unfold RegistryPayload.unregister
      rw [hfind]
    have hi := List.find?_some hfind
    simp only [Bool.and_eq_true] at hi
    obtain ⟨hb, hnamed⟩ := hi
    obtain rfl := h.named_iff.mp hnamed
    simp only [registryCall, hcall, errorOf]
    exact ⟨_, .delete (h.present_iff.mpr ⟨i, hb, rfl⟩), h.delete hb⟩

theorem RegistryInv.register_ok (h : RegistryInv p m) (hne : entryName entry ≠ [])
    (hreg : p.registerSegment entry = (.ok (), q)) :
    RegistryInv q (Function.update m (entryName entry) (some entry.content)) := by
  obtain ⟨m', hstep, hinv⟩ := h.register hne
  simp only [registryCall, hreg, errorOf] at hstep hinv
  cases hstep with
  | insert => exact hinv

/-- A registry with room takes every named entry. -/
theorem RegistryInv.registered (h : RegistryInv p m) (hne : entryName entry ≠ [])
    (hroom : m.size < maxRegistryEntries) : ∃ q, p.registerSegment entry = (.ok (), q) := by
  obtain ⟨m', hstep, -⟩ := h.register hne
  simp only [registryCall] at hstep
  generalize p.registerSegment entry = reply at hstep
  obtain ⟨_ | _, q⟩ := reply
  · cases hstep with
    | full _ hfull => omega
  · exact ⟨q, rfl⟩

/-- `register_segment` makes the entry its name's, or does nothing. -/
theorem RegistryInv.register_cases (h : RegistryInv p m) (hne : entryName entry ≠ []) :
    ∃ m', RegistryInv (p.registerSegment entry).2 m' ∧
      (m' = m ∨ m' = Function.update m (entryName entry) (some entry.content)) := by
  obtain ⟨m', hstep, hinv⟩ := h.register hne
  simp only [registryCall] at hstep hinv
  refine ⟨m', hinv, ?_⟩
  generalize errorOf (p.registerSegment entry).1 = reply at hstep
  cases hstep with
  | insert => exact .inr rfl
  | full => exact .inl rfl

/-- After `unregister` the name is absent, whatever it reported. -/
theorem RegistryInv.unregistered (h : RegistryInv p m) (name : Name) :
    RegistryInv (p.unregister name).2 (Function.update m name none) := by
  obtain ⟨m', hstep, hinv⟩ := h.unregister name
  simp only [registryCall] at hstep hinv
  generalize errorOf (p.unregister name).1 = reply at hstep
  cases hstep with
  | delete => exact hinv
  | absent hm =>
    rw [← hm, Function.update_eq_self]
    exact hinv

theorem RegistryInv.listSlot_eq_some (h : RegistryInv p m) {e : RegistryEntry} :
    p.listSlot start i = some e ↔
      p.bitIsSet i = true ∧ start <+: entryName (p.slots i) ∧ p.slots i = e := by
  have hsnap : (snapshotSlot (p.slots i)).getD (p.slots i) = p.slots i := by
    rw [snapshotSlot_even (h.even i), Option.getD_some]
  have hstart : (start = [] ∨ (entryName (p.slots i)).take start.length = start) ↔
      start <+: entryName (p.slots i) := by
    rw [List.prefix_iff_eq_take]
    constructor
    · rintro (rfl | hs)
      · rfl
      · exact hs.symm
    · exact fun hs => .inr hs.symm
  cases hb : p.bitIsSet i with
  | false => simp [RegistryPayload.listSlot, hb]
  | true => simp [RegistryPayload.listSlot, hb, hsnap, hstart]

theorem RegistryInv.list (h : RegistryInv p m) (start : Name) :
    MapStep m (.list start, .listed (p.list start)) m := by
  apply MapStep.list
  · rw [RegistryPayload.list, List.map_filterMap]
    refine List.Nodup.filterMap ?_ (List.nodup_finRange _)
    intro i j name hi hj
    simp only [Option.mem_def, Option.map_eq_some_iff, h.listSlot_eq_some] at hi hj
    obtain ⟨_, ⟨hbi, -, rfl⟩, hni⟩ := hi
    obtain ⟨_, ⟨hbj, -, rfl⟩, hnj⟩ := hj
    exact h.unique i j hbi hbj (hni.trans hnj.symm)
  · intro e
    simp only [RegistryPayload.list, List.mem_map, List.mem_filterMap, List.mem_finRange, true_and,
      h.listSlot_eq_some, h.represents]
    constructor
    · rintro ⟨_, ⟨i, hb, hs, rfl⟩, rfl⟩
      exact ⟨_, ⟨i, hb, rfl, rfl⟩, hs⟩
    · rintro ⟨_, ⟨i, hb, rfl, rfl⟩, hs⟩
      exact ⟨_, ⟨i, hb, hs, rfl⟩, rfl⟩

theorem registryInv_zeroPayload : RegistryInv zeroPayload fun _ => none where
  represents name e := by simp [zeroPayload, RegistryPayload.bitIsSet, Bitmap.test]
  bit_iff i := by simp [zeroPayload, RegistryPayload.bitIsSet, Bitmap.test, entryName_zeroEntry]
  unique i j h := by simp [zeroPayload, RegistryPayload.bitIsSet, Bitmap.test] at h
  even _ := show (0 : UInt32) &&& 1 = 0 by decide
  count := by simp [zeroPayload, RegistryPayload.occupied, RegistryPayload.bitIsSet, Bitmap.test]

theorem key_of_content {e e' : RegistryEntry} (h : e.content = e'.content) :
    entryName e = entryName e' ∧ e.totalSize = e'.totalSize :=
  ⟨show entryName e.content = entryName e'.content from congrArg _ h,
    show e.content.totalSize = e'.content.totalSize from congrArg _ h⟩

/-- Entries stand under their own names. -/
theorem RegistryInv.entryName_eq (h : RegistryInv p m) {e : RegistryEntry}
    (hm : m name = some e.content) : entryName e = name := by
  obtain ⟨i, -, rfl, hcontent⟩ := (h.represents name _).mp hm
  exact (key_of_content hcontent).1.symm

/-- The list shows every entry of the map with the given start once. -/
theorem RegistryInv.mem_list (h : RegistryInv p m) (start : Name) :
    ((p.list start).map entryName).Nodup ∧
      ∀ e, e ∈ (p.list start).map RegistryEntry.content ↔
        ∃ name, m name = some e ∧ start <+: name := by
  have hlist := h.list start
  generalize p.list start = entries at hlist ⊢
  cases hlist with
  | list hn hmem => exact ⟨hn, hmem⟩

theorem RegistryInv.listed (h : RegistryInv p m) :
    ((p.list []).map entryName).Nodup ∧
      (∀ e ∈ p.list [], m (entryName e) = some e.content) ∧
      ∀ name e, m name = some e → ∃ old ∈ p.list [], old.content = e := by
  obtain ⟨hn, hmem⟩ := h.mem_list []
  refine ⟨hn, ?_, ?_⟩
  · intro e he
    obtain ⟨name, hname, -⟩ := (hmem e.content).mp (List.mem_map_of_mem he)
    obtain rfl : entryName e = name := h.entryName_eq hname
    exact hname
  · intro name e he
    exact List.mem_map.mp ((hmem e).mpr ⟨name, he, List.nil_prefix⟩)

theorem list_zeroPayload : zeroPayload.list [] = [] := by
  refine List.eq_nil_iff_forall_not_mem.mpr fun e he => ?_
  cases registryInv_zeroPayload.listed.2.1 e he

theorem RegistryInv.listed_single {name : Name} {entry : RegistryEntry}
    (h : RegistryInv p (Function.update (fun _ => none) name (some entry))) :
    ∀ e ∈ p.list [], entryName e = name := by
  intro e he
  by_contra hne
  have hlisted := h.listed.2.1 e he
  rw [Function.update_of_ne hne] at hlisted
  cases hlisted

/-- The entry of a name stands in the list that its own name selects. -/
theorem RegistryInv.find_name (h : RegistryInv p m) (name : Name) :
    ((p.list name).find? fun entry => entryName entry == name).map RegistryEntry.content =
      m name := by
  have hlist := h.list name
  generalize p.list name = entries at hlist ⊢
  cases hlist with
  | list hn hmem =>
    cases hfind : entries.find? fun entry => entryName entry == name with
    | none =>
      cases hm : m name with
      | none => rfl
      | some e =>
        obtain ⟨old, hold, rfl⟩ := List.mem_map.mp ((hmem e).mpr ⟨name, hm, List.prefix_rfl⟩)
        have hname : entryName old = name := h.entryName_eq hm
        have hother := List.find?_eq_none.mp hfind old hold
        rw [hname, beq_self_eq_true] at hother
        exact absurd rfl hother
    | some old =>
      have hname : entryName old = name := by simpa using List.find?_some hfind
      obtain ⟨other, hm, -⟩ :=
        (hmem old.content).mp (List.mem_map_of_mem (List.mem_of_find?_eq_some hfind))
      obtain rfl : entryName old = other := h.entryName_eq hm
      exact (hname ▸ hm).symm

theorem registryInv_step {a : RegistryCall × RegistryReply} (h : RegistryInv p m)
    (hw : a.1.WellFormed) (hs : RegistryStep p a q) :
    ∃ m', MapStep m a m' ∧ RegistryInv q m' := by
  obtain ⟨call, reply⟩ := a
  obtain ⟨rfl, rfl⟩ : (registryCall p call).1 = reply ∧ (registryCall p call).2 = q :=
    Prod.ext_iff.mp hs
  cases call with
  | register entry => exact h.register (entryName_ne_nil hw.1)
  | unregister name => exact h.unregister name
  | list start => exact ⟨m, h.list start, h⟩

theorem registryStep_reply {call : RegistryCall} {reply : RegistryReply}
    (h : (registryCall p call).1 = reply) : RegistryStep p (call, reply) (registryCall p call).2 :=
  Prod.ext h rfl

theorem registryCall_failed {call : RegistryCall} {e : ErrorCode}
    (h : registryCall p call = (.done (some e), q)) : q = p := by
  cases call with
  | register entry =>
    simp only [registryCall, Prod.mk.injEq, RegistryReply.done.injEq] at h
    obtain ⟨he, rfl⟩ := h
    unfold RegistryPayload.registerSegment at he ⊢
    split at he <;> simp_all [errorOf]
  | unregister name =>
    simp only [registryCall, Prod.mk.injEq, RegistryReply.done.injEq] at h
    obtain ⟨he, rfl⟩ := h
    unfold RegistryPayload.unregister at he ⊢
    split at he <;> simp_all [errorOf]
  | list start => simp [registryCall] at h

/-- Every run of calls on the zeroed payload is a run of the map with the same replies, ends in a
payload that represents the map, and leaves the payload alone when a call fails. -/
theorem registry_refines_map {log : List (RegistryCall × RegistryReply)}
    (hrun : Run RegistryStep zeroPayload log p) (hw : ∀ a ∈ log, a.1.WellFormed) :
    (∃ m, Run MapStep (fun _ => none) log m ∧ RegistryInv p m ∧ m.size ≤ maxRegistryEntries) ∧
      ∀ call e q, registryCall p call = (.done (some e), q) → q = p := by
  obtain ⟨m, hm, hinv⟩ := hrun.simulate registryInv_zeroPayload
    (fun _ _ (a : RegistryCall × RegistryReply) _ h (ha : a.1.WellFormed) hs =>
      registryInv_step h ha hs) hw
  refine ⟨⟨m, hm, hinv, ?_⟩, fun _ _ _ => registryCall_failed⟩
  rw [hinv.size_eq]
  exact p.occupied_card_le

/-- One entry registered, removed, and missed at the second removal. -/
theorem registry_refines_map_one_entry : ∃ p m,
    Run RegistryStep zeroPayload
      [(.register { zeroEntry with name := fun i => if i = 0 then 47 else 0 }, .done none),
        (.unregister [47], .done none), (.unregister [47], .done (some .notFound))] p ∧
      RegistryInv p m := by
  let e : RegistryEntry := { zeroEntry with name := fun i => if i = 0 then 47 else 0 }
  let p₁ := (registryCall zeroPayload (.register e)).2
  let p₂ := (registryCall p₁ (.unregister [47])).2
  have h₁ : RegistryStep zeroPayload (.register e, .done none) p₁ :=
    registryStep_reply (by decide +kernel)
  have h₂ : RegistryStep p₁ (.unregister [47], .done none) p₂ :=
    registryStep_reply (by decide +kernel)
  have h₃ := registryStep_reply
    (show (registryCall p₂ (.unregister [47])).1 = .done (some .notFound) by decide +kernel)
  have hrun := ((Run.single h₁).snoc h₂).snoc h₃
  obtain ⟨⟨m, -, hinv, -⟩, -⟩ := registry_refines_map hrun (by
    simp [RegistryCall.WellFormed, e]
    exact ⟨1, by decide⟩)
  exact ⟨_, m, hrun, hinv⟩

end Shmfx
