import Shmfx.Registry.CrashAtomic

/-! `recover_registry_invariant` on an arbitrary image of the registry. -/
namespace Shmfx

/-- What a recovery makes of the image `p`. -/
structure RecoveredFrom (p q : RegistryPayload) : Prop where
  even : ∀ i, (q.slots i).seqStorage &&& 1 = 0
  named : ∀ i, q.bitIsSet i = true ↔ entryName (q.slots i) ≠ []
  counted : q.countStorage.toNat = q.occupied.card
  kept : ∀ i, (p.slots i).seqStorage &&& 1 = 0 →
    (p.bitIsSet i = true ↔ entryName (p.slots i) ≠ []) →
    q.slots i = p.slots i ∧ q.bitIsSet i = p.bitIsSet i

section Proofs

variable {p q : RegistryPayload} {i j : SlotIndex} {rest : List SlotIndex} {count : UInt32}

theorem name_ne_zero_iff {entry : RegistryEntry} : entry.name 0 ≠ 0 ↔ entryName entry ≠ [] :=
  ⟨entryName_ne_nil, fun h h0 => h (entryName_eq_nil h0)⟩

theorem damaged_congr (hs : q.slots i = p.slots i) (hb : q.bitIsSet i = p.bitIsSet i) :
    q.damaged i = p.damaged i := by
  simp only [RegistryPayload.damaged, hs, hb]

/-- A cleared slot passes the test that its predecessor failed. -/
theorem damaged_clearSlot (p : RegistryPayload) (i : SlotIndex) :
    (p.clearSlotForRecovery i).damaged i = false := by
  have hslot : (p.clearSlotForRecovery i).slots i =
      zeroEntry.setSeq (((p.slots i).seqStorage + 2) &&& ~~~1) :=
    slots_setSlot_self p i _
  rw [damaged_eq_false, hslot]
  refine ⟨and_not_one_even _, ?_⟩
  simp [RegistryPayload.clearSlotForRecovery, RegistryEntry.setSeq, zeroEntry]

/-- Clearing a slot touches no other slot, and of the bitmap no other bit. -/
theorem clearSlot_elsewhere (h : j ≠ i) :
    (p.clearSlotForRecovery i).slots j = p.slots j ∧
      (p.clearSlotForRecovery i).bitIsSet j = p.bitIsSet j := by
  refine ⟨slots_setSlot_of_ne _ h, ?_⟩
  simp [RegistryPayload.clearSlotForRecovery, h]

/-- The loop leaves alone what it does not visit, and what it visits undamaged. -/
theorem recoverLoop_kept (h : j ∉ rest ∨ p.damaged j = false) :
    (p.recoverLoop rest count).slots j = p.slots j ∧
      (p.recoverLoop rest count).bitIsSet j = p.bitIsSet j := by
  induction rest generalizing p count with
  | nil => exact ⟨rfl, rfl⟩
  | cons i rest ih =>
    rw [RegistryPayload.recoverLoop]
    split
    · rename_i hd
      have hne : j ≠ i := by
        rintro rfl
        rcases h with h | h
        · exact h List.mem_cons_self
        · exact Bool.false_ne_true (h.symm.trans hd)
      obtain ⟨hslot, hbit⟩ := clearSlot_elsewhere (p := p) hne
      have hrest : j ∉ rest ∨ (p.clearSlotForRecovery i).damaged j = false := by
        rw [damaged_congr hslot hbit]
        exact h.imp_left fun h => fun hmem => h (List.mem_cons_of_mem i hmem)
      rw [← hslot, ← hbit]
      exact ih hrest
    · exact ih (h.imp_left fun h => fun hmem => h (List.mem_cons_of_mem i hmem))

/-- After its turn a slot is undamaged, and the rest of the loop leaves it so. -/
theorem recoverLoop_visited (h : j ∈ rest) : (p.recoverLoop rest count).damaged j = false := by
  induction rest generalizing p count with
  | nil => cases h
  | cons i rest ih =>
    have hkept {q : RegistryPayload} {count : UInt32} (hd : q.damaged j = false) :
        (q.recoverLoop rest count).damaged j = false := by
      have hrest : j ∉ rest ∨ q.damaged j = false := .inr hd
      obtain ⟨hslot, hbit⟩ := recoverLoop_kept hrest
      rw [damaged_congr hslot hbit, hd]
    rw [RegistryPayload.recoverLoop]
    rcases List.mem_cons.mp h with rfl | hmem
    · split
      · exact hkept (damaged_clearSlot p j)
      · rename_i hd
        exact hkept (Bool.not_eq_true _ ▸ hd)
    · split
      · exact ih hmem
      · exact ih hmem

theorem recoverLoop_counted (h : Scanned p rest count) :
    CountsBits (p.recoverLoop rest count) := by
  induction rest generalizing p count with
  | nil => exact h.counted
  | cons i rest ih =>
    rw [RegistryPayload.recoverLoop]
    split
    · refine ih ?_
      have hbits (k : SlotIndex) : (p.clearSlotForRecovery i).bitIsSet k =
          (p.clearBit i).bitIsSet k := by
        simp [RegistryPayload.clearSlotForRecovery]
      exact h.clear.of_bits hbits
    · exact ih h.next

theorem recovered_undamaged (p : RegistryPayload) (i : SlotIndex) :
    p.recoverRegistryInvariant.damaged i = false :=
  recoverLoop_visited (List.mem_finRange i)

theorem recovered_kept (h : p.damaged i = false) :
    p.recoverRegistryInvariant.slots i = p.slots i ∧
      p.recoverRegistryInvariant.bitIsSet i = p.bitIsSet i := by
  unfold RegistryPayload.recoverRegistryInvariant
  generalize List.finRange maxRegistryEntries = rest
  exact recoverLoop_kept (.inr h)

/-- A damaged slot that the loop visits is free afterwards. -/
theorem recoverLoop_cleared (h : j ∈ rest) (hd : p.damaged j = true) :
    (p.recoverLoop rest count).bitIsSet j = false := by
  induction rest generalizing p count with
  | nil => cases h
  | cons i rest ih =>
    rw [RegistryPayload.recoverLoop]
    by_cases hij : j = i
    · subst hij
      rw [if_pos hd]
      have hkept : ((p.clearSlotForRecovery j).recoverLoop rest count).bitIsSet j =
          (p.clearSlotForRecovery j).bitIsSet j :=
        (recoverLoop_kept (.inr (damaged_clearSlot p j))).2
      rw [hkept]
      simp [RegistryPayload.clearSlotForRecovery]
    · have hmem := (List.mem_cons.mp h).resolve_left hij
      split
      · obtain ⟨hslot, hbit⟩ := clearSlot_elsewhere (p := p) hij
        exact ih hmem ((damaged_congr hslot hbit).trans hd)
      · exact ih hmem hd

theorem recovered_cleared (h : p.damaged i = true) :
    p.recoverRegistryInvariant.bitIsSet i = false :=
  recoverLoop_cleared (List.mem_finRange i) h

theorem recovered_counted (p : RegistryPayload) : CountsBits p.recoverRegistryInvariant :=
  recoverLoop_counted (scanned_initial p)

/-- On an undamaged image with the right count a recovery has nothing to do. -/
theorem recoverRegistryInvariant_eq (hd : ∀ i, p.damaged i = false) (hc : CountsBits p) :
    p.recoverRegistryInvariant = p := by
  obtain ⟨hslots, hbitmap⟩ := recoverRegistryInvariant_intact hd
  have hoccupied : p.recoverRegistryInvariant.occupied = p.occupied := by
    unfold RegistryPayload.occupied RegistryPayload.bitIsSet
    rw [hbitmap]
  have hcount : p.recoverRegistryInvariant.countStorage = p.countStorage := by
    apply UInt32.toNat_inj.mp
    rw [recovered_counted p, hoccupied, hc]
  cases hq : p.recoverRegistryInvariant with
  | mk count bitmap slots =>
    rw [hq] at hslots hbitmap hcount
    cases p
    cases hslots
    cases hbitmap
    cases hcount
    rfl

/-- Whatever the image, one recovery repairs it, keeps what was sound, and leaves nothing for a
second one. -/
theorem recovery_any_image (p : RegistryPayload) :
    RecoveredFrom p p.recoverRegistryInvariant ∧
      p.recoverRegistryInvariant.recoverRegistryInvariant = p.recoverRegistryInvariant := by
  refine ⟨⟨fun i => ?_, fun i => ?_, recovered_counted p, fun i heven hnamed => ?_⟩, ?_⟩
  · exact (damaged_eq_false.mp (recovered_undamaged p i)).1
  · exact (damaged_eq_false.mp (recovered_undamaged p i)).2.trans name_ne_zero_iff
  · have hd : p.damaged i = false :=
      damaged_eq_false.mpr ⟨heven, hnamed.trans name_ne_zero_iff.symm⟩
    exact recovered_kept hd
  · exact recoverRegistryInvariant_eq (recovered_undamaged p) (recovered_counted p)

end Proofs

end Shmfx
