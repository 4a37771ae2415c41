import Mathlib.Data.List.Infix
import Shmfx.Registry.Listing

/-! What `Registry::list` may return, and what it cannot miss, while others register and
unregister. -/
namespace Shmfx

open Lts

variable {start name : Name} {p q : RegistryPayload} {w : WriterPc} {c d : ListConfig}
  {e : ListEvent} {log : List ListEvent} {i j : SlotIndex} {entry slot : RegistryEntry}

/-- An entry with a name that starts with the filter, and that a `register_segment` has
published. -/
structure Genuine (start : Name) (log : List ListEvent) (entry : RegistryEntry) : Prop where
  named : entryName entry ≠ []
  filtered : start <+: entryName entry
  registered : ∃ source, .registered source ∈ log ∧ entry.SameContent source

/-- The call stands before its copy of a slot in which there is no entry: it is not yet published,
or has been emptied, though its bit was set. -/
def ListConfig.Unfilled (c : ListConfig) : Prop :=
  match c.reader with
  | .fetch i _ _ _ | .copy i _ => entryName (c.payload.slots i) = []
  | _ => False

/-- A filter is given, or slots are filled when the call comes to copy them. -/
def CopiesFilled (start : Name) (c : ListConfig) (_ : ListEvent) : Prop :=
  start ≠ [] ∨ ¬ c.Unfilled

/-- With a name comes a `register_segment` that has published the entry. -/
def Sourced (log : List ListEvent) (entry : RegistryEntry) : Prop :=
  entryName entry ≠ [] → ∃ source, .registered source ∈ log ∧ entry.SameContent source

section Phantoms

theorem isPrefix_of_kept (h : entry ∈ kept start slot) :
    entry = slot ∧ start <+: entryName slot := by
  unfold kept startsWith at h
  split at h
  · rename_i hs
    refine ⟨List.mem_singleton.mp h, ?_⟩
    rcases (Bool.or_eq_true _ _).mp hs with hnil | htake
    · rw [of_decide_eq_true hnil]
      exact List.nil_prefix
    · exact List.prefix_iff_eq_take.mpr (of_decide_eq_true htake).symm
  · cases h

/-- A recovery leaves a slot as it is or without a name. -/
theorem recovered_slot (p : RegistryPayload) (i : SlotIndex) :
    p.recoverRegistryInvariant.slots i = p.slots i ∨
      entryName (p.recoverRegistryInvariant.slots i) = [] := by
  cases hd : p.damaged i with
  | false => exact .inl (recovered_kept hd).1
  | true =>
    have hbit := recovered_cleared hd
    have hnamed := (recovery_any_image p).1.named i
    refine .inr (not_not.mp fun hne => ?_)
    rw [hnamed.mpr hne] at hbit
    cases hbit

/-- A step of a writer leaves a slot as it is, takes its name, or publishes there. -/
theorem writer_slot {q : RegistryPayload} {w' : WriterPc} (h : WriterStep p w e q w')
    (i : SlotIndex) :
    q.slots i = p.slots i ∨ entryName (q.slots i) = [] ∨
      ∃ source, e = .registered source ∧ (q.slots i).SameContent source := by
  cases h with
  | @publish source k =>
    rw [slots_publish]
    split
    · exact .inr (.inr ⟨source, rfl, RegistryEntry.sameContent_iff.mpr rfl⟩)
    · exact .inl rfl
  | empty =>
    rw [slots_publish]
    split
    · exact .inr (.inl entryName_zeroEntry)
    · exact .inl rfl
  | @damaged k rest count hd =>
    by_cases hi : i = k
    · subst hi
      rw [slots_setSlot_self]
      exact .inr (.inl (entryName_eq_nil rfl))
    · exact .inl (slots_setSlot_of_ne _ hi)
  | _ => exact .inl rfl

theorem list_slot (h : ListStep start c e d) (i : SlotIndex) :
    d.payload.slots i = c.payload.slots i ∨ entryName (d.payload.slots i) = [] ∨
      ∃ source, e = .registered source ∧ (d.payload.slots i).SameContent source := by
  have hrecovered := recovered_slot c.payload i
  cases h with
  | write hw => exact writer_slot hw i
  | @recover p =>
    generalize p.recoverRegistryInvariant = q at hrecovered ⊢
    exact hrecovered.imp_right .inl
  | @unmarked p =>
    generalize p.recoverRegistryInvariant = q at hrecovered ⊢
    exact hrecovered.imp_right .inl
  | _ => exact .inl rfl

/-- The call takes what it held, or what a slot holds, or nothing. -/
theorem taken_step (h : ListStep start c e d) :
    d.taken = c.taken ∨ (∃ i, d.taken = d.payload.slots i) ∨ d.taken = zeroEntry := by
  cases h with
  | @write p p' w w' e r =>
    cases r with
    | copy i => exact .inr (.inl ⟨i, rfl⟩)
    | _ => exact .inl rfl
  | @fetch p w i => exact .inr (.inl ⟨i, rfl⟩)
  | @lock p i => exact .inr (.inl ⟨i, rfl⟩)
  | @recover p i => exact .inr (.inl ⟨i, rfl⟩)
  | _ => exact .inr (.inr rfl)

theorem Sourced.mono {log' : List ListEvent} (h : Sourced log entry) :
    Sourced (log ++ log') entry := by
  intro hn
  obtain ⟨source, hmem, hsource⟩ := h hn
  exact ⟨source, List.mem_append_left _ hmem, hsource⟩

theorem sourced_of_nil (h : entryName entry = []) : Sourced log entry := fun hn => absurd h hn

/-- Whatever has a name, in the registry or as the call has it, comes from a `register_segment`. -/
theorem sourced_run (hr : Run (ListStep start) (.initial zeroPayload) log c) :
    (∀ i, Sourced log (c.payload.slots i)) ∧ Sourced log c.taken := by
  refine hr.invariant (I := fun log c => (∀ i, Sourced log (c.payload.slots i)) ∧
    Sourced log c.taken) ⟨fun _ => sourced_of_nil entryName_zeroEntry,
      sourced_of_nil entryName_zeroEntry⟩ ?_
  intro log c e d _ ⟨hslots, htaken⟩ hstep
  have hnext : ∀ i, Sourced (log ++ [e]) (d.payload.slots i) := by
    intro i
    rcases list_slot hstep i with hsame | hnil | ⟨source, rfl, hsource⟩
    · rw [hsame]
      exact (hslots i).mono
    · exact sourced_of_nil hnil
    · exact fun _ => ⟨source, List.mem_append_right _ (List.mem_singleton_self _), hsource⟩
  refine ⟨hnext, ?_⟩
  rcases taken_step hstep with hsame | ⟨i, hslot⟩ | hnone
  · rw [hsame]
    exact htaken.mono
  · rw [hslot]
    exact hnext i
  · rw [hnone]
    exact sourced_of_nil entryName_zeroEntry

theorem Genuine.mono {log' : List ListEvent} (h : Genuine start log entry) :
    Genuine start (log ++ log') entry := by
  obtain ⟨source, hmem, hsource⟩ := h.registered
  exact ⟨h.named, h.filtered, source, List.mem_append_left _ hmem, hsource⟩

/-- What a step appends is what it has read. -/
theorem mem_gain (h : entry ∈ e.gain start c) :
    e = .read ∧ entry = c.taken ∧ start <+: entryName c.taken := by
  cases e with
  | read => exact ⟨rfl, isPrefix_of_kept h⟩
  | _ => cases h

/-- The copy that the call checks was made of a filled slot. -/
def CopyFilled (start : Name) (c : ListConfig) : Prop :=
  match c.reader with
  | .check _ _ _ _ snap => start ≠ [] ∨ entryName snap ≠ []
  | _ => True

theorem copyFilled_step (h : Guarded (CopiesFilled start) (ListStep start) c e d)
    (hc : CopyFilled start c) : CopyFilled start d := by
  obtain ⟨hfilled, h⟩ := h
  cases h with
  | write => exact hc
  | fetch => exact hfilled
  | _ => trivial

theorem copyFilled_run
    (hr : Run (Guarded (CopiesFilled start) (ListStep start)) (.initial zeroPayload) log c) :
    CopyFilled start c := by
  refine hr.invariant (I := fun _ c => CopyFilled start c) ?_
    fun _ _ _ _ _ ih hstep => copyFilled_step hstep ih
  trivial

/-- Under the guard, what is read has a name or is filtered. -/
theorem named_of_read (h : Guarded (CopiesFilled start) (ListStep start) c .read d)
    (hc : CopyFilled start c) : start ≠ [] ∨ entryName c.taken ≠ [] := by
  obtain ⟨hfilled, h⟩ := h
  cases h with
  | write hw => cases hw
  | taken => exact hc
  | copied => exact hfilled

/-- Where slots are filled when the call comes to copy them, it returns genuine entries only. -/
theorem list_genuine
    (hr : Run (Guarded (CopiesFilled start) (ListStep start)) (.initial zeroPayload) log c) :
    ∀ entry ∈ c.result, Genuine start log entry := by
  refine hr.invariant (I := fun log c => ∀ entry ∈ c.result, Genuine start log entry)
    (fun _ h => absurd h List.not_mem_nil) ?_
  intro log c e d hrun ih hstep entry hmem
  rw [result_step hstep.2] at hmem
  rcases List.mem_append.mp hmem with hold | hnew
  · exact (ih entry hold).mono
  · obtain ⟨rfl, rfl, hs⟩ := mem_gain hnew
    have hn : entryName c.taken ≠ [] := by
      rcases named_of_read hstep (copyFilled_run hrun) with hne | hne
      · intro hnil
        rw [hnil, List.prefix_nil] at hs
        exact hne hs
      · exact hne
    obtain ⟨source, hlog, hsource⟩ := (sourced_run hrun.unguard).2 hn
    exact ⟨hn, hs, source, List.mem_append_left _ hlog, hsource⟩

/-- A registry with one entry. -/
theorem smallEntry_registered : ∃ q, zeroPayload.registerSegment smallEntry = (.ok (), q) ∧
    RegistryInv q (Function.update (fun _ => none) [97] (some smallEntry.content)) := by
  have hname : entryName smallEntry = [97] := by decide
  have hn : entryName smallEntry ≠ [] := by
    rw [hname]
    exact List.cons_ne_nil _ _
  obtain ⟨q, hq⟩ := registryInv_zeroPayload.registered hn (size_empty ▸ by decide)
  exact ⟨q, hq, hname ▸ registryInv_zeroPayload.register_ok hn hq⟩

/-- An entry with another name than `smallEntry`. -/
def otherEntry : RegistryEntry := { smallEntry with name := Function.update (fun _ => 0) 0 98 }

theorem entryName_otherEntry : entryName otherEntry = [98] := by decide

theorem otherEntry_terminated : ∃ k, otherEntry.name k = 0 := ⟨1, by decide⟩

/-- A registry with one entry has room for it. -/
theorem otherEntry_registered {stored : RegistryEntry}
    (hinv : RegistryInv q (Function.update (fun _ => none) [97] (some stored))) :
    ∃ q', q.registerSegment otherEntry = (.ok (), q') ∧
      RegistryInv q' (Function.update (Function.update (fun _ => none) [97] (some stored)) [98]
        (some otherEntry.content)) := by
  have hn : entryName otherEntry ≠ [] := by
    rw [entryName_otherEntry]
    exact List.cons_ne_nil _ _
  obtain ⟨q', hq⟩ := hinv.registered hn (size_single .. ▸ by decide)
  exact ⟨q', hq, entryName_otherEntry ▸ hinv.register_ok hn hq⟩

/-- Two entries registered one after the other, the second one while the list call stands before its
first slot; without a filter it returns both. -/
theorem list_genuine_two : ∃ log c,
    Run (Guarded (CopiesFilled []) (ListStep [])) (.initial zeroPayload) log c ∧
    c.reader = .scan [] ∧ smallEntry.content ∈ c.result.map RegistryEntry.content ∧
    otherEntry.content ∈ c.result.map RegistryEntry.content ∧
    ∀ entry ∈ c.result, Genuine [] log entry := by
  obtain ⟨q, hq, hinv⟩ := smallEntry_registered
  obtain ⟨q', hq', hinv'⟩ := otherEntry_registered hinv
  obtain ⟨-, hlisted⟩ := hinv'.mem_list []
  have hsmall := (hlisted smallEntry.content).mpr ⟨[97], rfl, List.nil_prefix⟩
  have hother := (hlisted otherEntry.content).mpr
    ⟨[98], Function.update_self .., List.nil_prefix⟩
  have hfilled (r : ReaderPc) (out : List RegistryEntry) (e : ListEvent)
      (hr : ∀ i ∈ r.slot, q'.bitIsSet i = true) : CopiesFilled [] ⟨q', .free, r, out⟩ e := by
    refine .inr fun hun => ?_
    cases r with
    | fetch i => exact (hinv'.bit_iff i).mp (hr i rfl) hun
    | copy i => exact (hinv'.bit_iff i).mp (hr i rfl) hun
    | _ => exact hun
  obtain ⟨log, hfirst, -⟩ := register_run (G := CopiesFilled []) [] zeroPayload .idle []
    (fun _ _ _ => .inr id) smallEntry_wellFormed.2
  rw [hq] at hfirst
  have hcall : Guarded (CopiesFilled []) (ListStep []) ⟨q, .free, .idle, []⟩ .called
      ⟨q, .free, .scan (List.finRange maxRegistryEntries), []⟩ :=
    ⟨.inr id, .call⟩
  unfold RegistryPayload.list at hsmall hother
  generalize List.finRange maxRegistryEntries = rest at hcall hsmall hother
  obtain ⟨log', hsecond, -⟩ := register_run (G := CopiesFilled []) [] q (.scan rest) []
    (fun _ _ _ => .inr id) otherEntry_terminated
  rw [hq'] at hsecond
  obtain ⟨log'', hscan, -⟩ := scan_run [] .free hinv'.even hfilled rest []
  have hrun := ((hfirst.snoc hcall).append hsecond).append hscan
  exact ⟨_, _, hrun, rfl, hsmall, hother, list_genuine hrun⟩

/-- A list without a filter between the `set_bit` and the publish of a registration. -/
theorem list_phantom : ∃ log c, Run (ListStep []) (.initial zeroPayload) log c ∧
    c.reader = .scan [] ∧ zeroEntry ∈ c.result ∧ ¬ Genuine [] log zeroEntry := by
  obtain ⟨i, hi⟩ := exists_free (entryName smallEntry)
  have hlock : Run (ListStep []) (.initial zeroPayload) [.tau] ⟨zeroPayload, .locked, .idle, []⟩ :=
    .single (.write .lock)
  have hinsert := hlock.snoc (.write (.insert smallEntry_wellFormed.2 hi))
  have hbit : Run (ListStep []) (.initial zeroPayload) [.tau, .registering smallEntry, .tau, .tau]
      ⟨zeroPayload.setBit i, .addCount i smallEntry, .idle, []⟩ :=
    (hinsert.snoc (.write .loadBit)).snoc (.write .storeBit)
  have heven : ∀ k, ((zeroPayload.setBit i).slots k).seqStorage &&& 1 = 0 :=
    registryInv_zeroPayload.even
  obtain ⟨log, hlist, -⟩ := list_run [] (.addCount i smallEntry) heven
  have hmem : zeroEntry ∈ (zeroPayload.setBit i).list [] := by
    have hset : (zeroPayload.setBit i).bitIsSet i = true := by
      rw [bitIsSet_setBit]
      simp
    exact mem_list_of_set hset (heven i) (List.mem_singleton_self _)
  generalize (zeroPayload.setBit i).list [] = out at hlist hmem
  exact ⟨_, _, hbit.append hlist, rfl, hmem, fun h => h.named entryName_zeroEntry⟩

end Phantoms

section Present

/-- The other processes do not work on slot `j`, nor with an entry of that name, and the bitmap byte
they have loaded is the current one. -/
def Elsewhere (name : Name) (j : SlotIndex) (p : RegistryPayload) : WriterPc → Prop
  | .loadBit i entry | .addCount i entry | .publish i entry => i ≠ j ∧ entryName entry ≠ name
  | .storeBit i entry byte => i ≠ j ∧ entryName entry ≠ name ∧ byte = p.loadByte i
  | .empty i _ | .loadClear i _ => i ≠ j
  | .storeClear i byte _ => i ≠ j ∧ byte = p.loadByte i
  | _ => True

/-- The entry in slot `j`, the only one with its name. -/
structure Present (name : Name) (slot : RegistryEntry) (j : SlotIndex) (p : RegistryPayload) :
    Prop where
  stored : p.slots j = slot
  bit : p.bitIsSet j = true
  others : ∀ k, k ≠ j → entryName (p.slots k) ≠ name

/-- What the call has collected of the entry, with the slots still to visit. -/
structure Collected (name : Name) (slot : RegistryEntry) (j : SlotIndex) (rest : List SlotIndex)
    (out : List RegistryEntry) : Prop where
  nodup : rest.Nodup
  found : out.filter (entryName · = name) = if j ∈ rest then [] else [slot]

/-- On the way to slot `j` the call goes through a first try of `snapshot_slot` only. -/
def OnTheWay (name : Name) (slot : RegistryEntry) (j : SlotIndex) (out : List RegistryEntry) :
    ReaderPc → Prop
  | .idle => out = []
  | .scan rest => Collected name slot j rest out
  | .load i rest retry => Collected name slot j (i :: rest) out ∧ (i = j → retry = 0)
  | .fetch i rest _ seq => Collected name slot j (i :: rest) out ∧ (i = j → seq = slot.seqStorage)
  | .check i rest _ seq snap => Collected name slot j (i :: rest) out ∧
      (i = j → seq = slot.seqStorage ∧ snap = slot) ∧ (i ≠ j → entryName snap ≠ name)
  | .lock i rest | .copy i rest => Collected name slot j (i :: rest) out ∧ i ≠ j

theorem Collected.skip {rest : List SlotIndex} {out : List RegistryEntry}
    (h : Collected name slot j (i :: rest) out) (hne : i ≠ j) : Collected name slot j rest out := by
  refine ⟨h.nodup.of_cons, ?_⟩
  rw [h.found]
  exact if_congr (List.mem_cons.trans (or_iff_right hne.symm)) rfl rfl

/-- A slot with another name adds nothing. -/
theorem Collected.readOther {rest : List SlotIndex} {out : List RegistryEntry}
    {other : RegistryEntry} (h : Collected name slot j (i :: rest) out) (hne : i ≠ j)
    (hother : entryName other ≠ name) : Collected name slot j rest (out ++ kept start other) := by
  have hskip := h.skip hne
  refine ⟨hskip.nodup, ?_⟩
  have hnone : (kept start other).filter (entryName · = name) = [] := by
    apply List.filter_eq_nil_iff.mpr
    intro entry hmem
    rw [(isPrefix_of_kept hmem).1]
    simpa using hother
  rw [List.filter_append, hnone, List.append_nil, hskip.found]

/-- The slot of the entry adds it. -/
theorem Collected.readSlot {rest : List SlotIndex} {out : List RegistryEntry}
    (h : Collected name slot j (j :: rest) out) (hname : entryName slot = name)
    (hs : start <+: name) : Collected name slot j rest (out ++ kept start slot) := by
  refine ⟨h.nodup.of_cons, ?_⟩
  have hkept : kept start slot = [slot] := by
    have htake := List.prefix_iff_eq_take.mp hs
    unfold kept startsWith
    rw [hname, decide_eq_true htake.symm, Bool.or_true, if_pos rfl]
  have hfound := h.found
  rw [if_pos List.mem_cons_self] at hfound
  rw [List.filter_append, hfound, hkept, if_neg (List.nodup_cons.mp h.nodup).1]
  simp [hname]

theorem Present.congr (h : Present name slot j p) (hslots : q.slots = p.slots)
    (hbit : q.bitIsSet j = true) : Present name slot j q := by
  refine ⟨?_, hbit, ?_⟩
  · rw [hslots, h.stored]
  · rw [hslots]
    exact h.others

/-- A store to another slot that does not bring the name. -/
theorem Present.write (h : Present name slot j p) (hne : i ≠ j)
    (hslots : q.slots = Function.update p.slots i entry) (hentry : entryName entry ≠ name)
    (hbit : q.bitIsSet j = true) : Present name slot j q := by
  refine ⟨?_, hbit, fun k hk => ?_⟩
  · rw [hslots, Function.update_of_ne hne.symm, h.stored]
  · rw [hslots, Function.update_apply]
    split
    · exact hentry
    · exact h.others k hk

theorem Present.ne_of_named (h : Present name slot j p) (hname : entryName slot = name)
    {other : Name} (hi : p.named i other = true) (hother : other ≠ name) : i ≠ j := by
  rintro rfl
  apply hother
  rw [← entryName_of_named hi, h.stored, hname]

theorem Present.ne_of_free (h : Present name slot j p) (hi : p.bitIsSet i = false) : i ≠ j := by
  rintro rfl
  cases h.bit.symm.trans hi

theorem Present.undamaged (h : Present name slot j p) (he : slot.seqStorage &&& 1 = 0)
    (hn : entryName slot ≠ []) : p.damaged j = false := by
  rw [damaged_eq_false, h.stored]
  exact ⟨he, fun _ => name_ne_zero_iff.mpr hn, fun _ => h.bit⟩

theorem Present.recovered (h : Present name slot j p) (he : slot.seqStorage &&& 1 = 0)
    (hname : entryName slot = name) (hn : name ≠ []) :
    Present name slot j p.recoverRegistryInvariant := by
  obtain ⟨hslot, hbit⟩ := recovered_kept (h.undamaged he (hname ▸ hn))
  refine ⟨hslot.trans h.stored, hbit.trans h.bit, fun k hk => ?_⟩
  rcases recovered_slot p k with hsame | hnil
  · rw [hsame]
    exact h.others k hk
  · rw [hnil]
    exact hn.symm

theorem named_of_replace
    (h : p.registerLoop name (List.finRange maxRegistryEntries) none = .inl i) :
    p.named i name = true := by
  rcases registerLoop_spec p name (List.finRange maxRegistryEntries) none with
    ⟨k, -, hloop, -, hnamed⟩ | ⟨-, hloop⟩
  · cases h.symm.trans hloop
    exact hnamed
  · cases h.symm.trans hloop

theorem free_of_insert
    (h : p.registerLoop name (List.finRange maxRegistryEntries) none = .inr (some i)) :
    p.bitIsSet i = false := by
  rcases registerLoop_spec p name (List.finRange maxRegistryEntries) none with
    ⟨k, -, hloop, -, -⟩ | ⟨-, hloop⟩
  · cases h.symm.trans hloop
  · have hfind := Sum.inr.inj (h.symm.trans hloop)
    rw [Option.none_or] at hfind
    simpa using List.find?_some hfind.symm

theorem writer_present {w' : WriterPc} (h : WriterStep p w e q w') (hp : Present name slot j p)
    (hw : Elsewhere name j p w) (he : slot.seqStorage &&& 1 = 0) (hname : entryName slot = name)
    (hn : name ≠ []) (hcall : e.callName ≠ some name) :
    Present name slot j q ∧ Elsewhere name j q w' := by
  cases h with
  | @replace entry i _ hloop =>
    have hother : entryName entry ≠ name := fun heq => hcall (congrArg some heq)
    exact ⟨hp, hp.ne_of_named hname (named_of_replace hloop) hother, hother⟩
  | @insert entry i _ hloop =>
    have hother : entryName entry ≠ name := fun heq => hcall (congrArg some heq)
    exact ⟨hp, hp.ne_of_free (free_of_insert hloop), hother⟩
  | loadBit => exact ⟨hp, hw.1, hw.2, rfl⟩
  | @storeBit entry i byte =>
    -- the byte still is the one that was loaded, so the store changes its own bit only
    obtain ⟨hne, hother, rfl⟩ := hw
    have hbit : (p.setBit i).bitIsSet j = true := by
      rw [bitIsSet_setBit, hp.bit, Bool.or_true]
    exact ⟨hp.congr rfl hbit, hne, hother⟩
  | addCount => exact ⟨hp.congr rfl hp.bit, hw⟩
  | publish => exact ⟨hp.write hw.1 rfl hw.2 hp.bit, trivial⟩
  | @remove target i hfind =>
    have hi := List.find?_some hfind
    rw [Bool.and_eq_true] at hi
    exact ⟨hp, hp.ne_of_named hname hi.2 fun heq => hcall (congrArg some heq)⟩
  | empty =>
    have hempty : entryName zeroEntry ≠ name := by
      rw [entryName_zeroEntry]
      exact hn.symm
    exact ⟨hp.write hw rfl hempty hp.bit, hw⟩
  | loadClear => exact ⟨hp, hw, rfl⟩
  | @storeClear i byte k =>
    obtain ⟨hne, rfl⟩ := hw
    have hbit : (p.clearBit i).bitIsSet j = true := by
      rw [bitIsSet_clearBit, hp.bit, Bool.and_true]
      exact decide_eq_true hne.symm
    refine ⟨hp.congr rfl hbit, ?_⟩
    cases k <;> trivial
  | subCount => exact ⟨hp.congr rfl hp.bit, trivial⟩
  | @damaged i rest count hd =>
    have hne : i ≠ j := by
      rintro rfl
      cases (hp.undamaged he (hname ▸ hn)).symm.trans hd
    have hempty : entryName (p.clearedSlot i) ≠ name := by
      rw [show entryName (p.clearedSlot i) = [] from entryName_eq_nil rfl]
      exact hn.symm
    exact ⟨hp.write hne rfl hempty hp.bit, hne⟩
  | marked => exact ⟨hp.congr rfl hp.bit, trivial⟩
  | unmarked => exact ⟨hp.congr rfl hp.bit, trivial⟩
  | _ => exact ⟨hp, trivial⟩

/-- The entry is there, the others are elsewhere, and the call finds it or has found it. -/
structure Staying (name : Name) (slot : RegistryEntry) (j : SlotIndex) (c : ListConfig) : Prop where
  present : Present name slot j c.payload
  writer : Elsewhere name j c.payload c.writer
  reader : OnTheWay name slot j c.result c.reader

theorem staying_step (h : ListStep start c e d) (hc : Staying name slot j c)
    (he : slot.seqStorage &&& 1 = 0) (hname : entryName slot = name) (hn : name ≠ [])
    (hs : start <+: name) (hcall : e.callName ≠ some name) : Staying name slot j d := by
  obtain ⟨hp, hw, hr⟩ := hc
  cases h with
  | write hstep =>
    obtain ⟨hp', hw'⟩ := writer_present hstep hp hw he hname hn hcall
    exact ⟨hp', hw', hr⟩
  | call =>
    refine ⟨hp, hw, List.nodup_finRange _, ?_⟩
    rw [show _ = [] from hr, if_pos (List.mem_finRange j)]
    rfl
  | clear hbit => exact ⟨hp, hw, hr.skip (hp.ne_of_free hbit)⟩
  | set => exact ⟨hp, hw, hr, fun _ => rfl⟩
  | odd _ hodd =>
    refine ⟨hp, hw, hr.1, fun hij => ?_⟩
    subst hij
    exact absurd (hp.stored ▸ he) hodd
  | even =>
    refine ⟨hp, hw, hr.1, fun hij => ?_⟩
    rw [hij, hp.stored]
  | @fetch _ _ i =>
    refine ⟨hp, hw, hr.1, fun hij => ⟨hr.2 hij, ?_⟩, hp.others i⟩
    rw [hij, hp.stored]
  | exhausted hretry =>
    -- the slot of the entry does not move, so its first try succeeds
    refine ⟨hp, hw, hr.1, fun hij => ?_⟩
    rw [hr.2 hij] at hretry
    exact absurd hretry (by decide)
  | moved hmoved =>
    refine ⟨hp, hw, hr.1, fun hij => ?_⟩
    subst hij
    rw [hp.stored] at hmoved
    exact absurd (hr.2.1 rfl).1.symm hmoved
  | @taken _ _ i =>
    refine ⟨hp, hw, ?_⟩
    by_cases hij : i = j
    · subst hij
      rw [(hr.2.1 rfl).2]
      exact hr.1.readSlot hname hs
    · exact hr.1.readOther hij (hr.2.2 hij)
  | lock => exact ⟨hp, trivial, hr⟩
  | @recover p =>
    have hp' := hp.recovered he hname hn
    generalize p.recoverRegistryInvariant = q at hp' ⊢
    exact ⟨hp', trivial, hr⟩
  | @unmarked p =>
    have hp' := hp.recovered he hname hn
    generalize p.recoverRegistryInvariant = q at hp' ⊢
    exact ⟨hp', trivial, hr.1.skip hr.2⟩
  | refused => exact ⟨hp, trivial, hr.1.skip hr.2⟩
  | @copied _ i => exact ⟨hp, trivial, hr.1.readOther hr.2 (hp.others i hr.2)⟩

/-- An entry that nobody else works on is returned once, with its fields. -/
theorem list_stays {m : EntryMap} {stored : RegistryEntry} (hinv : RegistryInv p m)
    (hm : m name = some stored) (hs : start <+: name)
    (hr : Run (ListStep start) (.initial p) log c) (hlog : ∀ e ∈ log, e.callName ≠ some name)
    (hdone : c.reader = .scan []) :
    ∃ entry, c.result.filter (entryName · = name) = [entry] ∧ entry.content = stored := by
  obtain ⟨j, hbit, hname, hcontent⟩ := (hinv.represents name stored).mp hm
  have hn : name ≠ [] := hname ▸ (hinv.bit_iff j).mp hbit
  have hstart : Staying name (p.slots j) j (.initial p) := by
    refine ⟨⟨rfl, hbit, fun k hk heq => ?_⟩, trivial, rfl⟩
    have hset : p.bitIsSet k = true := (hinv.bit_iff k).mpr (heq ▸ hn)
    exact hk (hinv.unique k j hset hbit (heq.trans hname.symm))
  have hstays := hr.invariant (I := fun log c => (∀ e ∈ log, e.callName ≠ some name) →
    Staying name (p.slots j) j c) (fun _ => hstart) ?_ hlog
  · have hread := hstays.reader
    rw [hdone] at hread
    exact ⟨_, hread.found, hcontent⟩
  · intro log c e d _ ih hstep hlog
    obtain ⟨hbefore, hlast⟩ := List.forall_mem_append.mp hlog
    exact staying_step hstep (ih hbefore) (hinv.even j) hname hn hs
      (hlast e (List.mem_singleton_self e))

/-- A second entry registered while the list call stands before its first slot. -/
theorem list_stays_small : ∃ q log c, zeroPayload.registerSegment smallEntry = (.ok (), q) ∧
    Run (ListStep []) (.initial q) log c ∧ .registering otherEntry ∈ log ∧ c.reader = .scan [] ∧
    ∃ entry, c.result.filter (entryName · = [97]) = [entry] ∧
      entry.content = smallEntry.content := by
  obtain ⟨q, hq, hinv⟩ := smallEntry_registered
  have hother := entryName_otherEntry
  obtain ⟨m, hnext, -⟩ := hinv.register_cases (hother ▸ List.cons_ne_nil 98 [])
  have hcall : ListStep [] (.initial q) .called
      ⟨q, .free, .scan (List.finRange maxRegistryEntries), []⟩ := .call
  generalize List.finRange maxRegistryEntries = rest at hcall
  obtain ⟨log, hregister, hmem, hlog⟩ := register_run (G := fun _ _ => True) [] q (.scan rest) []
    (fun _ _ _ => trivial) otherEntry_terminated
  obtain ⟨log', hscan, hlog'⟩ := scan_run (G := fun _ _ => True) [] .free hnext.even
    (fun _ _ _ _ => trivial) rest []
  have hrun := Run.cons hcall (hregister.append hscan).unguard
  refine ⟨q, _, _, hq, hrun, ?_, rfl,
    list_stays hinv (Function.update_self ..) List.nil_prefix hrun ?_ rfl⟩
  · exact List.mem_cons_of_mem _ (List.mem_append_left _ hmem)
  · refine List.forall_mem_cons.mpr ⟨nofun, List.forall_mem_append.mpr ⟨?_, ?_⟩⟩
    · intro e he
      rcases hlog e he with hnone | hname
      · rw [hnone]
        nofun
      · rw [hname, hother]
        decide
    · intro e he
      rw [hlog' e he]
      nofun

end Present

end Shmfx
