import Shmfx.Security.Grammar
import Shmfx.Security.Quota

/-! The decision of `validate_create_security` on entries that `create` registers: the running sums
are exact, and the comparison of name starts counts namespaces. -/
namespace Shmfx

/-- An entry of the kind `create` registers. -/
structure Registrable (entry : RegistryEntry) : Prop where
  named : ∃ parsed, parseAndValidateName (entryName entry) = .ok parsed
  sized : entry.totalSize ≤ maxSegmentSize

/-- The entry's name has the parsed namespace `ns`. -/
def inNamespace (ns : Name) (entry : RegistryEntry) : Bool :=
  match parseAndValidateName (entryName entry) with
  | .ok parsed => !parsed.bootstrap && parsed.ns == ns
  | .error _ => false

/-- The number of entries that share the namespace of a name; bootstrap names have none. -/
def namespaceCount (parsed : ParsedName) (entries : List RegistryEntry) : Nat :=
  if parsed.bootstrap then 0 else entries.countP (inNamespace parsed.ns)

/-- What the new segment and the entries weigh together, over the integers, and how many entries
share its namespace. -/
def WithinQuota (options : CreateOptions) (parsed : ParsedName) (entries : List RegistryEntry) :
    Prop :=
  options.totalSize.toNat + bytesOf entries ≤ totalQuotaBytes.toNat ∧
    (parsed.bootstrap = false → entries.countP (inNamespace parsed.ns) < 1024)

instance (options : CreateOptions) (parsed : ParsedName) (entries : List RegistryEntry) :
    Decidable (WithinQuota options parsed entries) :=
  inferInstanceAs (Decidable (_ ∧ (_ → _)))

/-- The decision, and the running sums behind it. -/
structure QuotaExact (options : CreateOptions) (parsed : ParsedName)
    (entries : List RegistryEntry) : Prop where
  decided : validateCreateSecurity options entries = .ok () ↔ WithinQuota options parsed entries
  bytes : ∀ done rest, entries = done ++ rest →
    (done.foldl (quotaStep parsed) (options.totalSize, 0)).1.toNat =
      options.totalSize.toNat + bytesOf done
  counted : ∀ done rest, entries = done ++ rest →
    (done.foldl (quotaStep parsed) (options.totalSize, 0)).2.toNat = namespaceCount parsed done
  unordered : ∀ other, entries.Perm other →
    validateCreateSecurity options other = validateCreateSecurity options entries

section Namespaces

variable {name : Name} {parsed : ParsedName} {entry : RegistryEntry}

/-- What stands behind a parsed name. -/
theorem parsed_cases (h : parseAndValidateName name = .ok parsed) :
    (parsed.bootstrap = true ∧ Bootstrap name) ∨
      (parsed.bootstrap = false ∧ parsed.ns ∈ allowedNamespaces ∧
        nameStart ++ parsed.ns ++ asciiBytes ['.'] ++ parsed.leaf = name) := by
  by_cases hb : Bootstrap name
  · rw [parseAndValidateName_of_bootstrap hb] at h
    cases h
    exact .inl ⟨rfl, hb⟩
  · have hne : parseAndValidateName name ≠ .error .invalidName := by
      rw [h]
      exact nofun
    obtain ⟨ns, leaf, hr⟩ := exists_reads hb hne
    rw [parseAndValidateName_of_reads hb hr] at h
    split_ifs at h with hallowed
    cases h
    exact .inr ⟨rfl, hallowed, hr.joined⟩

/-- No allowed namespace starts another one, with or without the dot behind it. -/
theorem allowedNamespaces_apart : ∀ a ∈ allowedNamespaces, ∀ b ∈ allowedNamespaces,
    a.length ≤ (b ++ asciiBytes ['.']).length ∧
      ((b ++ asciiBytes ['.']).take a.length = a → a = b) := by
  decide

theorem allowedNamespaces_bootstrap : ∀ a ∈ allowedNamespaces,
    registryName.take (7 + a.length) ≠ nameStart ++ a ∧
      registryLockName.take (7 + a.length) ≠ nameStart ++ a := by
  decide

theorem take_nameStart (ns rest : Name) :
    (nameStart ++ rest).take (7 + ns.length) = nameStart ++ ns ↔ rest.take ns.length = ns := by
  have hlen : 7 + ns.length = nameStart.length + ns.length := rfl
  rw [hlen, List.take_length_add_append, List.append_cancel_left_eq]

/-- The comparison without the closing dot finds the namespace, on names that were accepted. -/
theorem sameStart_iff (h : parseAndValidateName name = .ok parsed) {ns : Name}
    (hns : ns ∈ allowedNamespaces) :
    name.take (7 + ns.length) = nameStart ++ ns ↔ parsed.bootstrap = false ∧ parsed.ns = ns := by
  rcases parsed_cases h with ⟨hboot, hname⟩ | ⟨hboot, hallowed, hjoined⟩
  · obtain ⟨hregistry, hlock⟩ := allowedNamespaces_bootstrap ns hns
    rw [hboot]
    constructor
    · intro hstart
      rcases hname with rfl | rfl
      · exact absurd hstart hregistry
      · exact absurd hstart hlock
    · rintro ⟨hfalse, -⟩
      cases hfalse
  · obtain ⟨hle, happart⟩ := allowedNamespaces_apart ns hns parsed.ns hallowed
    rw [← hjoined, List.append_assoc, List.append_assoc, take_nameStart, ← List.append_assoc,
      List.take_append_of_le_length hle]
    constructor
    · intro hstart
      exact ⟨hboot, (happart hstart).symm⟩
    · rintro ⟨-, rfl⟩
      exact List.take_left

theorem counts_iff (hentry : Registrable entry) (h : parseAndValidateName name = .ok parsed) :
    (!parsed.bootstrap &&
        (entryName entry).take (7 + parsed.ns.length) == nameStart ++ parsed.ns) =
      (!parsed.bootstrap && inNamespace parsed.ns entry) := by
  rcases parsed_cases h with ⟨hboot, -⟩ | ⟨hboot, hallowed, -⟩
  · rw [hboot]
    rfl
  · obtain ⟨found, hfound⟩ := hentry.named
    have hsame := sameStart_iff hfound hallowed
    have hin : inNamespace parsed.ns entry = (!found.bootstrap && found.ns == parsed.ns) := by
      rw [inNamespace, hfound]
    rw [hboot, hin]
    apply Bool.eq_iff_iff.mpr
    simpa only [Bool.not_false, Bool.true_and, beq_iff_eq, Bool.and_eq_true, Bool.not_eq_true']
      using hsame

end Namespaces

section Sums

variable {options : CreateOptions} {parsed : ParsedName} {entries done rest : List RegistryEntry}

theorem bytesOf_le (h : ∀ entry ∈ entries, Registrable entry) :
    bytesOf entries ≤ entries.length * 2 ^ 30 := by
  induction entries with
  | nil => exact Nat.le_refl 0
  | cons entry entries ih =>
    obtain ⟨hentry, hrest⟩ := List.forall_mem_cons.mp h
    have hsize : entry.totalSize.toNat ≤ 2 ^ 30 := UInt64.le_iff_toNat_le.mp hentry.sized
    have hle := ih hrest
    rw [bytesOf_cons, List.length_cons]
    omega

theorem namespaceCount_cons (parsed : ParsedName) (entry : RegistryEntry)
    (entries : List RegistryEntry) :
    namespaceCount parsed (entry :: entries) =
      namespaceCount parsed entries +
        if !parsed.bootstrap && inNamespace parsed.ns entry then 1 else 0 := by
  unfold namespaceCount
  cases parsed.bootstrap with
  | true => rfl
  | false => exact List.countP_cons

theorem namespaceCount_le (parsed : ParsedName) (entries : List RegistryEntry) :
    namespaceCount parsed entries ≤ entries.length := by
  unfold namespaceCount
  split
  · exact Nat.zero_le _
  · exact List.countP_le_length

/-- The loop counts in 32 bits. -/
theorem quotaStep_counts {name : Name} (hparse : parseAndValidateName name = .ok parsed)
    (h : ∀ entry ∈ entries, Registrable entry) (acc : UInt64 × UInt32) :
    (entries.foldl (quotaStep parsed) acc).2.toNat =
      (acc.2.toNat + namespaceCount parsed entries) % 2 ^ 32 := by
  induction entries generalizing acc with
  | nil =>
    have hzero : namespaceCount parsed [] = 0 := by
      unfold namespaceCount
      split <;> rfl
    rw [hzero]
    exact (Nat.mod_eq_of_lt acc.2.toNat_lt).symm
  | cons entry entries ih =>
    obtain ⟨hentry, hrest⟩ := List.forall_mem_cons.mp h
    rw [List.foldl_cons, ih hrest, namespaceCount_cons]
    simp only [quotaStep, counts_iff hentry hparse]
    split
    · rw [UInt32.toNat_add, UInt32.toNat_one]
      omega
    · rfl

/-- At most 1024 entries of at most 1 GiB cannot wrap either sum. -/
theorem quotaStep_exact {name : Name} (hparse : parseAndValidateName name = .ok parsed)
    (hsize : options.totalSize ≤ maxSegmentSize) (hlen : done.length ≤ maxRegistryEntries)
    (h : ∀ entry ∈ done, Registrable entry) :
    (done.foldl (quotaStep parsed) (options.totalSize, 0)).1.toNat =
        options.totalSize.toNat + bytesOf done ∧
      (done.foldl (quotaStep parsed) (options.totalSize, 0)).2.toNat =
        namespaceCount parsed done := by
  have hbytes := bytesOf_le h
  have hcount := namespaceCount_le parsed done
  have hown : options.totalSize.toNat ≤ 2 ^ 30 := UInt64.le_iff_toNat_le.mp hsize
  rw [maxRegistryEntries] at hlen
  rw [quotaStep_bytes, quotaStep_counts hparse h]
  constructor
  · apply Nat.mod_eq_of_lt
    show options.totalSize.toNat + bytesOf done < 2 ^ 64
    omega
  · rw [UInt32.toNat_zero, Nat.zero_add]
    apply Nat.mod_eq_of_lt
    omega

theorem namespaceCount_lt_iff : namespaceCount parsed entries < 1024 ↔
    (parsed.bootstrap = false → entries.countP (inNamespace parsed.ns) < 1024) := by
  unfold namespaceCount
  cases parsed.bootstrap with
  | true => exact ⟨nofun, fun _ => Nat.zero_lt_succ _⟩
  | false => exact ⟨fun h _ => h, fun h => h rfl⟩

/-- The answer is the exact one, with one error for both limits. -/
theorem validateCreateSecurity_eq (hparse : parseAndValidateName options.name = .ok parsed)
    (hsize : ¬ (options.totalSize < headerSize + options.metaSize ∨
      options.totalSize > maxSegmentSize))
    (hlen : entries.length ≤ maxRegistryEntries) (h : ∀ entry ∈ entries, Registrable entry) :
    validateCreateSecurity options entries =
      if WithinQuota options parsed entries then .ok () else .error .quotaExceeded := by
  obtain ⟨hbytes, hcount⟩ :=
    quotaStep_exact hparse (UInt64.not_lt.mp (not_or.mp hsize).2) hlen h
  have hover : ((entries.foldl (quotaStep parsed) (options.totalSize, 0)).1 > totalQuotaBytes ∨
      (entries.foldl (quotaStep parsed) (options.totalSize, 0)).2 ≥ maxNamespaceSegments) ↔
      ¬ WithinQuota options parsed entries := by
    rw [gt_iff_lt, ge_iff_le, UInt64.lt_iff_toNat_lt, UInt32.le_iff_toNat_le, hbytes, hcount,
      WithinQuota, ← namespaceCount_lt_iff, not_and_or, Nat.not_le, Nat.not_lt]
    rfl
  unfold validateCreateSecurity
  simp only [hparse, if_neg hsize, hover]
  split_ifs
  · rfl
  · rfl

theorem WithinQuota.perm {other : List RegistryEntry} (hperm : entries.Perm other) :
    WithinQuota options parsed other ↔ WithinQuota options parsed entries := by
  unfold WithinQuota bytesOf
  rw [(hperm.map _).sum_eq, hperm.countP_eq]

/-- The quota decision is exact on every list of registrable entries. -/
theorem validateCreateSecurity_exact (hparse : parseAndValidateName options.name = .ok parsed)
    (hsize : ¬ (options.totalSize < headerSize + options.metaSize ∨
      options.totalSize > maxSegmentSize))
    (hlen : entries.length ≤ maxRegistryEntries) (h : ∀ entry ∈ entries, Registrable entry) :
    QuotaExact options parsed entries := by
  have heq := validateCreateSecurity_eq hparse hsize hlen h
  have hpart : ∀ done rest, entries = done ++ rest →
      done.length ≤ maxRegistryEntries ∧ ∀ entry ∈ done, Registrable entry := by
    rintro done rest rfl
    rw [List.length_append] at hlen
    exact ⟨by omega, fun entry hentry => h entry (List.mem_append_left rest hentry)⟩
  have hown := UInt64.not_lt.mp (not_or.mp hsize).2
  refine ⟨?_, ?_, ?_, ?_⟩
  · rw [heq]
    split_ifs with hadmitted
    · exact ⟨fun _ => hadmitted, fun _ => rfl⟩
    · exact ⟨nofun, fun hc => absurd hc hadmitted⟩
  · intro done rest hdone
    obtain ⟨hlen', h'⟩ := hpart done rest hdone
    exact (quotaStep_exact hparse hown hlen' h').1
  · intro done rest hdone
    obtain ⟨hlen', h'⟩ := hpart done rest hdone
    exact (quotaStep_exact hparse hown hlen' h').2
  · intro other hperm
    have hother := validateCreateSecurity_eq hparse hsize (hperm.length_eq ▸ hlen)
      fun entry hentry => h entry (hperm.mem_iff.mpr hentry)
    rw [hother, heq, if_congr (WithinQuota.perm hperm) rfl rfl]

/-- Three full gigabytes are registered, and a fourth one still fits. -/
theorem validateCreateSecurity_exact_giant :
    WithinQuota (giantOptions 3) ⟨asciiBytes ['a', 'p', 'p'], [100], false⟩
        ((List.range 3).map giantEntry) ∧
      validateCreateSecurity (giantOptions 3) ((List.range 3).map giantEntry) = .ok () := by
  have hadmitted : WithinQuota (giantOptions 3) ⟨asciiBytes ['a', 'p', 'p'], [100], false⟩
      ((List.range 3).map giantEntry) := by
    decide +kernel
  have hentries : ∀ entry ∈ (List.range 3).map giantEntry, Registrable entry := by
    intro entry hentry
    obtain ⟨k, hk, rfl⟩ := List.mem_map.mp hentry
    have hk := List.mem_range.mp hk
    refine ⟨?_, ?_⟩
    · rw [entryName_giantEntry k (by omega)]
      exact validateCreateSecurity_parsed (giant_checked k (by omega)).1
    · exact (validateCreateSecurity_sizes (giant_checked k (by omega)).1).2
  have hparse : parseAndValidateName (giantOptions 3).name =
      .ok ⟨asciiBytes ['a', 'p', 'p'], [100], false⟩ := rfl
  have hexact := validateCreateSecurity_exact hparse (by decide) (by decide) hentries
  exact ⟨hadmitted, hexact.decided.mpr hadmitted⟩

end Sums

end Shmfx
