import Mathlib.Algebra.Order.BigOperators.Group.List
import Shmfx.Lib.Lts
import Shmfx.Registry.Map
import Shmfx.Segment.Create

/-! The framework quota under concurrent `create` and `destroy` calls (`shm_manager.cpp`). -/
namespace Shmfx

open Lts

universe u

/-- Where a thread stands inside `create` or `destroy`; `existing` is the snapshot `create` took. -/
inductive QuotaPc
  | idle
  | listed (options : CreateOptions) (existing : List RegistryEntry)
  | checked (options : CreateOptions) (existing : List RegistryEntry)
  | opened (options : CreateOptions) (existing : List RegistryEntry) (env : CreateEnv)
      (header : ShmHeader)
  | unlinked (name : Name)

/-- The registry, the linked names, and every thread's position. -/
structure QuotaConfig (T : Type u) where
  registry : RegistryPayload
  linked : Name → Bool
  threads : T → QuotaPc

inductive QuotaEvent (T : Type u)
  | tau
  | registers (t : T)

variable {T : Type u}

/-- An empty registry, whose own segment is the only one linked. -/
def QuotaConfig.initial : QuotaConfig T :=
  ⟨zeroPayload, fun name => decide (name = registryName), fun _ => .idle⟩

/-- The exact sum of `total_size` over a list of entries. -/
def bytesOf (entries : List RegistryEntry) : Nat :=
  (entries.map fun entry => entry.totalSize.toNat).sum

namespace QuotaConfig

variable [DecidableEq T]

def setPc (c : QuotaConfig T) (t : T) (pc : QuotaPc) : QuotaConfig T :=
  { c with threads := Function.update c.threads t pc }

def setLinked (c : QuotaConfig T) (name : Name) (present : Bool) : QuotaConfig T :=
  { c with linked := Function.update c.linked name present }

end QuotaConfig

/-- One step of a `create` (the snapshot, its check, the exclusive creation of the object with its
header, the registration) or of a `destroy` (unlink, then unregister). -/
inductive QuotaStep [DecidableEq T] : QuotaConfig T → QuotaEvent T → QuotaConfig T → Prop
  | list {c : QuotaConfig T} {t : T} {options : CreateOptions} {parsed : ParsedName}
      (h : c.threads t = .idle) (hname : parseAndValidateName options.name = .ok parsed) :
      QuotaStep c .tau (c.setPc t (.listed options (c.registry.list [])))
  | check {c : QuotaConfig T} {t : T} {options : CreateOptions} {existing : List RegistryEntry}
      (h : c.threads t = .listed options existing)
      (hcheck : validateCreateSecurity options existing = .ok ())
      (hlayout : checkLayout options = .ok ()) :
      QuotaStep c .tau (c.setPc t (.checked options existing))
  | refuse {c : QuotaConfig T} {t : T} {options : CreateOptions} {existing : List RegistryEntry}
      (h : c.threads t = .listed options existing)
      (hcheck : validateCreateSecurity options existing ≠ .ok () ∨ checkLayout options ≠ .ok ()) :
      QuotaStep c .tau (c.setPc t .idle)
  | openObject {c : QuotaConfig T} {t : T} {options : CreateOptions}
      {existing : List RegistryEntry} {env : CreateEnv} {signed : ShmHeader}
      (h : c.threads t = .checked options existing) (hfree : c.linked options.name = false)
      (hsign : signHeaderIfEnabled env.keys (writeHeader options env) = .ok signed) :
      QuotaStep c .tau ((c.setLinked options.name true).setPc t
        (.opened options existing env (finishHeader env signed)))
  | openFails {c : QuotaConfig T} {t : T} {options : CreateOptions}
      {existing : List RegistryEntry} (h : c.threads t = .checked options existing) :
      QuotaStep c .tau (c.setPc t .idle)
  | register {c : QuotaConfig T} {t : T} {options : CreateOptions}
      {existing : List RegistryEntry} {env : CreateEnv} {header : ShmHeader}
      {registry : RegistryPayload} (h : c.threads t = .opened options existing env header)
      (hreg : registerCreated options env header c.registry = .ok registry) :
      QuotaStep c (.registers t) ({ c with registry := registry }.setPc t .idle)
  | registerFails {c : QuotaConfig T} {t : T} {options : CreateOptions}
      {existing : List RegistryEntry} {env : CreateEnv} {header : ShmHeader} {error : ErrorCode}
      (h : c.threads t = .opened options existing env header)
      (hreg : registerCreated options env header c.registry = .error error) :
      QuotaStep c .tau ((c.setLinked options.name false).setPc t .idle)
  | unlink {c : QuotaConfig T} {t : T} {name : Name} {parsed : ParsedName}
      (h : c.threads t = .idle) (hname : parseAndValidateName name = .ok parsed)
      (hlinked : c.linked name = true) :
      QuotaStep c .tau ((c.setLinked name false).setPc t (.unlinked name))
  | unregister {c : QuotaConfig T} {t : T} {name : Name} (h : c.threads t = .unlinked name) :
      QuotaStep c .tau
        ({ c with registry := if name = registryName then c.registry
                              else (c.registry.unregister name).2 }.setPc t .idle)

/-- A segment is registered only while every other one that is registered stood, with its size, in
the snapshot its quota was checked against. -/
def SeesRegistered (c : QuotaConfig T) : QuotaEvent T → Prop
  | .tau => True
  | .registers t => ∀ options existing env header,
      c.threads t = .opened options existing env header →
      ∀ entry ∈ c.registry.list [], entryName entry ≠ options.name →
        ∃ seen ∈ existing, entryName seen = entryName entry ∧ seen.totalSize = entry.totalSize

section Sums

variable {entries seen : List RegistryEntry}

theorem bytesOf_cons (entry : RegistryEntry) (entries : List RegistryEntry) :
    bytesOf (entry :: entries) = entry.totalSize.toNat + bytesOf entries := by
  simp [bytesOf]

/-- Entries of different names that all stand in a list weigh no more than the list. -/
theorem bytesOf_le_of_seen (hn : (entries.map entryName).Nodup)
    (h : ∀ entry ∈ entries, ∃ s ∈ seen, entryName s = entryName entry ∧
      s.totalSize = entry.totalSize) : bytesOf entries ≤ bytesOf seen := by
  let key : RegistryEntry → Name × UInt64 := fun entry => (entryName entry, entry.totalSize)
  have hbytes : ∀ l, bytesOf l = ((l.map key).map fun k => k.2.toNat).sum := by
    intro l
    rw [List.map_map]
    rfl
  have hnodup : (entries.map key).Nodup := by
    refine .of_map Prod.fst ?_
    rw [List.map_map]
    exact hn
  have hsub : entries.map key ⊆ seen.map key := by
    intro k hk
    obtain ⟨entry, hentry, rfl⟩ := List.mem_map.mp hk
    obtain ⟨s, hs, hname, hsize⟩ := h entry hentry
    exact List.mem_map.mpr ⟨s, hs, Prod.ext hname hsize⟩
  obtain ⟨l, hperm, hsublist⟩ := hnodup.subperm hsub
  rw [hbytes, hbytes, ← (hperm.map _).sum_eq]
  exact (hsublist.map _).sum_le_sum fun _ _ => Nat.zero_le _

/-- The loop of `validate_create_security` sums up in 64 bits. -/
theorem quotaStep_bytes (parsed : ParsedName) (entries : List RegistryEntry)
    (acc : UInt64 × UInt32) :
    (entries.foldl (quotaStep parsed) acc).1.toNat = (acc.1.toNat + bytesOf entries) % 2 ^ 64 := by
  induction entries generalizing acc with
  | nil => exact (Nat.mod_eq_of_lt acc.1.toNat_lt).symm
  | cons entry entries ih =>
    rw [List.foldl_cons, ih, bytesOf_cons]
    simp only [quotaStep, UInt64.toNat_add]
    omega

/-- What passes the check fits the quota together with the snapshot it was checked against. -/
theorem validateCreateSecurity_bytes {options : CreateOptions}
    (h : validateCreateSecurity options entries = .ok ())
    (hbytes : bytesOf entries ≤ totalQuotaBytes.toNat) :
    options.totalSize.toNat + bytesOf entries ≤ totalQuotaBytes.toNat := by
  have hsize := (validateCreateSecurity_sizes h).2
  obtain ⟨parsed, hp⟩ := validateCreateSecurity_parsed h
  unfold validateCreateSecurity at h
  simp only [hp] at h
  split_ifs at h with _ hquota
  have hsum := quotaStep_bytes parsed entries (options.totalSize, 0)
  have hle := UInt64.not_lt.mp (not_or.mp hquota).1
  dsimp only at hsum
  rw [UInt64.le_iff_toNat_le] at hle hsize
  simp only [totalQuotaBytes, maxSegmentSize, UInt64.reduceToNat] at hle hsize hbytes ⊢
  omega

end Sums

section Registry

variable {p q : RegistryPayload} {m : EntryMap}

/-- What is listed after a registration is the new entry or was listed under another name. -/
theorem RegistryInv.listed_register (h : RegistryInv p m) {entry : RegistryEntry}
    (hne : entryName entry ≠ []) (hreg : p.registerSegment entry = (.ok (), q)) :
    RegistryInv q (Function.update m (entryName entry) (some entry.content)) ∧
      ∀ e ∈ q.list [], e.content = entry.content ∨
        (entryName e ≠ entryName entry ∧ ∃ old ∈ p.list [], old.content = e.content) := by
  have hinv := h.register_ok hne hreg
  refine ⟨hinv, ?_⟩
  intro e he
  have hm := hinv.listed.2.1 e he
  by_cases hname : entryName e = entryName entry
  · rw [hname, Function.update_self] at hm
    exact .inl (Option.some.inj hm).symm
  · rw [Function.update_of_ne hname] at hm
    exact .inr ⟨hname, h.listed.2.2 _ _ hm⟩

theorem RegistryInv.listed_unregister (h : RegistryInv p m) (name : Name) :
    (∃ m', RegistryInv (p.unregister name).2 m') ∧
      ∀ e ∈ (p.unregister name).2.list [], ∃ old ∈ p.list [], old.content = e.content := by
  have hinv := h.unregistered name
  refine ⟨⟨_, hinv⟩, ?_⟩
  intro e he
  have hm := hinv.listed.2.1 e he
  refine h.listed.2.2 (entryName e) _ ?_
  by_cases hname : entryName e = name
  · rw [hname, Function.update_self] at hm
    cases hm
  · rwa [Function.update_of_ne hname] at hm

end Registry

/-- What a thread inside `create` knows about its snapshot. -/
def QuotaPc.Sized : QuotaPc → Prop
  | .idle | .unlinked _ => True
  | .listed _ existing => bytesOf existing ≤ totalQuotaBytes.toNat
  | .checked options existing | .opened options existing _ _ =>
    bytesOf existing ≤ totalQuotaBytes.toNat ∧ validateCreateSecurity options existing = .ok ()

structure QuotaInv (c : QuotaConfig T) : Prop where
  represents : ∃ m, RegistryInv c.registry m
  bounded : bytesOf (c.registry.list []) ≤ totalQuotaBytes.toNat
  threads : ∀ t, (c.threads t).Sized

variable [DecidableEq T] {c c' : QuotaConfig T} {e : QuotaEvent T} {log : List (QuotaEvent T)}

omit [DecidableEq T] in
theorem quotaInv_initial : QuotaInv (.initial : QuotaConfig T) := by
  refine ⟨⟨_, registryInv_zeroPayload⟩, ?_, fun _ => trivial⟩
  exact (congrArg bytesOf list_zeroPayload).trans_le (Nat.zero_le _)

omit [DecidableEq T] in
/-- A registration stays within the quota if it sees what is registered. -/
theorem QuotaInv.registerCreated (h : QuotaInv c) {options : CreateOptions}
    {existing : List RegistryEntry} {env : CreateEnv} {header : ShmHeader}
    {registry : RegistryPayload}
    (hreg : Shmfx.registerCreated options env header c.registry = .ok registry)
    (hsized : bytesOf existing ≤ totalQuotaBytes.toNat ∧
      validateCreateSecurity options existing = .ok ())
    (hseen : ∀ entry ∈ c.registry.list [], entryName entry ≠ options.name →
      ∃ seen ∈ existing, entryName seen = entryName entry ∧ seen.totalSize = entry.totalSize) :
    (∃ m, RegistryInv registry m) ∧ bytesOf (registry.list []) ≤ totalQuotaBytes.toNat := by
  obtain ⟨m, hm⟩ := h.represents
  unfold Shmfx.registerCreated at hreg
  split_ifs at hreg with hname
  · cases hreg
    exact ⟨⟨m, hm⟩, h.bounded⟩
  · obtain ⟨parsed, hparsed⟩ := validateCreateSecurity_parsed hsized.2
    have hentry :
        entryName (createEntry options env header) = options.name ∧ options.name ≠ [] :=
      entryName_createEntry env header hparsed
    generalize hcall : c.registry.registerSegment (createEntry options env header) = reply at hreg
    obtain ⟨_ | _, q⟩ := reply
    · cases hreg
    · cases hreg
      obtain ⟨hm', hold⟩ := hm.listed_register (by rw [hentry.1]; exact hentry.2) hcall
      refine ⟨⟨_, hm'⟩, ?_⟩
      have hsum : bytesOf (registry.list []) ≤
          bytesOf (createEntry options env header :: existing) := by
        refine bytesOf_le_of_seen hm'.listed.1 ?_
        intro e he
        rcases hold e he with hnew | ⟨hother, old, hmem, hcontent⟩
        · exact ⟨_, List.mem_cons_self, key_of_content hnew.symm⟩
        · obtain ⟨hoName, hoSize⟩ := key_of_content hcontent
          rw [hentry.1, ← hoName] at hother
          obtain ⟨seen, hs, hsName, hsSize⟩ := hseen old hmem hother
          exact ⟨seen, List.mem_cons_of_mem _ hs, hsName.trans hoName, hsSize.trans hoSize⟩
      rw [bytesOf_cons] at hsum
      exact hsum.trans (validateCreateSecurity_bytes hsized.2 hsized.1)

theorem quotaInv_setPc (h : QuotaInv c) {t : T} {pc : QuotaPc} (hpc : pc.Sized) :
    QuotaInv (c.setPc t pc) where
  represents := h.represents
  bounded := h.bounded
  threads := (Function.forall_update_iff c.threads (p := fun _ pc => pc.Sized)).mpr
    ⟨hpc, fun t' _ => h.threads t'⟩

theorem quotaInv_step (h : QuotaInv c) (hs : QuotaStep c e c') (hok : SeesRegistered c e) :
    QuotaInv c' := by
  have hlinked : ∀ name present, QuotaInv (c.setLinked name present) :=
    fun _ _ => ⟨h.represents, h.bounded, h.threads⟩
  have hregistry : ∀ registry, (∃ m, RegistryInv registry m) →
      bytesOf (registry.list []) ≤ totalQuotaBytes.toNat →
      QuotaInv { c with registry := registry } :=
    fun _ hm hbounded => ⟨hm, hbounded, h.threads⟩
  cases hs with
  | list => exact quotaInv_setPc h h.bounded
  | @check t options existing hpc hcheck =>
    have hsized := h.threads t
    rw [hpc] at hsized
    exact quotaInv_setPc h ⟨hsized, hcheck⟩
  | refuse | openFails => exact quotaInv_setPc h trivial
  | @openObject t options existing env signed hpc =>
    have hsized := h.threads t
    rw [hpc] at hsized
    exact quotaInv_setPc (hlinked _ _) hsized
  | @register t options existing env header registry hpc hreg =>
    have hsized := h.threads t
    rw [hpc] at hsized
    obtain ⟨hm, hbounded⟩ := h.registerCreated hreg hsized (hok options existing env header hpc)
    exact quotaInv_setPc (hregistry _ hm hbounded) trivial
  | registerFails | unlink => exact quotaInv_setPc (hlinked _ _) trivial
  | @unregister t name hpc =>
    obtain ⟨m, hm⟩ := h.represents
    obtain ⟨⟨m', hm'⟩, hold⟩ := hm.listed_unregister name
    have hbounded : bytesOf ((c.registry.unregister name).2.list []) ≤ totalQuotaBytes.toNat := by
      refine (bytesOf_le_of_seen hm'.listed.1 ?_).trans h.bounded
      intro e he
      obtain ⟨old, hmem, hcontent⟩ := hold e he
      exact ⟨old, hmem, key_of_content hcontent⟩
    split
    · exact quotaInv_setPc h trivial
    · exact quotaInv_setPc (hregistry _ ⟨m', hm'⟩ hbounded) trivial

/-- As long as every registration sees what is registered, the quota is never exceeded. -/
theorem quota_never_exceeded (hrun : Run (Guarded SeesRegistered QuotaStep) .initial log c) :
    bytesOf (c.registry.list []) ≤ totalQuotaBytes.toNat := by
  refine (Run.invariant (I := fun _ c => QuotaInv c) quotaInv_initial ?_ hrun).bounded
  intro log c e c' _ h hs
  exact quotaInv_step h hs.2 hs.1

/-- A `create` that nothing fails, up to its registration. -/
theorem unregistered_run {t : T} {options : CreateOptions} {env : CreateEnv} {signed : ShmHeader}
    (h : c.threads t = .idle)
    (hcheck : validateCreateSecurity options (c.registry.list []) = .ok ())
    (hlayout : checkLayout options = .ok ()) (hfree : c.linked options.name = false)
    (hsign : signHeaderIfEnabled env.keys (writeHeader options env) = .ok signed) :
    Run (Guarded SeesRegistered QuotaStep) c [.tau, .tau, .tau]
      ((c.setLinked options.name true).setPc t
        (.opened options (c.registry.list []) env (finishHeader env signed))) := by
  obtain ⟨parsed, hparsed⟩ := validateCreateSecurity_parsed hcheck
  have hself : ∀ (d : QuotaConfig T) pc, (d.setPc t pc).threads t = pc :=
    fun d pc => Function.update_self ..
  have hidem : ∀ (d : QuotaConfig T) pc pc', (d.setPc t pc).setPc t pc' = d.setPc t pc' :=
    fun d pc pc' => by simp only [QuotaConfig.setPc, Function.update_idem]
  refine .cons ⟨trivial, .list h hparsed⟩ ?_
  refine .cons ⟨trivial, .check (hself _ _) hcheck hlayout⟩ ?_
  rw [hidem, ← hidem (c.setLinked options.name true) (.checked options (c.registry.list []))]
  exact .single ⟨trivial, .openObject (hself _ _) hfree hsign⟩

section Crowd

/-- Segments of 1 GiB, told apart by their last letter. -/
def giantOptions (k : Nat) : CreateOptions :=
  ⟨nameStart ++ asciiBytes ['a', 'p', 'p', '.'] ++ [UInt8.ofNat (97 + k)], .raw, 0x40000000, 0, 0⟩

def giantHeader (k : Nat) : ShmHeader :=
  finishHeader quietEnv { writeHeader (giantOptions k) quietEnv with hmac := zeroHmac }

/-- Threads 0 to `n - 1` have opened their objects on an empty snapshot. -/
def prepared : Nat → QuotaConfig Nat
  | 0 => .initial
  | n + 1 => ((prepared n).setLinked (giantOptions n).name true).setPc n
      (.opened (giantOptions n) [] quietEnv (giantHeader n))

theorem prepared_registry (n : Nat) : (prepared n).registry = zeroPayload := by
  induction n with
  | zero => rfl
  | succ n ih => exact ih

theorem prepared_idle {n t : Nat} (h : n ≤ t) : (prepared n).threads t = .idle := by
  induction n with
  | zero => rfl
  | succ n ih => exact (Function.update_of_ne (Nat.ne_of_gt h) ..).trans (ih (by omega))

theorem prepared_opened {n t : Nat} (h : t < n) :
    (prepared n).threads t = .opened (giantOptions t) [] quietEnv (giantHeader t) := by
  induction n with
  | zero => omega
  | succ n ih =>
    by_cases ht : t = n
    · subst ht
      exact Function.update_self ..
    · exact (Function.update_of_ne ht ..).trans (ih (by omega))

theorem prepared_free {n : Nat} {name : Name} (hname : name ≠ registryName)
    (h : ∀ t < n, name ≠ (giantOptions t).name) : (prepared n).linked name = false := by
  induction n with
  | zero => exact decide_eq_false hname
  | succ n ih =>
    exact (Function.update_of_ne (h n (by omega)) ..).trans (ih fun t ht => h t (by omega))

theorem giant_names : ∀ s < 5, ∀ t < 5, (giantOptions s).name = (giantOptions t).name → s = t := by
  decide

theorem giant_checked : ∀ k < 5, validateCreateSecurity (giantOptions k) [] = .ok () ∧
    checkLayout (giantOptions k) = .ok () ∧ (giantOptions k).name ≠ registryName := by
  decide

theorem prepared_run {n : Nat} (hn : n ≤ 5) :
    ∃ log, Run (Guarded SeesRegistered QuotaStep) .initial log (prepared n) := by
  induction n with
  | zero => exact ⟨[], .nil⟩
  | succ n ih =>
    obtain ⟨log, hrun⟩ := ih (by omega)
    obtain ⟨hcheck, hlayout, hname⟩ := giant_checked n (by omega)
    have hfree : (prepared n).linked (giantOptions n).name = false :=
      prepared_free hname fun t ht hsame => by
        have := giant_names n (by omega) t (by omega) hsame
        omega
    have hlist : (prepared n).registry.list [] = [] := by
      rw [prepared_registry, list_zeroPayload]
    have hflags : (writeHeader (giantOptions n) quietEnv).flags &&& hmacEnabled = 0 := by
      change (0 ||| robustMutex) &&& hmacEnabled = 0
      decide
    have hstep := unregistered_run (prepared_idle le_rfl) (hlist ▸ hcheck) hlayout hfree
      (if_pos hflags)
    rw [hlist] at hstep
    exact ⟨_, hrun.append hstep⟩

/-- The entry thread `k` registers. -/
def giantEntry (k : Nat) : RegistryEntry := createEntry (giantOptions k) quietEnv (giantHeader k)

theorem entryName_giantEntry : ∀ k < 5, entryName (giantEntry k) = (giantOptions k).name := by
  decide

/-- A thread that has opened its object can register it while there is room. -/
theorem giant_registers {k : Nat} {c : QuotaConfig Nat} {m : EntryMap}
    {existing : List RegistryEntry} (hk : k < 5) (h : RegistryInv c.registry m)
    (hroom : m.size < maxRegistryEntries)
    (hpc : c.threads k = .opened (giantOptions k) existing quietEnv (giantHeader k)) :
    ∃ q, c.registry.registerSegment (giantEntry k) = (.ok (), q) ∧
      RegistryInv q (Function.update m (giantOptions k).name (some (giantEntry k).content)) ∧
      QuotaStep c (.registers k) ({ c with registry := q }.setPc k .idle) := by
  have hname := entryName_giantEntry k hk
  obtain ⟨-, -, hregistry⟩ := giant_checked k hk
  have hne : entryName (giantEntry k) ≠ [] := by
    rw [hname]
    exact List.append_ne_nil_of_right_ne_nil _ (List.cons_ne_nil _ _)
  obtain ⟨q, hq⟩ := h.registered hne hroom
  have hreg : registerCreated (giantOptions k) quietEnv (giantHeader k) c.registry = .ok q := by
    rw [registerCreated, if_neg hregistry]
    simp only [giantEntry] at hq
    rw [hq]
  have hinv := (h.listed_register hne hq).1
  rw [hname] at hinv
  exact ⟨q, hq, hinv, .register hpc hreg⟩

/-- The first `n` threads have registered, and nobody else. -/
structure Crowded (n : Nat) (c : QuotaConfig Nat) (m : EntryMap) : Prop where
  represents : RegistryInv c.registry m
  present : ∀ t < n, m (giantOptions t).name = some (giantEntry t).content
  only : ∀ name, m name ≠ none → ∃ t < n, name = (giantOptions t).name
  waiting : ∀ t, n ≤ t → t < 5 →
    c.threads t = .opened (giantOptions t) [] quietEnv (giantHeader t)

theorem Crowded.size_le {n : Nat} {c : QuotaConfig Nat} {m : EntryMap} (h : Crowded n c m) :
    m.size ≤ n := by
  have hsub : {name | m name ≠ none} ⊆
      ↑((Finset.range n).image fun t => (giantOptions t).name) := by
    intro name hname
    obtain ⟨t, ht, rfl⟩ := h.only name hname
    simpa using ⟨t, ht, rfl⟩
  refine (Set.ncard_le_ncard hsub (Finset.finite_toSet _)).trans ?_
  rw [Set.ncard_coe_finset]
  exact Finset.card_image_le.trans (Finset.card_range n).le

theorem crowded_step {n : Nat} {c : QuotaConfig Nat} {m : EntryMap} (hn : n < 5)
    (h : Crowded n c m) : ∃ c' m', QuotaStep c (.registers n) c' ∧ Crowded (n + 1) c' m' := by
  have hroom : m.size < maxRegistryEntries := by
    have := h.size_le
    simp only [maxRegistryEntries]
    omega
  obtain ⟨q, -, hinv, hstep⟩ := giant_registers hn h.represents hroom (h.waiting n le_rfl hn)
  refine ⟨_, _, hstep, hinv, ?_, ?_, ?_⟩
  · intro t ht
    by_cases htn : t = n
    · rw [htn]
      exact Function.update_self ..
    · have hother : (giantOptions t).name ≠ (giantOptions n).name :=
        fun hsame => htn (giant_names t (by omega) n hn hsame)
      rw [Function.update_of_ne hother]
      exact h.present t (by omega)
  · intro name hpresent
    by_cases hsame : name = (giantOptions n).name
    · exact ⟨n, by omega, hsame⟩
    · rw [Function.update_of_ne hsame] at hpresent
      obtain ⟨t, ht, rfl⟩ := h.only name hpresent
      exact ⟨t, by omega, rfl⟩
  · intro t ht ht'
    exact (Function.update_of_ne (Nat.ne_of_gt ht) ..).trans (h.waiting t (by omega) ht')

theorem crowded_prepared : Crowded 0 (prepared 5) fun _ => none := by
  refine ⟨?_, nofun, fun _ h => absurd rfl h, fun t _ => prepared_opened⟩
  rw [prepared_registry]
  exact registryInv_zeroPayload

theorem crowded_run {n : Nat} (hn : n ≤ 5) : ∃ log c m,
    Run QuotaStep (prepared 5) log c ∧ Crowded n c m := by
  induction n with
  | zero => exact ⟨[], prepared 5, _, .nil, crowded_prepared⟩
  | succ n ih =>
    obtain ⟨log, c, m, hrun, hcrowded⟩ := ih (by omega)
    obtain ⟨c', m', hstep, hcrowded'⟩ := crowded_step hn hcrowded
    exact ⟨_, c', m', hrun.snoc hstep, hcrowded'⟩

/-- The second of two creates takes its snapshot after the first has registered. -/
theorem quota_never_exceeded_two : ∃ (log : List (QuotaEvent Nat)) (c : QuotaConfig Nat),
    Run (Guarded SeesRegistered QuotaStep) .initial log c ∧ .registers 0 ∈ log ∧
      .registers 1 ∈ log ∧ bytesOf (c.registry.list []) ≤ totalQuotaBytes.toNat := by
  obtain ⟨log, hprepared⟩ := prepared_run (n := 1) (by decide)
  obtain ⟨q, hq, hinv, hfirst⟩ := giant_registers (k := 0) (c := prepared 1) (by decide)
    registryInv_zeroPayload (size_empty ▸ by decide) (prepared_opened (by decide))
  have hnone : SeesRegistered (prepared 1) (.registers 0) := by
    intro options existing env header _ entry hentry
    rw [prepared_registry, list_zeroPayload] at hentry
    cases hentry
  have hcheck : validateCreateSecurity (giantOptions 1) (q.list []) = .ok () := by
    rw [prepared_registry] at hq
    have hlisted : validateCreateSecurity (giantOptions 1)
        ((zeroPayload.registerSegment (giantEntry 0)).2.list []) = .ok () := by
      decide +kernel
    rwa [hq] at hlisted
  let c₁ := { prepared 1 with registry := q }.setPc 0 .idle
  let pc : QuotaPc := .opened (giantOptions 1) (c₁.registry.list []) quietEnv (giantHeader 1)
  let c₂ := (c₁.setLinked (giantOptions 1).name true).setPc 1 pc
  have hregistry : c₁.registry = q := rfl
  have hfree : c₁.linked (giantOptions 1).name = false :=
    show (prepared 1).linked (giantOptions 1).name = false by decide +kernel
  have hsign : signHeaderIfEnabled quietEnv.keys (writeHeader (giantOptions 1) quietEnv) =
      .ok { writeHeader (giantOptions 1) quietEnv with hmac := zeroHmac } := by
    refine if_pos ?_
    decide +kernel
  have hopened : Run (Guarded SeesRegistered QuotaStep) c₁ [.tau, .tau, .tau] c₂ :=
    unregistered_run rfl (hregistry ▸ hcheck) (by decide +kernel) hfree hsign
  have hpc : c₂.threads 1 = pc := rfl
  have hsees : SeesRegistered c₂ (.registers 1) := by
    intro options existing env header hthread entry hentry _
    obtain ⟨-, rfl, -⟩ := QuotaPc.opened.inj (hpc.symm.trans hthread)
    exact ⟨entry, hentry, rfl, rfl⟩
  obtain ⟨q', -, -, hsecond⟩ := giant_registers (k := 1) (c := c₂) (by decide) hinv
    (size_single .. ▸ by decide) hpc
  have hrun := ((hprepared.snoc ⟨hnone, hfirst⟩).append hopened).snoc ⟨hsees, hsecond⟩
  exact ⟨_, _, hrun, by simp, by simp, quota_never_exceeded hrun⟩

/-- Five creates of 1 GiB that all take their snapshot first register 5 GiB. -/
theorem quota_exceeded : ∃ (log : List (QuotaEvent Nat)) (c : QuotaConfig Nat),
    Run QuotaStep .initial log c ∧ totalQuotaBytes.toNat < bytesOf (c.registry.list []) := by
  obtain ⟨log, hprepared⟩ := prepared_run (n := 5) le_rfl
  obtain ⟨log', c, m, hrun, hcrowded⟩ := crowded_run (n := 5) le_rfl
  refine ⟨_, c, hprepared.unguard.append hrun, ?_⟩
  have hsum : bytesOf ((List.range 5).map giantEntry) ≤ bytesOf (c.registry.list []) := by
    refine bytesOf_le_of_seen (by decide) ?_
    intro entry hentry
    obtain ⟨t, ht, rfl⟩ := List.mem_map.mp hentry
    obtain ⟨old, hold, hcontent⟩ := hcrowded.represents.listed.2.2 _ _
      (hcrowded.present t (List.mem_range.mp ht))
    exact ⟨old, hold, key_of_content hcontent⟩
  have hgiant : bytesOf ((List.range 5).map giantEntry) = 5 * 2 ^ 30 := by decide
  rw [hgiant] at hsum
  have hquota : totalQuotaBytes.toNat = 2 ^ 32 := rfl
  omega

end Crowd

end Shmfx
