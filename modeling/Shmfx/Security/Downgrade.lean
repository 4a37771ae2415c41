import Shmfx.Janitor.Pass
import Shmfx.Lib.Lts

/-! A segment signed under a key while another process tampers with its header: overwrites, `gc`
passes and `attach` calls in any order. -/
namespace Shmfx

open Lts

/-- `registry_expects_hmac`. -/
def registryExpectsHmac (p : RegistryPayload) (name : Name) : Bool :=
  if name = registryName then false
  else
    match (p.list name).find? fun entry => entryName entry == name with
    | some entry => entry.flags &&& hmacEnabled != 0
    | none => false

/-- What the process around an `attach` call answers; the error for an object that is too short
is whatever `errno` was before. -/
structure AttachEnv where
  gc : GcEnv
  openError : Option ErrorCode
  shortError : ErrorCode
  mapError : Option ErrorCode
  keys : KeySource

def failWith : Option ErrorCode → Except ErrorCode Unit
  | none => .ok ()
  | some e => .error e

def rejectIf (rejected : Prop) [Decidable rejected] (e : ErrorCode) : Except ErrorCode Unit :=
  if rejected then .error e else .ok ()

/-- The checks of `attach`, from `shm_open` to the load of the state. -/
def attachChecks (env : AttachEnv) (name : Name) (s : SegmentStore) :
    Except ErrorCode SegmentMemory := do
  let object ← (s.names name).elim (.error .notFound) .ok
  failWith env.openError
  rejectIf (object.size < headerSize) env.shortError
  failWith env.mapError
  validateHeader object.header object.size
  rejectIf (object.header.nameView ≠ name) .corruptedHeader
  rejectIf (registryExpectsHmac s.registry name ∧ object.header.flags &&& hmacEnabled = 0)
    .corruptedHeader
  verifyHeaderHmac env.keys object.header
  rejectIf (object.header.state = SegmentState.dead.code) .segmentDead
  return object

/-- `ShmManager::attach` with the header it succeeded on; undisturbed, it finds the same state
after its increment. -/
def attach (env : AttachEnv) (name : Name) (mode : AttachMode) (s : SegmentStore) :
    Except ErrorCode ShmHeader × SegmentStore :=
  match parseAndValidateName name with
  | .error e => (.error e, s)
  | .ok _ =>
    let swept := if name = registryName then s else gcPass env.gc s
    match attachChecks env name swept with
    | .error e => (.error e, swept)
    | .ok object =>
      match mode with
      | .readOnly => (.ok object.header, swept)
      | .readWrite =>
        (.ok object.header, swept.setHeader name object
          { object.header with refCount := object.header.refCount + 1 })

inductive TamperEvent
  | overwritten (header : ShmHeader)
  | collected (env : GcEnv)
  | attached (env : AttachEnv) (name : Name) (mode : AttachMode)
      (result : Except ErrorCode ShmHeader)

/-- One overwrite of the header under `name`, one pass, or one call. -/
inductive TamperStep (name : Name) : SegmentStore → TamperEvent → SegmentStore → Prop
  | overwrite {s : SegmentStore} {object : SegmentMemory} (header : ShmHeader)
      (h : s.names name = some object) :
      TamperStep name s (.overwritten header) (s.setHeader name object header)
  | gc {s : SegmentStore} (env : GcEnv) : TamperStep name s (.collected env) (gcPass env s)
  | attach {s : SegmentStore} (env : AttachEnv) (other : Name) (mode : AttachMode) :
      TamperStep name s (.attached env other mode (attach env other mode s).1)
        (attach env other mode s).2

/-- A store in which a `create` with `HmacEnabled` under the key has just made the segment. -/
inductive SignedUnder (key : Vector UInt8 hmacBytes) (name : Name) : SegmentStore → Prop
  | created {options : CreateOptions} {env : CreateEnv} {p p' : RegistryPayload} {m : EntryMap}
      {header : ShmHeader} {names : Name → Option SegmentMemory} (hname : options.name = name)
      (hfree : names name = none) (hregistry : names registryName ≠ none)
      (hinv : RegistryInv p m) (hflag : options.flags &&& hmacEnabled ≠ 0)
      (hkey : loadHmacKey env.keys = some key) (hok : create options env p = .ok (header, p')) :
      SignedUnder key name
        ⟨Function.update names name (some ⟨options.totalSize, header⟩), p'⟩

/-- The janitor finds the header valid. -/
def HeaderSwept (name : Name) (s : SegmentStore) : Prop :=
  ∀ object, s.names name = some object → janitorHeaderValid object.header object.size = true

/-- Every pass starts on a header that the janitor finds valid, and `attach` on the name has the
key. -/
def SweptValid (key : Vector UInt8 hmacBytes) (name : Name) (s : SegmentStore) :
    TamperEvent → Prop
  | .overwritten _ => True
  | .collected _ => HeaderSwept name s
  | .attached env other _ _ =>
    HeaderSwept name s ∧ (other = name → loadHmacKey env.keys = some key)

/-- The registry has an entry for the name as long as it is linked, and no entry of the name says
that the segment is not signed. -/
def Remembered (name : Name) (s : SegmentStore) : Prop :=
  ∃ m, RegistryInv s.registry m ∧
    (∀ entry, m name = some entry → entry.flags &&& hmacEnabled ≠ 0) ∧
    ∀ object, s.names name = some object → m name ≠ none

section Proofs

variable {env : GcEnv} {s : SegmentStore} {entry : RegistryEntry} {m : EntryMap} {name : Name}
  {p : RegistryPayload} {key : Vector UInt8 hmacBytes}

theorem registryExpectsHmac_of_entry (h : RegistryInv p m) (hname : name ≠ registryName)
    (he : m name = some entry) :
    registryExpectsHmac p name = (entry.flags &&& hmacEnabled != 0) := by
  have hfind := h.find_name name
  rw [he] at hfind
  obtain ⟨old, hold, hcontent⟩ := Option.map_eq_some_iff.mp hfind
  rw [registryExpectsHmac, if_neg hname, hold]
  have hflags : old.flags = entry.flags := by rw [← hcontent]; rfl
  exact congrArg (· &&& hmacEnabled != 0) hflags

theorem registryExpectsHmac_of_absent (h : RegistryInv p m) (he : m name = none) :
    registryExpectsHmac p name = false := by
  have hfind := h.find_name name
  rw [he, Option.map_eq_none_iff] at hfind
  rw [registryExpectsHmac, hfind]
  split <;> rfl

theorem remembered_gcEntry (h : Remembered name s) (hv : HeaderSwept name s)
    (hflag : entryName entry = name → entry.flags &&& hmacEnabled ≠ 0) :
    Remembered name (gcEntry env s entry) ∧ HeaderSwept name (gcEntry env s entry) := by
  obtain ⟨m, hm, he, hlinked⟩ := h
  have heffect := gcEntry_effect env s entry
  by_cases hname : entryName entry = name
  · subst hname
    have hgone (s' : SegmentStore) (hm' : RegistryInv s'.registry m)
        (hnone : s'.names (entryName entry) = none) :
        Remembered (entryName entry) (s'.unregister (entryName entry)) ∧
          HeaderSwept (entryName entry) (s'.unregister (entryName entry)) := by
      refine ⟨⟨_, hm'.unregisterIn _, fun e h => ?_, fun _ ho => ?_⟩, fun _ ho => ?_⟩
      · rw [Function.update_self] at h
        cases h
      · cases hnone.symm.trans ho
      · cases hnone.symm.trans ho
    generalize gcEntry env s entry = s' at heffect ⊢
    cases heffect with
    | kept => exact ⟨⟨m, hm, he, hlinked⟩, hv⟩
    | dropped hn =>
      refine hgone s hm ?_
      by_contra hsome
      obtain ⟨object, ho⟩ := Option.ne_none_iff_exists'.mp hsome
      have hvalid := hv object ho
      rcases hn object ho with hshort | hbroken
      · have hsize := janitorHeaderValid_iff.mp hvalid
        rw [← hsize.total, UInt64.lt_iff_toNat_lt] at hshort
        exact absurd hsize.header (Nat.not_le.mpr hshort)
      · rw [hvalid] at hbroken
        cases hbroken
    | removed => exact hgone (s.unlink (entryName entry)) hm (Function.update_self ..)
    | @drained object hn hne =>
      obtain ⟨m', hm', hcases⟩ := hm.drainOrphan hne object env.now
      have hat : (s.drainOrphan entry object env.now).names (entryName entry) =
          some ⟨object.size, { object.header with state := SegmentState.draining.code }⟩ :=
        Function.update_self ..
      refine ⟨⟨m', hm', ?_, ?_⟩, fun object' ho => ?_⟩
      · rcases hcases with rfl | rfl
        · exact he
        · intro e h
          rw [Function.update_self] at h
          cases h
          exact hflag rfl
      · intro _ _
        rcases hcases with rfl | rfl
        · exact hlinked object hn
        · rw [Function.update_self]
          exact Option.some_ne_none _
      · cases hat.symm.trans ho
        exact hv object hn
  · obtain ⟨m', hm', hframe⟩ := heffect.frame hm
    obtain ⟨hnames, hentry⟩ := hframe name (Ne.symm hname)
    refine ⟨⟨m', hm', ?_, ?_⟩, ?_⟩
    · rw [hentry]
      exact he
    · rw [hnames, hentry]
      exact hlinked
    · rw [HeaderSwept, hnames]
      exact hv

/-- A pass over a valid header leaves the segment's entry and its flag in place. -/
theorem remembered_gcPass (env : GcEnv) (h : Remembered name s) (hv : HeaderSwept name s) :
    Remembered name (gcPass env s) := by
  have hflag : ∀ entry ∈ s.registry.list [], entryName entry = name →
      entry.flags &&& hmacEnabled ≠ 0 := by
    obtain ⟨m, hm, he, -⟩ := h
    intro entry hentry hname
    exact he entry.content (hname ▸ hm.listed.2.1 entry hentry)
  unfold gcPass
  generalize s.registry.list [] = entries at hflag ⊢
  have hpass : Remembered name (entries.foldl (gcEntry env) s) ∧
      HeaderSwept name (entries.foldl (gcEntry env) s) :=
    List.foldlRecOn (motive := fun s => Remembered name s ∧ HeaderSwept name s) entries
      (gcEntry env) ⟨h, hv⟩
      fun _ ih entry hentry => remembered_gcEntry ih.1 ih.2 (hflag entry hentry)
  exact hpass.1

theorem rejectIf_ok {rejected : Prop} [Decidable rejected] {e : ErrorCode} {u : Unit} :
    rejectIf rejected e = .ok u ↔ ¬ rejected := by
  unfold rejectIf
  by_cases h : rejected
  · simp [h]
  · simp [h]

theorem attachChecks_ok {env : AttachEnv} {object : SegmentMemory}
    (h : attachChecks env name s = .ok object) :
    s.names name = some object ∧
      (registryExpectsHmac s.registry name = true → object.header.flags &&& hmacEnabled ≠ 0) ∧
      verifyHeaderHmac env.keys object.header = .ok () := by
  obtain ⟨object', hopen, h⟩ := bind_eq_ok h
  obtain ⟨_, -, h⟩ := bind_eq_ok h
  obtain ⟨_, -, h⟩ := bind_eq_ok h
  obtain ⟨_, -, h⟩ := bind_eq_ok h
  obtain ⟨_, -, h⟩ := bind_eq_ok h
  obtain ⟨_, -, h⟩ := bind_eq_ok h
  obtain ⟨_, hexpects, h⟩ := bind_eq_ok h
  obtain ⟨_, hverify, h⟩ := bind_eq_ok h
  obtain ⟨_, -, h⟩ := bind_eq_ok h
  cases h
  refine ⟨?_, ?_, hverify⟩
  · cases hn : s.names name with
    | none =>
      rw [hn] at hopen
      cases hopen
    | some found =>
      rw [hn] at hopen
      cases hopen
      rfl
  · intro hexpected hclear
    exact rejectIf_ok.mp hexpects ⟨hexpected, hclear⟩

/-- The registry an `attach` on the segment consults still has its entry. -/
theorem attach_signed {env : AttachEnv} {mode : AttachMode} {header : ShmHeader}
    (hname : name ≠ registryName) (h : Remembered name s) (hv : HeaderSwept name s)
    (hkey : loadHmacKey env.keys = some key) (hok : (attach env name mode s).1 = .ok header) :
    header.hmac = hmacSha256 key header.immutableBytes := by
  unfold attach at hok
  cases hparse : parseAndValidateName name with
  | error e =>
    rw [hparse] at hok
    cases hok
  | ok parsed =>
    simp only [hparse, if_neg hname] at hok
    cases hchecks : attachChecks env name (gcPass env.gc s) with
    | error e =>
      rw [hchecks] at hok
      cases hok
    | ok object =>
      have hheader : object.header = header := by
        rw [hchecks] at hok
        cases mode with
        | readOnly => exact Except.ok.inj hok
        | readWrite => exact Except.ok.inj hok
      obtain ⟨hlinked, hflag, hverify⟩ := attachChecks_ok hchecks
      obtain ⟨m, hm, he, hentry⟩ := remembered_gcPass env.gc h hv
      obtain ⟨entry, hsome⟩ := Option.ne_none_iff_exists'.mp (hentry object hlinked)
      have hexpected : registryExpectsHmac (gcPass env.gc s).registry name = true := by
        rw [registryExpectsHmac_of_entry hm hname hsome]
        simpa using he entry hsome
      rw [← hheader]
      exact verifyHeader_digest hverify (hflag hexpected) hkey

theorem remembered_setHeader (h : Remembered name s) {other : Name} {object : SegmentMemory}
    (ho : s.names other = some object) (header : ShmHeader) :
    Remembered name (s.setHeader other object header) := by
  obtain ⟨m, hm, he, hlinked⟩ := h
  refine ⟨m, hm, he, fun object' hn => ?_⟩
  by_cases hname : name = other
  · subst hname
    exact hlinked object ho
  · exact hlinked object' ((Function.update_of_ne hname ..).symm.trans hn)

theorem remembered_attach {env : AttachEnv} {other : Name} {mode : AttachMode}
    (h : Remembered name s) (hv : HeaderSwept name s) :
    Remembered name (attach env other mode s).2 := by
  unfold attach
  cases hparse : parseAndValidateName other with
  | error e => exact h
  | ok parsed =>
    have hswept : Remembered name (if other = registryName then s else gcPass env.gc s) := by
      split
      · exact h
      · exact remembered_gcPass env.gc h hv
    generalize (if other = registryName then s else gcPass env.gc s) = swept at hswept ⊢
    dsimp only
    cases hchecks : attachChecks env other swept with
    | error e => exact hswept
    | ok object =>
      cases mode with
      | readOnly => exact hswept
      | readWrite => exact remembered_setHeader hswept (attachChecks_ok hchecks).1 _

theorem remembered_step {e : TamperEvent} {s' : SegmentStore} (hs : TamperStep name s e s')
    (hok : SweptValid key name s e) (h : Remembered name s) : Remembered name s' := by
  cases hs with
  | overwrite header ho => exact remembered_setHeader h ho header
  | gc env => exact remembered_gcPass env h hok
  | attach => exact remembered_attach h hok.1

theorem robustMutex_hmacEnabled (flags : UInt32) :
    (flags ||| robustMutex) &&& hmacEnabled = flags &&& hmacEnabled := by
  have hdisjoint : (robustMutex &&& hmacEnabled).toBitVec = 0 := by decide
  apply UInt32.toBitVec_inj.mp
  simp only [UInt32.toBitVec_and, UInt32.toBitVec_or] at hdisjoint ⊢
  ext i hi
  have hbit : (robustMutex.toBitVec[i] && hmacEnabled.toBitVec[i]) = false := by
    simpa using congrArg (fun v : BitVec 32 => v[i]) hdisjoint
  rw [BitVec.getElem_and, BitVec.getElem_and, BitVec.getElem_or, Bool.and_or_distrib_right, hbit,
    Bool.or_false]

/-- A `create` that succeeds leaves the entry of its header in the registry. -/
theorem create_registered {options : CreateOptions} {env : CreateEnv} {p' : RegistryPayload}
    {header : ShmHeader} (hok : create options env p = .ok (header, p')) (h : RegistryInv p m)
    (hname : options.name ≠ registryName) :
    RegistryInv p'
      (Function.update m options.name (some (createEntry options env header).content)) := by
  obtain ⟨⟨parsed, hparse⟩, -, -, hreg, -⟩ := create_ok hok
  obtain ⟨hentry, hnil⟩ := entryName_createEntry env header hparse
  rw [registerCreated, if_neg hname] at hreg
  generalize hcall : p.registerSegment (createEntry options env header) = reply at hreg
  obtain ⟨_ | _, q⟩ := reply
  · cases hreg
  · cases hreg
    rw [← hentry] at hnil ⊢
    exact h.register_ok hnil hcall

theorem remembered_created {s₀ : SegmentStore} (h : SignedUnder key name s₀) :
    name ≠ registryName ∧ Remembered name s₀ := by
  cases h with
  | @created options env p p' m header names hname hfree hregistry hinv hflag _ hok =>
    subst hname
    have hne : options.name ≠ registryName := by
      intro heq
      rw [heq] at hfree
      exact hregistry hfree
    refine ⟨hne, _, create_registered hok hinv hne, fun entry he => ?_, fun _ _ => ?_⟩
    · rw [Function.update_self] at he
      cases he
      have hflags : header.flags = options.flags ||| robustMutex := by
        rw [created_eq hok]
        rfl
      show header.flags &&& hmacEnabled ≠ 0
      rwa [hflags, robustMutex_hmacEnabled]
    · rw [Function.update_self]
      exact Option.some_ne_none _

theorem remembered_run {s₀ : SegmentStore} {as : List TamperEvent} (h₀ : SignedUnder key name s₀)
    (hr : Run (Guarded (SweptValid key name) (TamperStep name)) s₀ as s) : Remembered name s := by
  induction hr with
  | nil => exact (remembered_created h₀).2
  | snoc _ hs ih => exact remembered_step hs.2 hs.1 ih

/-- As long as the janitor never meets the header in an invalid state, what `attach` accepts is
signed under the key. -/
theorem hmac_not_downgraded {s₀ : SegmentStore} {as : List TamperEvent}
    (h₀ : SignedUnder key name s₀)
    (hr : Run (Guarded (SweptValid key name) (TamperStep name)) s₀ as s) {env : AttachEnv}
    {mode : AttachMode} {header : ShmHeader} (ha : .attached env name mode (.ok header) ∈ as) :
    header.hmac = hmacSha256 key header.immutableBytes := by
  obtain ⟨bs, cs, t, t', -, hbs, hok, hs⟩ := hr.exists_step ha
  have hremembered := remembered_run h₀ hbs
  generalize hresult : Except.ok header = result at hs
  cases hs with
  | attach =>
    exact attach_signed (remembered_created h₀).1 hremembered hok.1 (hok.2 rfl) hresult.symm

/-- `attach` takes every linked header that passes the checks. -/
theorem attach_of_valid {env : AttachEnv} {object : SegmentMemory} {parsed : ParsedName}
    (hparse : parseAndValidateName name = .ok parsed) (hne : name ≠ registryName)
    (hn : (gcPass env.gc s).names name = some object) (hopen : env.openError = none)
    (hmap : env.mapError = none) (hvalid : validateHeader object.header object.size = .ok ())
    (hname : object.header.nameView = name)
    (hflag : registryExpectsHmac (gcPass env.gc s).registry name = true →
      object.header.flags &&& hmacEnabled ≠ 0)
    (hverify : verifyHeaderHmac env.keys object.header = .ok ())
    (hstate : object.header.state ≠ SegmentState.dead.code) :
    (attach env name .readOnly s).1 = .ok object.header := by
  have hsize : ¬ object.size < headerSize := by
    have h := validateHeader_ok_iff.mp hvalid
    rw [← h.total, UInt64.not_lt, UInt64.le_iff_toNat_le]
    exact h.header
  have hchecks : attachChecks env name (gcPass env.gc s) = .ok object := by
    unfold attachChecks
    simp only [hn, hopen, hmap, failWith, Option.elim, bind, Except.bind, rejectIf, hsize, hvalid,
      hname, hverify, hstate, ne_eq, not_true_eq_false, if_false, pure, Except.pure]
    rw [if_neg fun h => hflag h.1 h.2]
  unfold attach
  simp only [hparse, if_neg hne, hchecks]

theorem attached_step {env : AttachEnv} {mode : AttachMode} {result : Except ErrorCode ShmHeader}
    (h : (attach env name mode s).1 = result) :
    TamperStep name s (.attached env name mode result) (attach env name mode s).2 :=
  h ▸ .attach env name mode

section Forgery

/-- A process like `quietEnv` that has a key. -/
def keyedEnv : CreateEnv := { quietEnv with keys := ⟨some (List.replicate 64 48), none⟩ }

def zeroKey : Vector UInt8 hmacBytes := .replicate _ 0

def signedOptions : CreateOptions := { sizedOptions 0 with flags := hmacEnabled }

theorem loadHmacKey_keyed : loadHmacKey keyedEnv.keys = some zeroKey := by
  decide +kernel

/-- Nothing linked but the registry. -/
def registryOnly (name : Name) : Option SegmentMemory :=
  if name = registryName then some ⟨4096, zeroHeader⟩ else none

/-- A system in which every process runs, and a pass can open and map every object. -/
def seeingGcEnv : GcEnv :=
  ⟨fun _ => some keyedEnv.startTime, 1, fun _ => false, fun _ => false, fun _ => false,
    fun _ => true⟩

def keyedAttachEnv (gc : GcEnv) : AttachEnv := ⟨gc, none, .permissionDenied, none, keyedEnv.keys⟩

theorem exists_signed : ∃ (s₀ : SegmentStore) (header : ShmHeader) (entry : RegistryEntry),
    SignedUnder zeroKey signedOptions.name s₀ ∧
      s₀.names signedOptions.name = some ⟨4096, header⟩ ∧
      RegistryInv s₀.registry
        (Function.update (fun _ => none) signedOptions.name (some entry)) ∧
      Accepted signedOptions keyedEnv.keys header ∧
      header.flags &&& hmacEnabled ≠ 0 ∧ header.state = SegmentState.active.code ∧
      ownerIsDead seeingGcEnv.processes header seeingGcEnv.now = false := by
  have hok : (create signedOptions keyedEnv zeroPayload).toBool = true := by decide +kernel
  obtain ⟨header, p', hc⟩ := exists_created hok
  have hname : signedOptions.name ≠ registryName := by decide
  have hflags : header.flags = hmacEnabled ||| robustMutex := by
    rw [created_eq hc]
    rfl
  have hstate : header.state = SegmentState.active.code := by
    rw [created_eq hc]
    rfl
  have hn : Function.update registryOnly signedOptions.name (some ⟨4096, header⟩)
      signedOptions.name = some ⟨4096, header⟩ :=
    Function.update_self ..
  refine ⟨⟨Function.update registryOnly signedOptions.name _, p'⟩, header, _, ?_, hn,
    create_registered hc registryInv_zeroPayload hname, accepted_of_fits hc (by decide), ?_,
    hstate, ?_⟩
  · refine .created ?_ ?_ ?_ registryInv_zeroPayload ?_ loadHmacKey_keyed hc
    · rfl
    · decide
    · decide
    · decide
  · rw [hflags]
    decide
  · have hpid : header.ownerPid = keyedEnv.pid := by rw [created_eq hc]; rfl
    have hbeat : header.heartbeatLastNs = keyedEnv.beatNs := by rw [created_eq hc]; rfl
    have hstart : header.ownerStartTime = keyedEnv.startTime.getD 0 := by rw [created_eq hc]; rfl
    rw [ownerIsDead, hpid, hbeat, hstart]
    decide +kernel

theorem exists_overwrite {size : UInt64} {old : ShmHeader} (hn : s.names name = some ⟨size, old⟩)
    (header : ShmHeader) : ∃ s', TamperStep name s (.overwritten header) s' ∧
      s'.names name = some ⟨size, header⟩ ∧ s'.registry = s.registry :=
  ⟨_, .overwrite header hn, names_setHeader .., rfl⟩

/-- The reference count is overwritten, and a pass and an `attach` follow. -/
theorem hmac_not_downgraded_overwritten : ∃ s₀ s header header',
    SignedUnder zeroKey signedOptions.name s₀ ∧
      s₀.names signedOptions.name = some ⟨4096, header⟩ ∧ header' ≠ header ∧
      Run (Guarded (SweptValid zeroKey signedOptions.name) (TamperStep signedOptions.name)) s₀
        [.overwritten header', .collected seeingGcEnv,
          .attached (keyedAttachEnv seeingGcEnv) signedOptions.name .readOnly (.ok header')] s ∧
      header'.hmac = hmacSha256 zeroKey header'.immutableBytes := by
  obtain ⟨s₀, header, entry, hsigned, hn, hinv, ha, hflags, hstate, halive⟩ := exists_signed
  have hname : signedOptions.name ≠ registryName := by decide
  let header' := { header with refCount := header.refCount + 1 }
  obtain ⟨s₁, hover, hn₁, hregistry⟩ := exists_overwrite hn header'
  rw [← hregistry] at hinv
  have hswept : gcPass seeingGcEnv s₁ = s₁ := by
    refine gcPass_spares hinv.listed_single hn₁ (show headerSize ≤ 4096 by decide) ha.janitor
      halive ?_
    show header.state ≠ _
    rw [hstate]
    decide
  have hguard : HeaderSwept signedOptions.name s₁ := by
    intro object ho
    cases hn₁.symm.trans ho
    exact ha.janitor
  have hresult : (attach (keyedAttachEnv seeingGcEnv) signedOptions.name .readOnly s₁).1 =
      .ok header' := by
    have hlinked : (gcPass (keyedAttachEnv seeingGcEnv).gc s₁).names signedOptions.name =
        some ⟨4096, header'⟩ := by
      rw [show (keyedAttachEnv seeingGcEnv).gc = seeingGcEnv from rfl, hswept, hn₁]
    refine attach_of_valid rfl hname hlinked rfl rfl ha.validated ha.name (fun _ => hflags) ha.hmac
      ?_
    show header.state ≠ _
    rw [hstate]
    decide
  have hpass : Guarded (SweptValid zeroKey signedOptions.name) (TamperStep signedOptions.name) s₁
      (.collected seeingGcEnv) s₁ := by
    refine ⟨hguard, ?_⟩
    have hstep : TamperStep signedOptions.name s₁ (.collected seeingGcEnv) _ := .gc seeingGcEnv
    rwa [hswept] at hstep
  have hok : SweptValid zeroKey signedOptions.name s₁
      (.attached (keyedAttachEnv seeingGcEnv) signedOptions.name .readOnly (.ok header')) :=
    ⟨hguard, fun _ => loadHmacKey_keyed⟩
  have hone : Run (Guarded (SweptValid zeroKey signedOptions.name)
      (TamperStep signedOptions.name)) s₀ [.overwritten header'] s₁ :=
    .single ⟨trivial, hover⟩
  have hr := (hone.snoc hpass).snoc ⟨hok, attached_step hresult⟩
  refine ⟨s₀, _, header, header', hsigned, hn, ?_, hr,
    hmac_not_downgraded hsigned hr (List.mem_append_right _ (List.mem_singleton_self _))⟩
  intro heq
  have hcount : header.refCount + 1 = header.refCount := congrArg ShmHeader.refCount heq
  simp at hcount

/-- The header of an unsigned segment of the same name and size. -/
def forgedHeader : ShmHeader := finishHeader quietEnv (writeHeader (sizedOptions 0) quietEnv)

/-- A broken magic number makes the next pass drop the entry, and then nothing says any more that
the segment was signed. -/
theorem hmac_downgraded : ∃ s₀ s, SignedUnder zeroKey signedOptions.name s₀ ∧
    Run (TamperStep signedOptions.name) s₀
      [.overwritten zeroHeader, .collected seeingGcEnv, .overwritten forgedHeader,
        .attached (keyedAttachEnv seeingGcEnv) signedOptions.name .readOnly (.ok forgedHeader)] s ∧
    seeingGcEnv.processes keyedEnv.pid = some keyedEnv.startTime ∧
    forgedHeader.hmac ≠ hmacSha256 zeroKey forgedHeader.immutableBytes := by
  obtain ⟨s₀, header, entry, hsigned, hn, hinv, -⟩ := exists_signed
  have hname : signedOptions.name ≠ registryName := by decide
  obtain ⟨broken, hbreak, hn₁, hregistry₁⟩ := exists_overwrite hn zeroHeader
  rw [← hregistry₁] at hinv
  have hpass : TamperStep signedOptions.name broken _ _ := .gc seeingGcEnv
  obtain ⟨hn₂, m₂, hinv₂, hm₂⟩ := gcPass_forgets seeingGcEnv hinv hn₁ (by decide) rfl rfl
    (by decide) (by decide)
  obtain ⟨forged, hforge, hn₃, hregistry₃⟩ := exists_overwrite hn₂ forgedHeader
  rw [← hregistry₃] at hinv₂
  obtain ⟨hn₄, m₄, hinv₄, hm₄⟩ := gcPass_absent (keyedAttachEnv seeingGcEnv).gc hinv₂ hm₂
  have hswept := hn₄.trans hn₃
  have hresult : (attach (keyedAttachEnv seeingGcEnv) signedOptions.name .readOnly forged).1 =
      .ok forgedHeader := by
    refine attach_of_valid rfl hname hswept rfl rfl
      (by decide +kernel) (by decide +kernel) (fun h => ?_) (by decide +kernel) (by decide)
    rw [registryExpectsHmac_of_absent hinv₄ hm₄] at h
    cases h
  have hattach := attached_step hresult
  have hr := ((Run.single hbreak).snoc hpass).snoc hforge
  refine ⟨s₀, _, hsigned, hr.snoc hattach, rfl, ?_⟩
  decide +kernel

end Forgery

end Proofs

end Shmfx
