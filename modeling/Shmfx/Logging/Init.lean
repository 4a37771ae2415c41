import Shmfx.Logging.ServiceName
import Shmfx.Ring.Bounds

/-! `Logger::init`: the ring segment a logger creates, or finds under its name (`logger.cpp`). -/
namespace Shmfx

open Word

/-- `LockfreeRing`. -/
def lockfreeRing : UInt32 := 4

structure LoggerOptions where
  serviceName : Name
  segmentName : Name := []
  recordMax : UInt32 := 4096
  maxPayload : UInt32 := 1024
  flags : UInt32 := 0

/-- What the system answers to one `init`. -/
structure InitEnv where
  pid : Int
  create : CreateEnv
  attach : AttachEnv

/-- A logger between calls: its segment, the object it has mapped, and whether it made it. -/
structure Logger where
  name : Name
  ring : Nat
  owner : Bool
  deriving DecidableEq

/-- The shared objects, and what the ring in each of them holds. -/
structure LogHost where
  store : LinkedStore
  contents : Nat → Ring

def LogHost.setStore (c : LogHost) (store : LinkedStore) : LogHost := { c with store := store }

def LoggerOptions.stride (options : LoggerOptions) : Nat :=
  recordStrideFor options.maxPayload.toNat

def LoggerOptions.payloadSize (options : LoggerOptions) : Nat :=
  payloadSizeFor options.recordMax.toNat options.stride

def makeCreateOptions (options : LoggerOptions) (name : Name) : CreateOptions where
  name := name
  type := .recordRing
  metaSize := UInt64.ofNat recordRingMetaSize
  totalSize :=
    UInt64.ofNat (alignUp (headerSize + UInt64.ofNat recordRingMetaSize).toNat cacheLineSize) +
      UInt64.ofNat options.payloadSize
  flags := options.flags ||| lockfreeRing

def bindLoggerRing (header : ShmHeader) (ringMeta : RecordRingMeta) : Except ErrorCode Unit :=
  if header.segmentType ≠ SegmentType.recordRing.code ∨
      header.metadata.size < recordRingMetaSize then
    .error .corruptedHeader
  else bindRing header.payload ringMeta

namespace Logger

/-- The part of `init` behind a `create` that succeeded. When `initialize` fails the segment is
destroyed, and the handle goes out of scope after it. -/
def initCreated (options : LoggerOptions) (name : Name) (o : Nat) (store : LinkedStore)
    (c : LogHost) : Except ErrorCode Logger × LogHost :=
  match initializeRing (store.objects o).header.payload options.recordMax options.maxPayload with
  | .error e => (.error e, c.setStore ((store.destroy name).2.release o true))
  | .ok r => (.ok ⟨name, o, true⟩, ⟨store, Function.update c.contents o r⟩)

/-- The part of `init` for a name that is in use. -/
def initAttached (env : InitEnv) (name : Name) (c : LogHost) : Except ErrorCode Logger × LogHost :=
  match c.store.attach env.attach name .readWrite with
  | (.error e, store) => (.error e, c.setStore store)
  | (.ok o, store) =>
    match bindLoggerRing (store.objects o).header (c.contents o).ringMeta with
    | .error e => (.error e, c.setStore (store.release o false))
    | .ok _ => (.ok ⟨name, o, false⟩, c.setStore store)

def segmentName (options : LoggerOptions) (env : InitEnv) : Name :=
  if options.segmentName = [] then defaultSegmentName options.serviceName env.pid
  else options.segmentName

/-- `Logger::init`. -/
def init (options : LoggerOptions) (env : InitEnv) (c : LogHost) :
    Except ErrorCode Logger × LogHost :=
  if validServiceName options.serviceName = false ∨ options.recordMax = 0 ∨
      options.maxPayload = 0 then
    (.error .invalidName, c)
  else
    let name := segmentName options env
    if name.length ≥ nameBytes then (.error .invalidName, c)
    else
      match c.store.create (makeCreateOptions options name) env.create with
      | (.ok o, store) => initCreated options name o store c
      | (.error e, store) =>
        if e ≠ .alreadyExists then (.error e, c.setStore store)
        else initAttached env name (c.setStore store)

end Logger

section Sizes

variable {options : LoggerOptions} {name : Name}

/-- The stride keeps room for a record header unless the rounded size is one that wraps to zero. -/
theorem header_le_stride_iff :
    recordHeaderBytes ≤ options.stride ↔
      options.maxPayload.toNat + 79 < 2 ^ 32 ∨ 2 ^ 32 ≤ options.maxPayload.toNat + 15 := by
  have hlt := options.maxPayload.toNat_lt
  rw [LoggerOptions.stride, recordStrideFor_eq, recordHeaderBytes]
  omega

theorem payloadSize_lt : options.payloadSize < 2 ^ 64 := by
  unfold LoggerOptions.payloadSize payloadSizeFor
  split_ifs
  · decide
  · exact u64_lt _

/-- No size is wanted for no slots or slots without room, and for no other geometry. -/
theorem payloadSize_eq_zero_iff : options.payloadSize = 0 ↔
    options.recordMax = 0 ∨ options.stride < recordHeaderBytes := by
  rw [← UInt32.toNat_inj]
  by_cases hgeometry : options.recordMax.toNat = 0 ∨ options.stride < recordHeaderBytes
  · refine iff_of_true ?_ hgeometry
    rw [LoggerOptions.payloadSize, payloadSizeFor, if_pos hgeometry]
  · refine iff_of_false ?_ hgeometry
    have hmax := options.recordMax.toNat_lt
    have hle : options.stride ≤ 2 ^ 32 - 64 := by
      rw [LoggerOptions.stride, recordStrideFor_eq]
      omega
    have hproduct := Nat.mul_le_mul_left options.recordMax.toNat hle
    have hrecords : u64 (options.recordMax.toNat * options.stride) =
        options.recordMax.toNat * options.stride := u64_of_lt (by omega)
    rw [LoggerOptions.payloadSize, payloadSizeFor, if_neg hgeometry, recordAreaOffset_eq hmax,
      hrecords, u64_of_lt (by omega)]
    omega

theorem createPayloadOffset_logger :
    (createPayloadOffset (makeCreateOptions options name)).toNat = 320 := by
  have hmeta : (makeCreateOptions options name).metaSize.toNat = 64 := rfl
  rw [toNat_createPayloadOffset, hmeta]
  decide

theorem unwrapped_logger : (makeCreateOptions options name).metaSize.toNat + 256 < 2 ^ 64 := by
  have hmeta : (makeCreateOptions options name).metaSize.toNat = 64 := rfl
  omega

theorem payloadAligned_logger : payloadAligned ⟨320, options.payloadSize⟩ = true := by
  simp [payloadAligned, cacheLineSize]

/-- The payload of a segment that could be created is the one that was asked for. -/
theorem created_payload {env : CreateEnv} {p p' : RegistryPayload} {h : ShmHeader}
    (hc : create (makeCreateOptions options name) env p = .ok (h, p')) :
    h.payload = ⟨320, options.payloadSize⟩ := by
  have hs := created_sizes hc
  obtain ⟨-, -, -, hpay⟩ := created_layout hc
  obtain ⟨-, hpo, hps⟩ := writeHeader_layout env hs
  have hoffset : (createPayloadOffset (makeCreateOptions options name)).toNat = 320 :=
    createPayloadOffset_logger
  have hlt : options.payloadSize < 2 ^ 64 := payloadSize_lt
  have htotal : (makeCreateOptions options name).totalSize.toNat =
      (320 + options.payloadSize) % 2 ^ 64 := by
    show (320 + UInt64.ofNat options.payloadSize).toNat = _
    rw [UInt64.toNat_add, UInt64.toNat_ofNat_of_lt' hlt]
    rfl
  have hfits := hs.payload
  rw [hoffset, htotal] at hfits hps
  rw [hoffset] at hpo
  rw [hpay]
  refine congrArg₂ Span.mk hpo (hps.trans ?_)
  omega

end Sizes

section Created

/-- A `create` that succeeded has opened its object. -/
theorem create_opened {options : CreateOptions} {env : CreateEnv} {p p' : RegistryPayload}
    {h : ShmHeader} (hc : create options env p = .ok (h, p')) : env.os .shmOpen = .ok () := by
  obtain ⟨_, -, hc⟩ := bind_eq_ok hc
  obtain ⟨_, -, hc⟩ := bind_eq_ok hc
  obtain ⟨_, -, hc⟩ := bind_eq_ok hc
  obtain ⟨_, hopen, -⟩ := bind_eq_ok hc
  exact hopen

variable {s store : LinkedStore} {options : CreateOptions} {env : CreateEnv} {o : Nat}

/-- A `create` that succeeded made a new object under a name that was free. -/
theorem LinkedStore.create_linked (h : s.create options env = (.ok o, store)) :
    o = s.next ∧ s.names options.name = none ∧ ∃ env' header registry,
      Shmfx.create options env' s.registry = .ok (header, registry) ∧
      store = (s.link options.name ⟨options.totalSize, header⟩).setRegistry registry := by
  unfold LinkedStore.create at h
  dsimp only at h
  split at h
  · cases h
  · rename_i header registry hok
    cases h
    refine ⟨rfl, ?_, _, header, registry, hok, rfl⟩
    by_contra hlinked
    have hopen : (if OsCall.shmOpen = .shmOpen ∧ s.names options.name ≠ none then
        .error .alreadyExists else env.os .shmOpen) = .ok () := create_opened hok
    rw [if_pos ⟨rfl, hlinked⟩] at hopen
    cases hopen

theorem LinkedStore.create_failed {e : ErrorCode} (h : s.create options env = (.error e, store)) :
    store = s := by
  unfold LinkedStore.create at h
  dsimp only at h
  split at h
  · cases h
    rfl
  · cases h

theorem LinkedStore.names_created (h : s.create options env = (.ok o, store)) :
    store.names = Function.update s.names options.name (some o) := by
  obtain ⟨rfl, -, -, header, registry, -, rfl⟩ := create_linked h
  rfl

theorem LinkedStore.object_created (h : s.create options env = (.ok o, store)) :
    ∃ env' header registry, Shmfx.create options env' s.registry = .ok (header, registry) ∧
      store.objects o = ⟨options.totalSize, header⟩ := by
  obtain ⟨rfl, -, env', header, registry, hok, rfl⟩ := create_linked h
  exact ⟨env', header, registry, hok, Function.update_self ..⟩

/-- What was made and destroyed again has left nothing. -/
theorem LinkedStore.fades_destroyed {m : EntryMap} (h : s.create options env = (.ok o, store))
    (hinv : RegistryInv s.registry m) : ∃ m', s.Fades m (store.destroy options.name).2 m' := by
  have hnames := names_created h
  obtain ⟨-, hfree, env', header, registry, hok, rfl⟩ := create_linked h
  obtain ⟨⟨parsed, hparse⟩, -, -, hreg, -⟩ := create_ok hok
  have hunlinked (name : Name) :
      Function.update (Function.update s.names options.name (some o)) options.name none name =
        s.names name := by
    by_cases hname : name = options.name
    · rw [hname, Function.update_self, hfree]
    · rw [Function.update_of_ne hname, Function.update_of_ne hname]
  unfold destroy
  rw [hparse]
  dsimp only
  rw [if_neg (by rw [hnames, Function.update_self]; exact Option.some_ne_none _)]
  split_ifs with hself
  · rw [registerCreated, if_pos hself] at hreg
    obtain rfl := Except.ok.inj hreg
    refine ⟨m, hinv, fun name => .inl ?_, fun _ entry he => ⟨entry, he, rfl⟩⟩
    rw [names_unlink, hnames, hunlinked]
  · have hregistered := create_registered hok hinv hself
    have hforgotten := hregistered.unregistered options.name
    rw [Function.update_idem] at hforgotten
    refine ⟨Function.update m options.name none, ?_, fun name => .inl ?_, fun name entry he => ?_⟩
    · rw [registry_setRegistry, registry_setRegistry]
      exact hforgotten
    · rw [names_setRegistry, names_unlink, hnames, hunlinked]
    · by_cases hname : name = options.name
      · rw [hname, Function.update_self] at he
        cases he
      · rw [Function.update_of_ne hname] at he
        exact ⟨entry, he, rfl⟩

/-- `attach` succeeds only on a header that has the name. -/
theorem attachChecks_named {env : AttachEnv} {name : Name} {t : SegmentStore}
    {object : SegmentMemory} (h : attachChecks env name t = .ok object) :
    object.header.nameView = name := by
  obtain ⟨found, -, h⟩ := bind_eq_ok h
  obtain ⟨_, -, h⟩ := bind_eq_ok h
  obtain ⟨_, -, h⟩ := bind_eq_ok h
  obtain ⟨_, -, h⟩ := bind_eq_ok h
  obtain ⟨_, -, h⟩ := bind_eq_ok h
  obtain ⟨_, hname, h⟩ := bind_eq_ok h
  obtain ⟨_, -, h⟩ := bind_eq_ok h
  obtain ⟨_, -, h⟩ := bind_eq_ok h
  obtain ⟨_, -, h⟩ := bind_eq_ok h
  cases h
  exact not_not.mp (rejectIf_ok.mp hname)

theorem LinkedStore.attach_named {env : AttachEnv} {name : Name} {mode : AttachMode}
    (h : s.attach env name mode = (.ok o, store)) :
    (store.objects o).header.nameView = name := by
  unfold LinkedStore.attach at h
  cases hparse : parseAndValidateName name with
  | error e =>
    rw [hparse] at h
    cases h
  | ok parsed =>
    rw [hparse] at h
    dsimp only at h
    generalize (if name = registryName then s else s.gc env.gc) = swept at h
    cases hchecks : attachChecks env name swept.view with
    | error e =>
      rw [hchecks] at h
      cases hn : swept.names name <;> rw [hn] at h <;> cases h
    | ok object =>
      have hnamed := attachChecks_named hchecks
      have hfound := (attachChecks_ok hchecks).1
      cases hn : swept.names name with
      | none =>
        rw [hn, hchecks] at h
        cases h
      | some o' =>
        have hobject : object = swept.objects o' := by
          simpa [LinkedStore.view, hn] using hfound.symm
        rw [hn, hchecks] at h
        cases mode with
        | readOnly =>
          cases h
          rw [← hobject, hnamed]
        | readWrite =>
          cases h
          simp only [LinkedStore.setRefs, LinkedStore.setObject, Function.update_self]
          rw [← hnamed, hobject]
          rfl

end Created

/-- What a logger has after `init`. -/
structure Initialised (options : LoggerOptions) (env : InitEnv) (c : LogHost) (l : Logger)
    (c' : LogHost) : Prop where
  name : l.name = Logger.segmentName options env
  linked : c'.store.names l.name = some l.ring
  named : (c'.store.objects l.ring).header.nameView = l.name
  bound : bindLoggerRing (c'.store.objects l.ring).header (c'.contents l.ring).ringMeta = .ok ()
  /-- A ring of its own is a new object under a name that was free, and fresh. -/
  made : l.owner = true → l.ring = c.store.next ∧ c.store.names l.name = none ∧ c'.contents =
    Function.update c.contents l.ring (freshRing options.recordMax.toNat options.stride)
  /-- A ring that was there is taken as it is. -/
  found : l.owner = false → c'.contents = c.contents

/-- What `init` promises. -/
structure InitSound (options : LoggerOptions) (env : InitEnv) (c : LogHost) (m : EntryMap) :
    Prop where
  ok : ∀ l c', Logger.init options env c = (.ok l, c') → Initialised options env c l c'
  /-- A failure has linked and registered nothing new, and touched no ring. -/
  failed : ∀ e c', Logger.init options env c = (.error e, c') →
    c'.contents = c.contents ∧ ∃ m', c.store.Fades m c'.store m'
  /-- A segment that could be created gets its ring unless the stride for it wraps to zero. -/
  created : validServiceName options.serviceName = true → options.recordMax ≠ 0 →
    options.maxPayload ≠ 0 → (Logger.segmentName options env).length < nameBytes → ∀ o store,
    c.store.create (makeCreateOptions options (Logger.segmentName options env)) env.create =
      (.ok o, store) →
    ((Logger.init options env c).1 = .ok ⟨Logger.segmentName options env, o, true⟩ ↔
      options.maxPayload.toNat + 79 < 2 ^ 32 ∨ 2 ^ 32 ≤ options.maxPayload.toNat + 15)

section Init

variable {options : LoggerOptions} {env : InitEnv} {c : LogHost} {m : EntryMap} {name : Name}
  {o : Nat} {store : LinkedStore}

/-- On a segment that `create` made, `initialize` fails exactly on a stride without room. -/
theorem initializeRing_created
    (h : c.store.create (makeCreateOptions options name) env.create = (.ok o, store)) :
    initializeRing (store.objects o).header.payload options.recordMax options.maxPayload =
      if options.recordMax = 0 ∨ options.stride < recordHeaderBytes then .error .corruptedHeader
      else .ok (freshRing options.recordMax.toNat options.stride) := by
  obtain ⟨env', header, registry, hok, hobject⟩ := LinkedStore.object_created h
  rw [hobject, created_payload hok]
  unfold initializeRing
  change (if options.payloadSize = 0 ∨ options.payloadSize < options.payloadSize ∨
    (!payloadAligned ⟨320, options.payloadSize⟩) = true then _ else _) = _
  simp only [payloadAligned_logger, lt_irrefl, Bool.not_true, Bool.false_eq_true, or_false,
    payloadSize_eq_zero_iff]
  rfl

/-- What `initialize` has made of it can be bound. -/
theorem bindLoggerRing_created
    (h : c.store.create (makeCreateOptions options name) env.create = (.ok o, store))
    (hgeometry : ¬ (options.recordMax = 0 ∨ options.stride < recordHeaderBytes)) :
    bindLoggerRing (store.objects o).header
      (freshRing options.recordMax.toNat options.stride).ringMeta = .ok () := by
  obtain ⟨env', header, registry, hok, hobject⟩ := LinkedStore.object_created h
  obtain ⟨hmax, hstride⟩ := not_or.mp hgeometry
  have hpos : 0 < options.recordMax.toNat := by
    rw [← UInt32.toNat_inj] at hmax
    exact Nat.pos_of_ne_zero hmax
  have htype : header.segmentType = SegmentType.recordRing.code := by
    rw [created_eq hok]
    rfl
  have hmeta : header.metadata.size = recordRingMetaSize :=
    (accepted_of_fits hok unwrapped_logger).metadataSize
  have hvalid := validMeta_freshRing hpos (Nat.not_lt.mp hstride)
  have hrequired : payloadSizeFor options.recordMax.toNat options.stride ≠ 0 :=
    mt payloadSize_eq_zero_iff.mp hgeometry
  rw [hobject, bindLoggerRing, if_neg (by simp [htype, hmeta]), created_payload hok]
  unfold bindRing
  rw [if_neg (by simp [hvalid, payloadAligned_logger])]
  exact if_neg (not_or.mpr ⟨hrequired, Nat.lt_irrefl _⟩)

/-- The three ways through `init`. -/
theorem Logger.init_cases (options : LoggerOptions) (env : InitEnv) (c : LogHost) :
    (∃ e, init options env c = (.error e, c)) ∨
    (∃ o store, c.store.create (makeCreateOptions options (segmentName options env)) env.create =
        (.ok o, store) ∧
      init options env c = initCreated options (segmentName options env) o store c) ∨
    init options env c = initAttached env (segmentName options env) c := by
  unfold init
  dsimp only
  split_ifs
  · exact .inl ⟨_, rfl⟩
  · exact .inl ⟨_, rfl⟩
  · cases hcreate : c.store.create (makeCreateOptions options (segmentName options env))
        env.create with
    | mk r store =>
      cases r with
      | ok o => exact .inr (.inl ⟨o, store, rfl, rfl⟩)
      | error e =>
        obtain rfl := LinkedStore.create_failed hcreate
        dsimp only
        split_ifs
        · exact .inl ⟨e, rfl⟩
        · exact .inr (.inr rfl)

theorem initialised_created {l : Logger} {c' : LogHost}
    (h : c.store.create (makeCreateOptions options name) env.create = (.ok o, store))
    (hname : name = Logger.segmentName options env)
    (hcall : Logger.initCreated options name o store c = (.ok l, c')) :
    Initialised options env c l c' := by
  unfold Logger.initCreated at hcall
  rw [initializeRing_created h] at hcall
  split_ifs at hcall with hgeometry
  · cases hcall
  · cases hcall
    obtain ⟨hnext, hfree, -⟩ := LinkedStore.create_linked h
    obtain ⟨env', header, registry, hok, hobject⟩ := LinkedStore.object_created h
    refine ⟨hname, ?_, ?_, ?_, fun _ => ⟨hnext, hfree, rfl⟩, fun howner => ?_⟩
    · rw [LinkedStore.names_created h]
      exact Function.update_self ..
    · rw [hobject]
      exact created_name hok
    · dsimp only
      rw [Function.update_self]
      exact bindLoggerRing_created h hgeometry
    · cases howner

theorem initialised_attached {l : Logger} {c' : LogHost}
    (hname : name = Logger.segmentName options env)
    (hcall : Logger.initAttached env name c = (.ok l, c')) : Initialised options env c l c' := by
  unfold Logger.initAttached at hcall
  cases hattach : c.store.attach env.attach name .readWrite with
  | mk r store =>
    rw [hattach] at hcall
    cases r with
    | error e => cases hcall
    | ok o =>
      have hlinked : store.names name = some o := by
        have hnames := LinkedStore.attach_linked (congrArg Prod.fst hattach)
        rwa [hattach] at hnames
      dsimp only at hcall
      cases hbind : bindLoggerRing (store.objects o).header (c.contents o).ringMeta with
      | error e =>
        rw [hbind] at hcall
        cases hcall
      | ok u =>
        rw [hbind] at hcall
        cases hcall
        refine ⟨hname, hlinked, LinkedStore.attach_named hattach, hbind, ?_, fun _ => rfl⟩
        intro howner
        cases howner

theorem Logger.init_ok {l : Logger} {c' : LogHost} (hcall : init options env c = (.ok l, c')) :
    Initialised options env c l c' := by
  rcases init_cases options env c with ⟨e, heq⟩ | ⟨o, store, hcreate, heq⟩ | heq
  · cases heq.symm.trans hcall
  · exact initialised_created hcreate rfl (heq.symm.trans hcall)
  · exact initialised_attached rfl (heq.symm.trans hcall)

/-- No ring is touched by an `init` that fails. -/
theorem Logger.init_failed_contents {e : ErrorCode} {c' : LogHost}
    (hcall : init options env c = (.error e, c')) : c'.contents = c.contents := by
  rcases init_cases options env c with ⟨e, heq⟩ | ⟨o, store, hcreate, heq⟩ | heq
  · cases heq.symm.trans hcall
    rfl
  · replace hcall := heq.symm.trans hcall
    unfold initCreated at hcall
    split at hcall
    · cases hcall
      rfl
    · cases hcall
  · replace hcall := heq.symm.trans hcall
    unfold initAttached at hcall
    split at hcall
    · cases hcall
      rfl
    · split at hcall
      · cases hcall
        rfl
      · cases hcall

/-- Nothing new is linked or registered by one. -/
theorem Logger.init_failed {e : ErrorCode} {c' : LogHost} (hinv : RegistryInv c.store.registry m)
    (hcall : init options env c = (.error e, c')) : ∃ m', c.store.Fades m c'.store m' := by
  rcases init_cases options env c with ⟨e, heq⟩ | ⟨o, store, hcreate, heq⟩ | heq
  · cases heq.symm.trans hcall
    exact ⟨m, .refl hinv⟩
  · obtain ⟨m₁, hdestroyed⟩ := LinkedStore.fades_destroyed hcreate hinv
    obtain ⟨m₂, hreleased⟩ := LinkedStore.fades_release o true hdestroyed.registry
    replace hcall := heq.symm.trans hcall
    unfold initCreated at hcall
    split at hcall
    · cases hcall
      exact ⟨m₂, hdestroyed.trans hreleased⟩
    · cases hcall
  · obtain ⟨m₁, hattached⟩ :=
      LinkedStore.fades_attach env.attach (segmentName options env) .readWrite hinv
    replace hcall := heq.symm.trans hcall
    unfold initAttached at hcall
    generalize c.store.attach env.attach (segmentName options env) .readWrite = result
      at hattached hcall
    obtain ⟨e | o, store⟩ := result
    · cases hcall
      exact ⟨m₁, hattached⟩
    · obtain ⟨m₂, hreleased⟩ := LinkedStore.fades_release o false hattached.registry
      dsimp only at hcall
      split at hcall
      · cases hcall
        exact ⟨m₂, hattached.trans hreleased⟩
      · cases hcall

/-- `init` gives a logger a ring that binds under its name, its own ring fresh and one it found
untouched, and leaves nothing behind when it fails. -/
theorem logger_init_sound (options : LoggerOptions) (env : InitEnv) (c : LogHost)
    (hinv : RegistryInv c.store.registry m) : InitSound options env c m := by
  refine ⟨fun _ _ => Logger.init_ok,
    fun _ _ h => ⟨Logger.init_failed_contents h, Logger.init_failed hinv h⟩, ?_⟩
  intro hservice hmax hpayload hshort o store hcreate
  have hinit : Logger.init options env c =
      Logger.initCreated options (Logger.segmentName options env) o store c := by
    unfold Logger.init
    rw [if_neg (by simp [hservice, hmax, hpayload])]
    dsimp only
    rw [if_neg (Nat.not_le.mpr hshort), hcreate]
  rw [hinit, ← header_le_stride_iff, Logger.initCreated, initializeRing_created hcreate]
  split_ifs with hgeometry
  · refine iff_of_false ?_ (Nat.not_le.mpr (hgeometry.resolve_left hmax))
    intro hok
    cases hok
  · exact iff_of_true rfl (Nat.not_lt.mp (not_or.mp hgeometry).2)

end Init

/-- A service with two slots in its ring. -/
def smallOptions : LoggerOptions :=
  { serviceName := asciiBytes ['a'], recordMax := 2, maxPayload := 48 }

/-- A system in which every call succeeds. -/
def quietInitEnv : InitEnv :=
  ⟨1, quietEnv, ⟨Center.aliveGcEnv, none, .notFound, none, ⟨none, none⟩⟩⟩

/-- Nothing linked or registered. -/
def emptyHost : LogHost := ⟨.initial, fun _ => zeroRing⟩

theorem init_small : (Logger.init smallOptions quietInitEnv emptyHost).1 =
    .ok ⟨defaultSegmentName (asciiBytes ['a']) 1, 0, true⟩ := by
  decide +kernel

theorem logger_init_sound_fresh :
    (Logger.init smallOptions quietInitEnv emptyHost).1 =
        .ok ⟨defaultSegmentName (asciiBytes ['a']) 1, 0, true⟩ ∧
      InitSound smallOptions quietInitEnv emptyHost fun _ => none :=
  ⟨init_small, logger_init_sound _ _ _ registryInv_zeroPayload⟩

end Shmfx
