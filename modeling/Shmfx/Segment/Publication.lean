import Mathlib.Tactic.IntervalCases
import Shmfx.Lib.Lts
import Shmfx.Lib.Tally
import Shmfx.Segment.Create

/-! The individual stores of one `ShmManager::create` against the checks of any number of
`ShmManager::attach` calls on the same name. -/
namespace Shmfx

open Lts Tally Word

universe u

/-- One successful `create` call. -/
structure Creation where
  options : CreateOptions
  env : CreateEnv
  registry : RegistryPayload
  header : ShmHeader
  registered : RegistryPayload
  ok : create options env registry = .ok (header, registered)

namespace Creation

/-- Every store to the header, in program order. -/
def stores (cr : Creation) : List (ShmHeader → ShmHeader) :=
  headerStores cr.options cr.env ++
    [fun h => { h with hmac := zeroHmac },
      fun h => { h with hmac := cr.header.hmac },
      fun h => { h with controlMutex := .robust },
      fun h => { h with heartbeatCounter := h.heartbeatCounter + 1 },
      fun h => { h with heartbeatLastNs := cr.env.beatNs }]

/-- The header after the first `n` stores, if nobody else writes to it. -/
def after (cr : Creation) (n : Nat) : ShmHeader :=
  (cr.stores.take n).foldl (fun h store => store h) zeroHeader

end Creation

/-- Stores made once the name is in place. -/
def nameStored : Nat := 15

/-- Stores made once `ref_count` has its initial value. -/
def refCountStored : Nat := 18

/-- Stores made once the control mutex is initialised. -/
def mutexInitialized : Nat := 23

/-- Where an `attach` call stands, and the handle it may return. -/
inductive AttachCallPc
  | idle
  | opened (mode : AttachMode)
  | mapped (mode : AttachMode) (size : UInt64)
  | validated (mode : AttachMode)
  | named (mode : AttachMode)
  | expected (mode : AttachMode)
  | verified (mode : AttachMode)
  | checked
  | bumped
  | rollingBack
  | holding (mode : AttachMode)

namespace AttachCallPc

def PastName : AttachCallPc → Prop
  | .idle | .opened _ | .mapped _ _ | .validated _ => False
  | _ => True

/-- The call's increment of `ref_count` is still in place. -/
def Outstanding : AttachCallPc → Prop
  | .bumped | .rollingBack | .holding .readWrite => True
  | _ => False

theorem Outstanding.pastName {pc : AttachCallPc} (h : pc.Outstanding) : pc.PastName := by
  cases pc <;> first | exact h.elim | trivial

end AttachCallPc

/-- The object under the name: its size once it exists, its header, and how far `create` is. -/
structure CreationConfig (P : Type u) where
  size : Option UInt64
  header : ShmHeader
  done : Nat
  attachers : P → AttachCallPc

inductive CreationEvent (P : Type u)
  | create
  | attach (p : P)
  | named (p : P)
  | bumped (p : P)
  | returned (p : P)
  | failed (p : P)
  | released (p : P)

variable {P : Type u}

def CreationConfig.initial : CreationConfig P := ⟨none, zeroHeader, 0, fun _ => .idle⟩

/-- Nothing but the counter differs. -/
def SameButRefs (h h' : ShmHeader) : Prop := h = { h' with refCount := h.refCount }

/-- Every field is final, the counter and the heartbeat apart. -/
def Published (cr : Creation) (h : ShmHeader) : Prop :=
  ∃ refCount counter lastNs, h =
    { cr.header with refCount := refCount, heartbeatCounter := counter, heartbeatLastNs := lastNs }

section Stores

variable {cr : Creation} {h h' : ShmHeader} {store : ShmHeader → ShmHeader} {n : Nat}

theorem length_stores (cr : Creation) : cr.stores.length = 25 := rfl

theorem after_succ (hs : cr.stores[n]? = some store) : cr.after (n + 1) = store (cr.after n) := by
  rw [Creation.after, List.take_add_one, hs, List.foldl_append]
  rfl

theorem store_index (hs : cr.stores[n]? = some store) : n < 25 := by
  rw [← length_stores cr]
  exact (List.getElem?_eq_some_iff.mp hs).1

/-- No store of `create` reads the counter. -/
theorem sameButRefs_store (hs : cr.stores[n]? = some store) (hh : SameButRefs h h') :
    SameButRefs (store h) (store h') := by
  have hn := store_index hs
  obtain ⟨r, rfl⟩ : ∃ r, h = { h' with refCount := r } := ⟨_, hh⟩
  interval_cases n <;> cases hs <;> rfl

theorem store_refCount (hs : cr.stores[n]? = some store) (hn : refCountStored ≤ n) :
    (store h).refCount = h.refCount := by
  have hlt := store_index hs
  rw [refCountStored] at hn
  interval_cases n <;> cases hs <;> rfl

theorem store_initial_refCount (hs : cr.stores[n]? = some store) (hn : n + 1 = refCountStored) :
    (store h).refCount = 1 := by
  rw [refCountStored] at hn
  obtain rfl : n = 17 := by omega
  cases hs
  rfl

theorem after_name_zero (hn : n < nameStored) : (cr.after n).name = fun _ => 0 := by
  rw [nameStored] at hn
  interval_cases n <;> rfl

/-- The stores, made one by one, leave what `create` returns. -/
theorem after_all (cr : Creation) : cr.after 25 = cr.header := by
  rw [created_eq cr.ok]
  rfl

/-- From the mutex initialisation on only the heartbeat is still to come. -/
theorem after_published (hn : mutexInitialized ≤ n) (hn' : n ≤ 25) : Published cr (cr.after n) := by
  rw [mutexInitialized] at hn
  rw [Published, created_eq cr.ok]
  interval_cases n <;> exact ⟨_, _, _, rfl⟩

end Stores

section Steps

variable [DecidableEq P]

namespace CreationConfig

def setAttacher (c : CreationConfig P) (p : P) (pc : AttachCallPc) : CreationConfig P :=
  { c with attachers := Function.update c.attachers p pc }

def setRefs (c : CreationConfig P) (n : UInt32) : CreationConfig P :=
  { c with header := { c.header with refCount := n } }

end CreationConfig

/-- One store of `create` or one check of an `attach`; what the registry says about the name's
signature is up to the environment. -/
inductive CreationStep (cr : Creation) (keys : P → KeySource) :
    CreationConfig P → CreationEvent P → CreationConfig P → Prop
  | createOpen {c : CreationConfig P} (h : c.size = none) :
      CreationStep cr keys c .create { c with size := some 0 }
  | createTruncate {c : CreationConfig P} (h : c.size = some 0) :
      CreationStep cr keys c .create { c with size := some cr.options.totalSize }
  | createStore {c : CreationConfig P} {store : ShmHeader → ShmHeader}
      (h : c.size = some cr.options.totalSize) (hs : cr.stores[c.done]? = some store) :
      CreationStep cr keys c .create { c with header := store c.header, done := c.done + 1 }
  | attachOpen {c : CreationConfig P} {p : P} (mode : AttachMode) (h : c.attachers p = .idle)
      (hs : c.size ≠ none) : CreationStep cr keys c (.attach p) (c.setAttacher p (.opened mode))
  | attachStat {c : CreationConfig P} {p : P} {mode : AttachMode} {size : UInt64}
      (h : c.attachers p = .opened mode) (hs : c.size = some size) (hl : headerSize ≤ size) :
      CreationStep cr keys c (.attach p) (c.setAttacher p (.mapped mode size))
  | attachShort {c : CreationConfig P} {p : P} {mode : AttachMode} {size : UInt64}
      (h : c.attachers p = .opened mode) (hs : c.size = some size) (hl : size < headerSize) :
      CreationStep cr keys c (.failed p) (c.setAttacher p .idle)
  | attachValidate {c : CreationConfig P} {p : P} {mode : AttachMode} {size : UInt64}
      (h : c.attachers p = .mapped mode size) (hv : validateHeader c.header size = .ok ()) :
      CreationStep cr keys c (.attach p) (c.setAttacher p (.validated mode))
  | attachInvalid {c : CreationConfig P} {p : P} {mode : AttachMode} {size : UInt64}
      {e : ErrorCode} (h : c.attachers p = .mapped mode size)
      (hv : validateHeader c.header size = .error e) :
      CreationStep cr keys c (.failed p) (c.setAttacher p .idle)
  | attachName {c : CreationConfig P} {p : P} {mode : AttachMode}
      (h : c.attachers p = .validated mode) (hn : c.header.nameView = cr.options.name) :
      CreationStep cr keys c (.named p) (c.setAttacher p (.named mode))
  | attachMisnamed {c : CreationConfig P} {p : P} {mode : AttachMode}
      (h : c.attachers p = .validated mode) (hn : c.header.nameView ≠ cr.options.name) :
      CreationStep cr keys c (.failed p) (c.setAttacher p .idle)
  | attachExpect {c : CreationConfig P} {p : P} {mode : AttachMode} (expects : Bool)
      (h : c.attachers p = .named mode)
      (he : expects = true → c.header.flags &&& hmacEnabled ≠ 0) :
      CreationStep cr keys c (.attach p) (c.setAttacher p (.expected mode))
  | attachUnsigned {c : CreationConfig P} {p : P} {mode : AttachMode}
      (h : c.attachers p = .named mode) (he : c.header.flags &&& hmacEnabled = 0) :
      CreationStep cr keys c (.failed p) (c.setAttacher p .idle)
  | attachVerify {c : CreationConfig P} {p : P} {mode : AttachMode}
      (h : c.attachers p = .expected mode) (hv : verifyHeaderHmac (keys p) c.header = .ok ()) :
      CreationStep cr keys c (.attach p) (c.setAttacher p (.verified mode))
  | attachForged {c : CreationConfig P} {p : P} {mode : AttachMode} {e : ErrorCode}
      (h : c.attachers p = .expected mode) (hv : verifyHeaderHmac (keys p) c.header = .error e) :
      CreationStep cr keys c (.failed p) (c.setAttacher p .idle)
  | attachDead {c : CreationConfig P} {p : P} {mode : AttachMode}
      (h : c.attachers p = .verified mode) (hs : c.header.state = SegmentState.dead.code) :
      CreationStep cr keys c (.failed p) (c.setAttacher p .idle)
  | attachReadOnly {c : CreationConfig P} {p : P} (h : c.attachers p = .verified .readOnly)
      (hs : c.header.state ≠ SegmentState.dead.code) :
      CreationStep cr keys c (.returned p) (c.setAttacher p (.holding .readOnly))
  | attachCheck {c : CreationConfig P} {p : P} (h : c.attachers p = .verified .readWrite)
      (hs : c.header.state ≠ SegmentState.dead.code) :
      CreationStep cr keys c (.attach p) (c.setAttacher p .checked)
  | attachBump {c : CreationConfig P} {p : P} (h : c.attachers p = .checked) :
      CreationStep cr keys c (.bumped p)
        ((c.setRefs (c.header.refCount + 1)).setAttacher p .bumped)
  | attachReturn {c : CreationConfig P} {p : P} (h : c.attachers p = .bumped)
      (hs : c.header.state ≠ SegmentState.dead.code) :
      CreationStep cr keys c (.returned p) (c.setAttacher p (.holding .readWrite))
  | attachRecheckDead {c : CreationConfig P} {p : P} (h : c.attachers p = .bumped)
      (hs : c.header.state = SegmentState.dead.code) :
      CreationStep cr keys c (.attach p) (c.setAttacher p .rollingBack)
  | attachRollBack {c : CreationConfig P} {p : P} (h : c.attachers p = .rollingBack) :
      CreationStep cr keys c (.failed p)
        ((c.setRefs (c.header.refCount - 1)).setAttacher p .idle)
  | releaseReadOnly {c : CreationConfig P} {p : P} (h : c.attachers p = .holding .readOnly) :
      CreationStep cr keys c (.released p) (c.setAttacher p .idle)
  | release {c : CreationConfig P} {p : P} (h : c.attachers p = .holding .readWrite) :
      CreationStep cr keys c (.released p)
        ((c.setRefs (c.header.refCount - 1)).setAttacher p .idle)

/-- No attach passes its name check between the name store and the mutex initialisation, and no
bump wraps the counter. -/
def NamedOutside (c : CreationConfig P) : CreationEvent P → Prop
  | .named _ => ¬ (nameStored ≤ c.done ∧ c.done < mutexInitialized)
  | .bumped _ => c.header.refCount.toNat + 1 < 2 ^ 32
  | _ => True

/-- A handle is returned only on a published header, no increment is in place before the initial
store of `ref_count`, and the counter covers the read-write handles that are out. -/
structure PublicationSafe (cr : Creation) (keys : P → KeySource) (c : CreationConfig P) : Prop where
  returned : ∀ p d, CreationStep cr keys c (.returned p) d → Published cr c.header
  kept : c.done < refCountStored → ∀ p, ¬ (c.attachers p).Outstanding
  counted : ∃ k, Counts (· = AttachCallPc.holding .readWrite) c.attachers k ∧
    k ≤ c.header.refCount.toNat

section Proofs

variable {cr : Creation} {keys : P → KeySource} {c d : CreationConfig P} {e : CreationEvent P}
  {as : List (CreationEvent P)}

/-- Attaches write nothing but the counter, so the rest of the header follows `create`. -/
structure FollowsCreate (cr : Creation) (c : CreationConfig P) : Prop where
  header : SameButRefs c.header (cr.after c.done)
  bound : c.done ≤ 25
  size : 0 < c.done → c.size = some cr.options.totalSize

omit [DecidableEq P] in
theorem followsCreate_initial : FollowsCreate cr (.initial : CreationConfig P) :=
  ⟨rfl, Nat.zero_le _, fun h => absurd h (Nat.lt_irrefl 0)⟩

theorem FollowsCreate.setAttacher (h : FollowsCreate cr c) (p : P) (pc : AttachCallPc) :
    FollowsCreate cr (c.setAttacher p pc) :=
  ⟨h.header, h.bound, h.size⟩

omit [DecidableEq P] in
theorem FollowsCreate.setRefs (h : FollowsCreate cr c) (n : UInt32) :
    FollowsCreate cr (c.setRefs n) := by
  refine ⟨?_, h.bound, h.size⟩
  have hh := h.header
  rw [SameButRefs] at hh ⊢
  rw [CreationConfig.setRefs, hh]

theorem followsCreate_step (hs : CreationStep cr keys c e d) (h : FollowsCreate cr c) :
    FollowsCreate cr d := by
  cases hs with
  | createOpen hn =>
    refine ⟨h.header, h.bound, fun hd => ?_⟩
    rw [h.size hd] at hn
    cases hn
  | createTruncate => exact ⟨h.header, h.bound, fun _ => rfl⟩
  | createStore hz hs =>
    have hlt := store_index hs
    refine ⟨?_, hlt, fun _ => hz⟩
    show SameButRefs _ (cr.after (c.done + 1))
    rw [after_succ hs]
    exact sameButRefs_store hs h.header
  | attachBump | attachRollBack | release => exact (h.setRefs _).setAttacher _ _
  | _ => exact h.setAttacher _ _

theorem name_ne_nil (cr : Creation) : cr.options.name ≠ [] := by
  obtain ⟨⟨parsed, hparse⟩, -⟩ := create_ok cr.ok
  exact (entryName_createEntry cr.env cr.header hparse).2

theorem fixedNameView_zero : fixedNameView (fun _ => 0) = [] := by
  rw [fixedNameView, List.ofFn_succ, List.takeWhile_cons_of_neg (by decide)]

omit [DecidableEq P] in
/-- Before the name store every attach fails its name check. -/
theorem FollowsCreate.name_stored (h : FollowsCreate cr c)
    (hn : c.header.nameView = cr.options.name) : nameStored ≤ c.done := by
  by_contra hlt
  have heq : c.header = { cr.after c.done with refCount := c.header.refCount } := h.header
  have hname : c.header.name = (cr.after c.done).name := by rw [heq]
  rw [ShmHeader.nameView, hname, after_name_zero (Nat.lt_of_not_le hlt), fixedNameView_zero] at hn
  exact name_ne_nil cr hn.symm

/-- Whoever is past the name check finds the mutex initialised. -/
def NamedLate (c : CreationConfig P) : Prop :=
  ∀ p, (c.attachers p).PastName → mutexInitialized ≤ c.done

theorem NamedLate.setAttacher (h : NamedLate c) {p : P} {pc : AttachCallPc}
    (hpc : pc.PastName → mutexInitialized ≤ c.done) : NamedLate (c.setAttacher p pc) := by
  intro q hq
  by_cases hqp : q = p
  · subst hqp
    exact hpc (by simpa [CreationConfig.setAttacher] using hq)
  · exact h q (by simpa [CreationConfig.setAttacher, hqp] using hq)

theorem namedLate_step (hs : Guarded NamedOutside (CreationStep cr keys) c e d)
    (hf : FollowsCreate cr c) (h : NamedLate c) : NamedLate d := by
  obtain ⟨hok, hs⟩ := hs
  cases hs with
  | createOpen | createTruncate => exact h
  | createStore => exact fun p hp => Nat.le_succ_of_le (h p hp)
  | attachOpen | attachStat | attachShort | attachValidate | attachInvalid | attachMisnamed
  | attachUnsigned | attachForged | attachDead | releaseReadOnly => exact h.setAttacher False.elim
  | attachName _ hn =>
    have hstored := hf.name_stored hn
    exact h.setAttacher fun _ => Nat.le_of_not_lt fun hlt => hok ⟨hstored, hlt⟩
  | attachExpect _ hp | attachVerify hp | attachReadOnly hp | attachCheck hp | attachReturn hp
  | attachRecheckDead hp => exact h.setAttacher fun _ => h _ (by rw [hp]; trivial)
  | @attachBump p hp =>
    have hc : NamedLate (c.setRefs (c.header.refCount + 1)) := h
    exact hc.setAttacher fun _ => h p (by rw [hp]; trivial)
  | attachRollBack | release =>
    have hc : NamedLate (c.setRefs (c.header.refCount - 1)) := h
    exact hc.setAttacher False.elim

/-- From its initial store on, the counter is the number of increments in place plus the
creator's. -/
def CountsAttaches (c : CreationConfig P) : Prop :=
  ∃ k, Counts AttachCallPc.Outstanding c.attachers k ∧
    (refCountStored ≤ c.done → c.header.refCount.toNat = k + 1)

theorem CountsAttaches.keep (h : CountsAttaches c) {p : P} {pc : AttachCallPc}
    (hp : pc.Outstanding ↔ (c.attachers p).Outstanding) : CountsAttaches (c.setAttacher p pc) := by
  obtain ⟨k, hk, hn⟩ := h
  exact ⟨k, hk.keep hp, hn⟩

theorem CountsAttaches.bump (h : CountsAttaches c) {p : P} (hp : ¬ (c.attachers p).Outstanding)
    (hb : c.header.refCount.toNat + 1 < 2 ^ 32) :
    CountsAttaches ((c.setRefs (c.header.refCount + 1)).setAttacher p .bumped) := by
  obtain ⟨k, hk, hn⟩ := h
  refine ⟨k + 1, hk.enter hp trivial, fun hd => ?_⟩
  simp only [CreationConfig.setAttacher, CreationConfig.setRefs, toNat_add_one hb, hn hd]

theorem CountsAttaches.drop (h : CountsAttaches c) {p : P} (hp : (c.attachers p).Outstanding) :
    CountsAttaches ((c.setRefs (c.header.refCount - 1)).setAttacher p .idle) := by
  obtain ⟨k, hk, hn⟩ := h
  have hpos := hk.pos hp
  refine ⟨k - 1, hk.leave hp id, fun hd => ?_⟩
  have hrefs := hn hd
  have hsub : (c.header.refCount - 1).toNat = c.header.refCount.toNat - 1 :=
    toNat_sub_one (by omega)
  simp only [CreationConfig.setAttacher, CreationConfig.setRefs, hsub]
  omega

theorem countsAttaches_step (hs : Guarded NamedOutside (CreationStep cr keys) c e d)
    (hl : NamedLate c) (h : CountsAttaches c) : CountsAttaches d := by
  obtain ⟨hok, hs⟩ := hs
  cases hs with
  | createOpen | createTruncate => exact h
  | @createStore store _ hs =>
    by_cases hd : refCountStored ≤ c.done
    · obtain ⟨k, hk, hn⟩ := h
      refine ⟨k, hk, fun _ => ?_⟩
      rw [← hn hd]
      exact congrArg UInt32.toNat (store_refCount hs hd)
    · refine ⟨0, counts_zero fun p hp => ?_, fun hd' => ?_⟩
      · have hlate := hl p hp.pastName
        rw [mutexInitialized] at hlate
        rw [refCountStored] at hd
        omega
      · have hinit : (store c.header).refCount = 1 :=
          store_initial_refCount hs (Nat.le_antisymm (Nat.lt_of_not_le hd) hd')
        exact congrArg UInt32.toNat hinit
  | attachBump hp => exact h.bump (by rw [hp]; exact id) hok
  | attachRollBack hp | release hp => exact h.drop (by rw [hp]; trivial)
  | attachOpen _ hp | attachExpect _ hp => exact h.keep (by rw [hp]; exact Iff.rfl)
  | attachStat hp | attachShort hp | attachValidate hp | attachInvalid hp | attachName hp
  | attachMisnamed hp | attachUnsigned hp | attachVerify hp | attachForged hp | attachDead hp
  | attachReadOnly hp | attachCheck hp | attachReturn hp | attachRecheckDead hp
  | releaseReadOnly hp => exact h.keep (by rw [hp]; exact Iff.rfl)

theorem creation_run (hr : Run (CreationStep cr keys) .initial as c) : FollowsCreate cr c :=
  hr.invariant (I := fun _ c => FollowsCreate cr c) followsCreate_initial
    fun _ _ _ _ _ h hs => followsCreate_step hs h

theorem published_run (hr : Run (Guarded NamedOutside (CreationStep cr keys)) .initial as c) :
    NamedLate c ∧ CountsAttaches c := by
  refine hr.invariant (I := fun _ c => NamedLate c ∧ CountsAttaches c) ?_ ?_
  · exact ⟨fun _ h => h.elim, 0, counts_zero fun _ h => h,
      fun h => absurd h (Nat.not_succ_le_zero 17)⟩
  · intro as s e t hrun ⟨hl, hc⟩ hs
    exact ⟨namedLate_step hs (creation_run hrun.unguard) hl, countsAttaches_step hs hl hc⟩

omit [DecidableEq P] in
theorem FollowsCreate.published (h : FollowsCreate cr c) (hd : mutexInitialized ≤ c.done) :
    Published cr c.header := by
  have hpub : Published cr (cr.after c.done) := after_published hd h.bound
  obtain ⟨r, counter, lastNs, heq⟩ := hpub
  have hh : c.header = { cr.after c.done with refCount := c.header.refCount } := h.header
  exact ⟨c.header.refCount, counter, lastNs, by rw [hh, heq]⟩

theorem returned_pastName {p : P} (hs : CreationStep cr keys c (.returned p) d) :
    (c.attachers p).PastName := by
  cases hs with
  | attachReadOnly hp | attachReturn hp =>
    rw [hp]
    trivial

theorem publicationSafe_run (hr : Run (Guarded NamedOutside (CreationStep cr keys)) .initial as c) :
    PublicationSafe cr keys c := by
  obtain ⟨hl, k, hk, hn⟩ := published_run hr
  have hkept : c.done < refCountStored → ∀ p, ¬ (c.attachers p).Outstanding := by
    intro hd p hp
    have hlate := hl p hp.pastName
    rw [mutexInitialized] at hlate
    rw [refCountStored] at hd
    omega
  refine ⟨fun p d hs => ?_, hkept, ?_⟩
  · exact (creation_run hr.unguard).published (hl p (returned_pastName hs))
  · rcases Nat.lt_or_ge c.done refCountStored with hd | hd
    · refine ⟨0, counts_zero fun p hp => hkept hd p ?_, Nat.zero_le _⟩
      rw [hp]
      trivial
    · have hout : ∀ pc, pc = AttachCallPc.holding .readWrite → pc.Outstanding := by
        rintro pc rfl
        trivial
      obtain ⟨m, hm, hcount⟩ := hk.narrow hout
      have hrefs := hn hd
      exact ⟨m, hcount, by omega⟩

variable (cr keys) in
/-- Left alone, `create` gets as far as it likes. -/
theorem create_continues (ok : CreationConfig P → CreationEvent P → Prop) {n k : Nat}
    (hok : ∀ d, ok d .create) (hn : n ≤ 25) (hz : c.size = some cr.options.totalSize)
    (hk : c.done + k = n) :
    ∃ as d, Run (Guarded ok (CreationStep cr keys)) c as d ∧ d.done = n ∧
      d.attachers = c.attachers ∧ d.size = c.size ∧
      (c.header = cr.after c.done → d.header = cr.after n) := by
  induction k generalizing c with
  | zero => exact ⟨[], c, .nil, hk, rfl, rfl, fun h => hk ▸ h⟩
  | succ k ih =>
    have hlt : c.done < cr.stores.length := by
      rw [length_stores]
      omega
    let c' : CreationConfig P := { c with header := cr.stores[c.done] c.header, done := c.done + 1 }
    have hstore := List.getElem?_eq_getElem hlt
    have hs : CreationStep cr keys c .create c' := .createStore hz hstore
    obtain ⟨as, d, hr, hd, ha, hsize, hh⟩ := ih (c := c') hz (show c.done + 1 + k = n by omega)
    refine ⟨_, d, hr.cons ⟨hok c, hs⟩, hd, ha, hsize, fun hc => hh ?_⟩
    show cr.stores[c.done] c.header = cr.after (c.done + 1)
    rw [after_succ hstore, hc]

/-- Once signed, a header passes every check an attach has left after the name. -/
theorem attach_finishes {p : P} {mode : AttachMode} (hp : c.attachers p = .named mode)
    (hv : verifyHeaderHmac (keys p) c.header = .ok ())
    (hs : c.header.state ≠ SegmentState.dead.code) :
    ∃ as d d', Run (CreationStep cr keys) c as d ∧ CreationStep cr keys d (.returned p) d' ∧
      d.done = c.done := by
  let c₁ := c.setAttacher p (.expected mode)
  let c₂ := c₁.setAttacher p (.verified mode)
  have hat : ∀ (c : CreationConfig P) pc, (c.setAttacher p pc).attachers p = pc :=
    fun _ _ => Function.update_self _ _ _
  have h₁ : CreationStep cr keys c (.attach p) c₁ := .attachExpect false hp fun h => by cases h
  have h₂ : CreationStep cr keys c₁ (.attach p) c₂ := .attachVerify (hat _ _) hv
  cases mode with
  | readOnly =>
    have h₃ : CreationStep cr keys c₂ (.returned p) _ := .attachReadOnly (hat _ _) hs
    exact ⟨_, c₂, _, (Run.single h₁).snoc h₂, h₃, rfl⟩
  | readWrite =>
    let c₃ := c₂.setAttacher p .checked
    let c₄ := (c₃.setRefs (c₃.header.refCount + 1)).setAttacher p .bumped
    have h₃ : CreationStep cr keys c₂ (.attach p) c₃ := .attachCheck (hat _ _) hs
    have h₄ : CreationStep cr keys c₃ (.bumped p) c₄ := .attachBump (hat _ _)
    have h₅ : CreationStep cr keys c₄ (.returned p) _ := .attachReturn (hat _ _) hs
    exact ⟨_, c₄, _, (((Run.single h₁).snoc h₂).snoc h₃).snoc h₄, h₅, rfl⟩

omit [DecidableEq P] in
/-- One store before the mutex initialisation everything else an attach looks at is final. -/
theorem FollowsCreate.signed (h : FollowsCreate cr c) (hd : c.done + 1 = mutexInitialized) :
    verifyHeaderHmac cr.env.keys c.header = .ok () ∧
      c.header.state ≠ SegmentState.dead.code ∧ c.header.controlMutex = .zeroed := by
  obtain ⟨r, hr⟩ : ∃ r, c.header = { cr.after 22 with refCount := r } := by
    have hh : c.header = { cr.after c.done with refCount := c.header.refCount } := h.header
    rw [show c.done = 22 from Nat.succ.inj hd] at hh
    exact ⟨_, hh⟩
  have hafter : cr.after 22 =
      { writeHeader cr.options cr.env with hmac := cr.header.hmac } := rfl
  rw [hr, hafter]
  refine ⟨created_hmac cr.ok ?_ ?_ rfl, ?_, rfl⟩
  · rw [created_eq cr.ok]
    rfl
  · rw [created_eq cr.ok]
    rfl
  · show SegmentState.active.code ≠ SegmentState.dead.code
    decide

/-- An attach that passes its name check inside the window can be served to the end of its call
while the mutex is still zero. -/
theorem returns_unpublished {p : P} (hr : Run (CreationStep cr keys) .initial as c)
    (hs : CreationStep cr keys c (.named p) d) (hbad : ¬ NamedOutside c (.named p))
    (hk : keys p = cr.env.keys) :
    ∃ bs c' d', Run (CreationStep cr keys) d bs c' ∧ CreationStep cr keys c' (.returned p) d' ∧
      ¬ Published cr c'.header := by
  obtain ⟨hstored, hlt⟩ := not_not.mp hbad
  have hz : c.size = some cr.options.totalSize :=
    (creation_run hr).size (Nat.lt_of_lt_of_le (by decide) hstored)
  obtain ⟨k, hdone⟩ := Nat.exists_eq_add_of_lt hlt
  have hrun := hr.snoc hs
  cases hs with
  | @attachName _ mode =>
    have hwait : (c.setAttacher p (.named mode)).done + k = 22 := Nat.succ.inj hdone.symm
    obtain ⟨bs, c₁, hgo, hc₁, hat, -⟩ := create_continues cr keys (fun _ _ => True)
      (c := c.setAttacher p (.named mode)) (fun _ => trivial) (by decide) hz hwait
    have hrun₁ := hgo.unguard
    have hp : c₁.attachers p = .named mode := by
      rw [hat]
      exact Function.update_self _ _ _
    have hnext : c₁.done + 1 = mutexInitialized := by rw [hc₁]; rfl
    obtain ⟨hv, hstate, -⟩ := (creation_run (hrun.append hrun₁)).signed hnext
    obtain ⟨cs, c₂, d', hrun₂, hret, hc₂⟩ := attach_finishes hp (hk ▸ hv) hstate
    have hf := creation_run ((hrun.append hrun₁).append hrun₂)
    obtain ⟨-, -, hmutex⟩ := hf.signed (hc₂ ▸ hnext)
    refine ⟨_, c₂, d', hrun₁.append hrun₂, hret, ?_⟩
    rintro ⟨r, counter, lastNs, heq⟩
    rw [heq, created_eq cr.ok] at hmutex
    cases hmutex

/-- If no attach passes its name check between the name store and the mutex initialisation, handles
are returned on published headers only and no increment is lost; any attach that does can be
returned a handle before the mutex exists. -/
theorem attach_after_publication (cr : Creation) (keys : P → KeySource) :
    (∀ as c, Run (Guarded NamedOutside (CreationStep cr keys)) .initial as c →
      PublicationSafe cr keys c) ∧
    ∀ as c d p, Run (CreationStep cr keys) .initial as c → CreationStep cr keys c (.named p) d →
      ¬ NamedOutside c (.named p) → keys p = cr.env.keys →
      ∃ bs c', Run (CreationStep cr keys) d bs c' ∧ ¬ PublicationSafe cr keys c' := by
  constructor
  · intro as c hr
    exact publicationSafe_run hr
  · intro as c d p hr hs hbad hk
    obtain ⟨bs, c', d', hrun, hret, hnot⟩ := returns_unpublished hr hs hbad hk
    exact ⟨bs, c', hrun, fun h => hnot (h.returned p d' hret)⟩

theorem setAttacher_setAttacher (c : CreationConfig P) (p : P) (pc pc' : AttachCallPc) :
    (c.setAttacher p pc).setAttacher p pc' = c.setAttacher p pc' := by
  simp [CreationConfig.setAttacher]

/-- What an attach checks of the header it has mapped. -/
structure PassesChecks (cr : Creation) (keys : KeySource) (h : ShmHeader) : Prop where
  validated : validateHeader h cr.options.totalSize = .ok ()
  named : h.nameView = cr.options.name
  verified : verifyHeaderHmac keys h = .ok ()
  alive : h.state ≠ SegmentState.dead.code

theorem PassesChecks.setRefs {keys : KeySource} {h : ShmHeader} (hc : PassesChecks cr keys h)
    (n : UInt32) : PassesChecks cr keys { h with refCount := n } :=
  ⟨hc.validated, hc.named, hc.verified, hc.alive⟩

/-- A read-write attach served without interruption. -/
theorem attach_served {ok : CreationConfig P → CreationEvent P → Prop} {p : P}
    (hp : c.attachers p = .idle) (hz : c.size = some cr.options.totalSize)
    (hl : headerSize ≤ cr.options.totalSize) (hc : PassesChecks cr (keys p) c.header)
    (hok : ∀ d e, d.done = c.done → d.header = c.header → ok d e) (hret : ∀ d, ok d (.returned p)) :
    ∃ as, .returned p ∈ as ∧ Run (Guarded ok (CreationStep cr keys)) c as
      ((c.setRefs (c.header.refCount + 1)).setAttacher p (.holding .readWrite)) := by
  have hat : ∀ (c : CreationConfig P) pc, (c.setAttacher p pc).attachers p = pc :=
    fun _ _ => Function.update_self _ _ _
  have hstep : ∀ {pc pc' : AttachCallPc} {e},
      CreationStep cr keys (c.setAttacher p pc) e ((c.setAttacher p pc).setAttacher p pc') →
      Guarded ok (CreationStep cr keys) (c.setAttacher p pc) e (c.setAttacher p pc') := by
    intro pc pc' e h
    rw [setAttacher_setAttacher] at h
    exact ⟨hok _ _ rfl rfl, h⟩
  have h₁ : Guarded ok (CreationStep cr keys) c (.attach p)
      (c.setAttacher p (.opened .readWrite)) :=
    ⟨hok _ _ rfl rfl, .attachOpen _ hp (by rw [hz]; exact Option.some_ne_none _)⟩
  have h₂ := hstep (.attachStat (hat _ (.opened .readWrite)) hz hl)
  have h₃ := hstep (.attachValidate (hat _ (.mapped .readWrite _)) hc.validated)
  have h₄ := hstep (.attachName (hat _ (.validated .readWrite)) hc.named)
  have h₅ := hstep (.attachExpect false (hat _ (.named .readWrite)) fun h => by cases h)
  have h₆ := hstep (.attachVerify (hat _ (.expected .readWrite)) hc.verified)
  have h₇ := hstep (.attachCheck (hat _ (.verified .readWrite)) hc.alive)
  let d := (c.setRefs (c.header.refCount + 1)).setAttacher p .bumped
  have h₈ : Guarded ok (CreationStep cr keys) (c.setAttacher p .checked) (.bumped p) d := by
    refine ⟨hok _ _ rfl rfl, ?_⟩
    have h : CreationStep cr keys (c.setAttacher p .checked) (.bumped p) _ := .attachBump (hat _ _)
    have heq : ((c.setAttacher p .checked).setRefs (c.header.refCount + 1)).setAttacher p .bumped =
        d := setAttacher_setAttacher (c.setRefs (c.header.refCount + 1)) p _ _
    exact heq ▸ h
  have h₉ : Guarded ok (CreationStep cr keys) d (.returned p)
      ((c.setRefs (c.header.refCount + 1)).setAttacher p (.holding .readWrite)) := by
    refine ⟨hret d, ?_⟩
    have h : CreationStep cr keys d (.returned p) _ := .attachReturn (hat _ _) hc.alive
    rw [setAttacher_setAttacher] at h
    exact h
  exact ⟨_, by simp, ((((((((Run.single h₁).snoc h₂).snoc h₃).snoc h₄).snoc h₅).snoc h₆).snoc
    h₇).snoc h₈).snoc h₉⟩

end Proofs

end Steps

section Examples

theorem exists_creation : ∃ cr : Creation, cr.options = sizedOptions 64 ∧ cr.env = quietEnv := by
  have hok : (create (sizedOptions 64) quietEnv zeroPayload).toBool = true := by decide +kernel
  obtain ⟨h, p', hc⟩ := exists_created hok
  exact ⟨⟨_, _, _, _, _, hc⟩, rfl, rfl⟩

/-- The header of such a creation when only `ref_count`, `state` and what follows are missing. -/
def halfHeader : ShmHeader :=
  ((headerStores (sizedOptions 64) quietEnv).take 17).foldl (fun h store => store h) zeroHeader

theorem halfHeader_passes {cr : Creation} (ho : cr.options = sizedOptions 64)
    (he : cr.env = quietEnv) :
    cr.after 17 = halfHeader ∧ PassesChecks cr cr.env.keys halfHeader := by
  constructor
  · rw [halfHeader, ← ho, ← he]
    rfl
  · constructor
    · rw [ho]
      decide +kernel
    · rw [ho]
      decide +kernel
    · rw [he]
      decide +kernel
    · decide +kernel

/-- Any number of stores into a creation, before anybody attaches. -/
theorem exists_stored (cr : Creation) (keys : P → KeySource) [DecidableEq P] {n : Nat}
    (hn : n ≤ 25) :
    ∃ as c, Run (Guarded NamedOutside (CreationStep cr keys)) .initial as c ∧
      c.size = some cr.options.totalSize ∧ c.done = n ∧ c.header = cr.after n ∧
      c.attachers = fun _ => .idle := by
  let c₀ : CreationConfig P := .initial
  let c₁ : CreationConfig P := { c₀ with size := some 0 }
  let c₂ : CreationConfig P := { c₁ with size := some cr.options.totalSize }
  have h₁ : Guarded NamedOutside (CreationStep cr keys) c₀ .create c₁ :=
    ⟨trivial, .createOpen rfl⟩
  have h₂ : Guarded NamedOutside (CreationStep cr keys) c₁ .create c₂ :=
    ⟨trivial, .createTruncate rfl⟩
  obtain ⟨as, c, hr, hd, ha, hz, hh⟩ := create_continues cr keys NamedOutside (c := c₂)
    (fun _ => trivial) hn rfl (Nat.zero_add n)
  exact ⟨_, c, ((Run.single h₁).snoc h₂).append hr, hz, hd, hh rfl, ha⟩

/-- An attach that comes after the last store. -/
theorem attach_after_publication_served : ∃ (cr : Creation) (as : List (CreationEvent Unit))
    (c : CreationConfig Unit),
    Run (Guarded NamedOutside (CreationStep cr fun _ => cr.env.keys)) .initial as c ∧
      .returned () ∈ as ∧ PublicationSafe cr (fun _ => cr.env.keys) c := by
  obtain ⟨cr, ho, he⟩ := exists_creation
  have hfits : cr.options.metaSize.toNat + 256 < 2 ^ 64 := by
    rw [ho]
    decide
  have haccept := accepted_of_fits cr.ok hfits
  have hl : headerSize ≤ cr.options.totalSize := by
    rw [ho]
    decide
  obtain ⟨as, c, hr, hz, hd, hh, ha⟩ :=
    exists_stored (P := Unit) cr (fun _ => cr.env.keys) (n := 25) (by decide)
  have hheader : c.header = cr.header := hh.trans (after_all cr)
  have hpass : PassesChecks cr cr.env.keys c.header := by
    rw [hheader]
    refine ⟨haccept.validated, haccept.name, haccept.hmac, ?_⟩
    rw [created_eq cr.ok]
    show SegmentState.active.code ≠ SegmentState.dead.code
    decide
  have hrefs : c.header.refCount = 1 := by
    rw [hheader, created_eq cr.ok]
    rfl
  have hguard : ∀ (d : CreationConfig Unit) e, d.done = c.done → d.header = c.header →
      NamedOutside d e := by
    intro d e hdone heq
    cases e with
    | named p => exact fun h => absurd h.2 (by rw [hdone, hd]; decide)
    | bumped p =>
      show d.header.refCount.toNat + 1 < 2 ^ 32
      rw [heq, hrefs]
      decide
    | _ => trivial
  obtain ⟨bs, hmem, hserved⟩ : ∃ bs, .returned () ∈ bs ∧
      Run (Guarded NamedOutside (CreationStep cr fun _ => cr.env.keys)) c bs _ :=
    attach_served (by rw [ha]) hz hl hpass hguard fun _ => trivial
  have hrun := hr.append hserved
  exact ⟨cr, _, _, hrun, by simp [hmem], (attach_after_publication cr _).1 _ _ hrun⟩

/-- Two attaches are served just before `ref_count` gets its initial value: both return, on a
segment in state INIT with a zero mutex, and the store erases both increments. -/
theorem attach_on_half_created : ∃ (cr : Creation) (as : List (CreationEvent Bool))
    (c d : CreationConfig Bool), cr.options = sizedOptions 64 ∧
      Run (CreationStep cr fun _ => cr.env.keys) .initial as c ∧
      .returned true ∈ as ∧ .returned false ∈ as ∧
      c.attachers = (fun _ => .holding .readWrite) ∧
      c.header.state = SegmentState.init.code ∧ c.header.controlMutex = .zeroed ∧
      c.header.refCount = 2 ∧ CreationStep cr (fun _ => cr.env.keys) c .create d ∧
      d.header.refCount = 1 ∧ ¬ PublicationSafe cr (fun _ => cr.env.keys) c := by
  obtain ⟨cr, ho, he⟩ := exists_creation
  let keys : Bool → KeySource := fun _ => cr.env.keys
  let served (c : CreationConfig Bool) (p : Bool) : CreationConfig Bool :=
    (c.setRefs (c.header.refCount + 1)).setAttacher p (.holding .readWrite)
  have hl : headerSize ≤ cr.options.totalSize := by
    rw [ho]
    decide
  have hserve : ∀ c p, c.attachers p = .idle → c.size = some cr.options.totalSize →
      PassesChecks cr cr.env.keys c.header →
      ∃ as, .returned p ∈ as ∧ Run (Guarded (fun _ _ => True) (CreationStep cr keys)) c as
        (served c p) :=
    fun c p hp hz hc => attach_served hp hz hl hc (fun _ _ _ _ => trivial) fun _ => trivial
  obtain ⟨hhalf, hpasses⟩ := halfHeader_passes ho he
  obtain ⟨as, c, hr, hz, hd, hstored, ha⟩ := exists_stored cr keys (n := 17) (by decide)
  have hh : c.header = halfHeader := hstored.trans hhalf
  have hpass : PassesChecks cr cr.env.keys c.header := hh ▸ hpasses
  obtain ⟨as₁, hmem₁, hr₁⟩ := hserve c true (by rw [ha]) hz hpass
  have hidle : (served c true).attachers false = .idle := by
    simp [served, CreationConfig.setAttacher, CreationConfig.setRefs, ha]
  obtain ⟨as₂, hmem₂, hr₂⟩ := hserve (served c true) false hidle hz (hpass.setRefs _)
  let d := served (served c true) false
  have hall : d.attachers = fun _ => .holding .readWrite := by
    funext b
    cases b <;> simp [d, served, CreationConfig.setAttacher, CreationConfig.setRefs]
  have hdone : d.done = 17 := hd
  have hstore : cr.stores[d.done]? = some fun h => { h with refCount := 1 } := by
    rw [hdone]
    rfl
  have hsize : d.size = some cr.options.totalSize := hz
  have hlast : CreationStep cr keys d .create
      { d with header := { d.header with refCount := 1 }, done := d.done + 1 } :=
    .createStore hsize hstore
  refine ⟨cr, _, d, _, ho, (hr.unguard.append hr₁.unguard).append hr₂.unguard, by simp [hmem₁],
    by simp [hmem₂], hall, ?_, ?_, ?_, hlast, rfl, ?_⟩
  · show c.header.state = _
    rw [hh]
    rfl
  · show c.header.controlMutex = _
    rw [hh]
    rfl
  · show c.header.refCount + 1 + 1 = 2
    rw [hh]
    decide +kernel
  · intro hsafe
    have hno := hsafe.kept (by rw [hdone]; decide) true
    rw [hall] at hno
    exact hno trivial

end Examples

end Shmfx
