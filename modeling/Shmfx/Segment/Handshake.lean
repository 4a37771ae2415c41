import Shmfx.Lib.Lts
import Shmfx.Lib.Tally
import Shmfx.Types

/-! `ShmManager::attach` in read-write mode against the janitor's dead-owner branch, on one
segment object: the bump and re-check of the one, the re-check and DEAD store of the other. -/
namespace Shmfx

open Lts Tally Word

universe u v

/-- Where a read-write `attach` stands once its header checks have passed, and the handle it may
return. -/
inductive AttachPc
  | idle
  | opened
  | checked
  | bumped
  | rollingBack
  | holding
  deriving DecidableEq

/-- The caller's increment of `ref_count` is still in place. -/
def AttachPc.Outstanding : AttachPc → Prop
  | .bumped | .rollingBack | .holding => True
  | .idle | .opened | .checked => False

/-- The creator's handle, from its return to the end of its `reset`. -/
inductive OwnerPc
  | holding
  | dropped (last : Bool)
  | condemned
  | unlinking
  | gone
  deriving DecidableEq

def OwnerPc.refs : OwnerPc → Nat
  | .holding => 1
  | _ => 0

/-- Where a `gc` pass stands on this segment. -/
inductive GcPc
  | idle
  | opened
  | judged (dead : Bool)
  | counted (dead : Bool) (rc : UInt32)
  | draining
  | zombie
  | locking
  | locked
  | rechecked
  | condemned
  | unlinking
  | unlocking
  deriving DecidableEq

/-- Between a zero re-check of `ref_count` and the store of DEAD that rests on it. -/
def GcPc.Deciding : GcPc → Prop
  | .rechecked | .condemned => True
  | _ => False

/-- The segment object with everybody working on it. -/
structure HandshakeConfig (P : Type u) (G : Type v) where
  state : SegmentState
  refCount : UInt32
  linked : Bool
  mutex : Option G
  owner : OwnerPc
  attachers : P → AttachPc
  janitors : G → GcPc

inductive HandshakeEvent (P : Type u) (G : Type v)
  | attach (p : P)
  | bumped (p : P)
  | returned (p : P)
  | failed (p : P)
  | released (p : P)
  | owner
  | gc (g : G)
  | deadStored (g : G)
  | unlinked (g : G)

variable {P : Type u} {G : Type v} {c : HandshakeConfig P G} {as : List (HandshakeEvent P G)}

/-- A segment whose `create` has just returned. -/
def HandshakeConfig.initial : HandshakeConfig P G :=
  ⟨.active, 1, true, none, .holding, fun _ => .idle, fun _ => .idle⟩

def Unheld (c : HandshakeConfig P G) : Prop :=
  c.owner ≠ .holding ∧ ∀ p, c.attachers p ≠ .holding

def DeadByGc (as : List (HandshakeEvent P G)) : Prop :=
  ∃ g, .deadStored g ∈ as

/-- The counter is the number of increments in place. -/
def CountsHandles (c : HandshakeConfig P G) : Prop :=
  ∃ k, Counts AttachPc.Outstanding c.attachers k ∧ c.refCount.toNat = k + c.owner.refs

theorem countsHandles_initial : CountsHandles (.initial : HandshakeConfig P G) :=
  ⟨0, counts_zero fun _ h => h, rfl⟩

/-- A pending decision, or a stored one, finds the segment without handles. -/
structure Vacated (as : List (HandshakeEvent P G)) (c : HandshakeConfig P G) : Prop where
  deciding : ∀ g, (c.janitors g).Deciding → Unheld c
  dead : DeadByGc as → c.state = .dead ∧ Unheld c

theorem CountsHandles.owner_drop (h : CountsHandles c) (ho : c.owner = .holding) (last : Bool) :
    CountsHandles { c with refCount := c.refCount - 1, owner := .dropped last } := by
  obtain ⟨k, hk, hn⟩ := h
  rw [ho] at hn
  refine ⟨k, hk, ?_⟩
  have hsub : (c.refCount - 1).toNat = c.refCount.toNat - 1 :=
    toNat_sub_one (by rw [hn]; exact Nat.succ_pos k)
  rw [hsub, hn]
  rfl

/-- The owner's later steps change no count. -/
theorem CountsHandles.owner_keep (h : CountsHandles c) {o : OwnerPc} {state : SegmentState}
    {linked : Bool} (ho : o.refs = c.owner.refs) :
    CountsHandles { c with state := state, linked := linked, owner := o } := by
  obtain ⟨k, hk, hn⟩ := h
  exact ⟨k, hk, by rw [hn, ho]⟩

/-- A zero counter means that no handle is out. -/
theorem CountsHandles.unheld (h : CountsHandles c) (hz : c.refCount = 0) : Unheld c := by
  obtain ⟨k, hk, hn⟩ := h
  rw [hz, UInt32.toNat_zero] at hn
  obtain rfl : k = 0 := by omega
  refine ⟨fun ho => ?_, fun p hp => hk.none p (by rw [hp]; trivial)⟩
  rw [ho] at hn
  exact absurd hn (by decide)

theorem vacated_initial : Vacated [] (.initial : HandshakeConfig P G) :=
  ⟨fun _ h => h.elim, fun ⟨_, h⟩ => absurd h List.not_mem_nil⟩

section Attachers

variable [DecidableEq P]

def HandshakeConfig.setAttacher (c : HandshakeConfig P G) (p : P) (pc : AttachPc) :
    HandshakeConfig P G :=
  { c with attachers := Function.update c.attachers p pc }

theorem CountsHandles.keep (h : CountsHandles c) {p : P} {pc : AttachPc}
    (hp : pc.Outstanding ↔ (c.attachers p).Outstanding) : CountsHandles (c.setAttacher p pc) := by
  obtain ⟨k, hk, hn⟩ := h
  exact ⟨k, hk.keep hp, hn⟩

theorem CountsHandles.bump (h : CountsHandles c) {p : P} (hp : ¬ (c.attachers p).Outstanding)
    (hb : c.refCount.toNat + 1 < 2 ^ 32) :
    CountsHandles ({ c with refCount := c.refCount + 1 }.setAttacher p .bumped) := by
  obtain ⟨k, hk, hn⟩ := h
  refine ⟨k + 1, hk.enter hp trivial, ?_⟩
  simp only [HandshakeConfig.setAttacher, toNat_add_one hb]
  omega

theorem CountsHandles.drop (h : CountsHandles c) {p : P} (hp : (c.attachers p).Outstanding) :
    CountsHandles ({ c with refCount := c.refCount - 1 }.setAttacher p .idle) := by
  obtain ⟨k, hk, hn⟩ := h
  have hpos := hk.pos hp
  refine ⟨k - 1, hk.leave hp id, ?_⟩
  have hsub : (c.refCount - 1).toNat = c.refCount.toNat - 1 := toNat_sub_one (by omega)
  simp only [HandshakeConfig.setAttacher, hsub]
  omega

theorem Unheld.setAttacher (h : Unheld c) {p : P} {pc : AttachPc} (hpc : pc ≠ .holding) :
    Unheld (c.setAttacher p pc) := by
  refine ⟨h.1, fun q => ?_⟩
  by_cases hq : q = p
  · subst hq
    simpa [HandshakeConfig.setAttacher] using hpc
  · simpa [HandshakeConfig.setAttacher, hq] using h.2 q

end Attachers

variable [DecidableEq P] [DecidableEq G]

def HandshakeConfig.setJanitor (c : HandshakeConfig P G) (g : G) (pc : GcPc) :
    HandshakeConfig P G :=
  { c with janitors := Function.update c.janitors g pc }

/-- What the janitor does after loading the state: the dead-owner branch, the drain, the zombie
unlink if it is due, or nothing. -/
def gcBranch (dead : Bool) (rc : UInt32) (state : SegmentState) (due : Bool) : GcPc :=
  if dead && rc == 0 then .locking
  else if dead && state == SegmentState.active then .draining
  else if state == SegmentState.draining && due then .zombie
  else .idle

/-- The compare-exchange from ACTIVE to DRAINING. -/
def drain : SegmentState → SegmentState
  | .active => .draining
  | state => state

/-- One shared access. What `owner_is_dead`, the zombie timing and the scan of the
mappings say is up to the environment. -/
inductive HandshakeStep : HandshakeConfig P G → HandshakeEvent P G → HandshakeConfig P G → Prop
  | attachOpen {c : HandshakeConfig P G} {p : P} (h : c.attachers p = .idle)
      (hl : c.linked = true) : HandshakeStep c (.attach p) (c.setAttacher p .opened)
  | attachCheck {c : HandshakeConfig P G} {p : P} (h : c.attachers p = .opened)
      (hs : c.state ≠ .dead) : HandshakeStep c (.attach p) (c.setAttacher p .checked)
  | attachDead {c : HandshakeConfig P G} {p : P} (h : c.attachers p = .opened)
      (hs : c.state = .dead) : HandshakeStep c (.failed p) (c.setAttacher p .idle)
  | attachBump {c : HandshakeConfig P G} {p : P} (h : c.attachers p = .checked) :
      HandshakeStep c (.bumped p)
        ({ c with refCount := c.refCount + 1 }.setAttacher p .bumped)
  | attachReturn {c : HandshakeConfig P G} {p : P} (h : c.attachers p = .bumped)
      (hs : c.state ≠ .dead) : HandshakeStep c (.returned p) (c.setAttacher p .holding)
  | attachRecheckDead {c : HandshakeConfig P G} {p : P} (h : c.attachers p = .bumped)
      (hs : c.state = .dead) : HandshakeStep c (.attach p) (c.setAttacher p .rollingBack)
  | attachRollBack {c : HandshakeConfig P G} {p : P} (h : c.attachers p = .rollingBack) :
      HandshakeStep c (.failed p) ({ c with refCount := c.refCount - 1 }.setAttacher p .idle)
  | release {c : HandshakeConfig P G} {p : P} (h : c.attachers p = .holding) :
      HandshakeStep c (.released p) ({ c with refCount := c.refCount - 1 }.setAttacher p .idle)
  | ownerRelease {c : HandshakeConfig P G} (h : c.owner = .holding) :
      HandshakeStep c .owner
        { c with refCount := c.refCount - 1, owner := .dropped (c.refCount == 1) }
  | ownerState {c : HandshakeConfig P G} {last : Bool} (h : c.owner = .dropped last) :
      HandshakeStep c .owner
        { c with owner := if last && c.state == SegmentState.draining then .condemned else .gone }
  | ownerStoreDead {c : HandshakeConfig P G} (h : c.owner = .condemned) :
      HandshakeStep c .owner { c with state := .dead, owner := .unlinking }
  | ownerUnlink {c : HandshakeConfig P G} (h : c.owner = .unlinking) :
      HandshakeStep c .owner { c with linked := false, owner := .gone }
  | gcOpen {c : HandshakeConfig P G} {g : G} (h : c.janitors g = .idle) (hl : c.linked = true) :
      HandshakeStep c (.gc g) (c.setJanitor g .opened)
  | gcJudge {c : HandshakeConfig P G} {g : G} (dead : Bool) (h : c.janitors g = .opened) :
      HandshakeStep c (.gc g) (c.setJanitor g (.judged dead))
  | gcCount {c : HandshakeConfig P G} {g : G} {dead : Bool} (h : c.janitors g = .judged dead) :
      HandshakeStep c (.gc g) (c.setJanitor g (.counted dead c.refCount))
  | gcState {c : HandshakeConfig P G} {g : G} {dead : Bool} {rc : UInt32} (due : Bool)
      (h : c.janitors g = .counted dead rc) :
      HandshakeStep c (.gc g) (c.setJanitor g (gcBranch dead rc c.state due))
  | gcDrain {c : HandshakeConfig P G} {g : G} (h : c.janitors g = .draining) :
      HandshakeStep c (.gc g)
        ({ c with state := drain c.state }.setJanitor g .idle)
  | gcZombie {c : HandshakeConfig P G} {g : G} (h : c.janitors g = .zombie) (mapped : Bool) :
      HandshakeStep c (.unlinked g)
        ({ c with linked := c.linked && mapped }.setJanitor g .idle)
  | gcLock {c : HandshakeConfig P G} {g : G} (h : c.janitors g = .locking) (hm : c.mutex = none) :
      HandshakeStep c (.gc g) ({ c with mutex := some g }.setJanitor g .locked)
  | gcRecheckZero {c : HandshakeConfig P G} {g : G} (h : c.janitors g = .locked)
      (hr : c.refCount = 0) : HandshakeStep c (.gc g) (c.setJanitor g .rechecked)
  | gcRecheckBusy {c : HandshakeConfig P G} {g : G} (h : c.janitors g = .locked)
      (hr : c.refCount ≠ 0) : HandshakeStep c (.gc g) (c.setJanitor g .unlocking)
  | gcStillDead {c : HandshakeConfig P G} {g : G} (h : c.janitors g = .rechecked) :
      HandshakeStep c (.gc g) (c.setJanitor g .condemned)
  | gcAlive {c : HandshakeConfig P G} {g : G} (h : c.janitors g = .rechecked) :
      HandshakeStep c (.gc g) (c.setJanitor g .unlocking)
  | gcStoreDead {c : HandshakeConfig P G} {g : G} (h : c.janitors g = .condemned) :
      HandshakeStep c (.deadStored g) ({ c with state := .dead }.setJanitor g .unlinking)
  | gcUnlink {c : HandshakeConfig P G} {g : G} (h : c.janitors g = .unlinking) :
      HandshakeStep c (.unlinked g) ({ c with linked := false }.setJanitor g .unlocking)
  | gcUnlock {c : HandshakeConfig P G} {g : G} (h : c.janitors g = .unlocking) :
      HandshakeStep c (.gc g) ({ c with mutex := none }.setJanitor g .idle)

/-- No attach passes its re-check while a janitor is deciding, and no bump wraps the counter. -/
def ReturnsUndecided (c : HandshakeConfig P G) : HandshakeEvent P G → Prop
  | .returned _ => ∀ g, ¬ (c.janitors g).Deciding
  | .bumped _ => c.refCount.toNat + 1 < 2 ^ 32
  | _ => True

/-- Once the janitor has stored DEAD, nobody holds a read-write handle and no attach will return
one. -/
def NoHandleOnDead (as : List (HandshakeEvent P G)) (c : HandshakeConfig P G) : Prop :=
  DeadByGc as → Unheld c ∧ ∀ bs d p, Run HandshakeStep c bs d → .returned p ∉ bs

section Proofs

variable {d : HandshakeConfig P G} {e : HandshakeEvent P G}

theorem dead_step (hs : HandshakeStep c e d) (h : c.state = .dead) : d.state = .dead := by
  cases hs with
  | ownerStoreDead | gcStoreDead => rfl
  | gcDrain => simp [HandshakeConfig.setJanitor, h, drain]
  | _ => exact h

theorem dead_run (hr : Run HandshakeStep c as d) (h : c.state = .dead) : d.state = .dead := by
  induction hr with
  | nil => exact h
  | snoc _ hs ih => exact dead_step hs ih

/-- DEAD is final, so the re-check fails for every attach that has not passed it. -/
theorem no_return_after_dead (hr : Run HandshakeStep c as d) (h : c.state = .dead) (p : P) :
    .returned p ∉ as := by
  intro hp
  obtain ⟨bs, _, s, s', -, hbs, hs⟩ := hr.exists_step hp
  have hdead := dead_run hbs h
  cases hs with
  | attachReturn _ hne => exact hne hdead

theorem countsHandles_step (hs : Guarded ReturnsUndecided HandshakeStep c e d)
    (h : CountsHandles c) : CountsHandles d := by
  obtain ⟨hok, hs⟩ := hs
  cases hs with
  | attachOpen hp | attachCheck hp | attachDead hp | attachReturn hp | attachRecheckDead hp =>
    exact h.keep (by rw [hp]; exact Iff.rfl)
  | attachBump hp => exact h.bump (by rw [hp]; exact id) hok
  | attachRollBack hp | release hp => exact h.drop (by rw [hp]; trivial)
  | ownerRelease ho => exact h.owner_drop ho _
  | ownerState ho => exact h.owner_keep (by rw [ho]; split <;> rfl)
  | ownerStoreDead ho | ownerUnlink ho => exact h.owner_keep (by rw [ho]; rfl)
  | _ => exact h

/-- Handles appear only where an attach returns. -/
theorem unheld_step (hs : HandshakeStep c e d) (he : ∀ p, e ≠ .returned p) (h : Unheld c) :
    Unheld d := by
  cases hs with
  | attachOpen | attachCheck | attachDead | attachRecheckDead => exact h.setAttacher (by decide)
  | attachBump =>
    have hc : Unheld { c with refCount := c.refCount + 1 } := h
    exact hc.setAttacher (by decide)
  | attachRollBack | release =>
    have hc : Unheld { c with refCount := c.refCount - 1 } := h
    exact hc.setAttacher (by decide)
  | attachReturn => exact absurd rfl (he _)
  | ownerRelease | ownerStoreDead | ownerUnlink => exact ⟨OwnerPc.noConfusion, h.2⟩
  | ownerState => exact ⟨by split <;> exact OwnerPc.noConfusion, h.2⟩
  | _ => exact h

omit [DecidableEq P] in
theorem deciding_setJanitor {g g' : G} {pc : GcPc}
    (h : ((c.setJanitor g pc).janitors g').Deciding) :
    (c.janitors g').Deciding ∨ g' = g ∧ pc.Deciding := by
  by_cases hg : g' = g
  · subst hg
    exact .inr ⟨rfl, by simpa [HandshakeConfig.setJanitor] using h⟩
  · exact .inl (by simpa [HandshakeConfig.setJanitor, hg] using h)

theorem gcBranch_not_deciding (dead : Bool) (rc : UInt32) (state : SegmentState) (due : Bool) :
    ¬ (gcBranch dead rc state due).Deciding := by
  unfold gcBranch
  split
  · exact id
  · split
    · exact id
    · split <;> exact id

/-- A decision is opened by a zero re-check and by nothing else. -/
theorem deciding_step (hs : HandshakeStep c e d) {g : G} (h : (d.janitors g).Deciding) :
    (c.janitors g).Deciding ∨ c.refCount = 0 ∧ ∀ p, e ≠ .returned p := by
  cases hs with
  | gcOpen | gcJudge | gcCount | gcRecheckBusy | gcAlive =>
    exact .inl ((deciding_setJanitor h).resolve_right And.right)
  | gcState =>
    exact .inl ((deciding_setJanitor h).resolve_right fun h => gcBranch_not_deciding _ _ _ _ h.2)
  | gcDrain | gcZombie | gcLock | gcStoreDead | gcUnlink | gcUnlock =>
    exact .inl ((deciding_setJanitor h).resolve_right And.right)
  | gcRecheckZero _ hr => exact .inr ⟨hr, fun _ => by simp⟩
  | gcStillDead hg =>
    rcases deciding_setJanitor h with h | ⟨rfl, -⟩
    · exact .inl h
    · exact .inl (by rw [hg]; trivial)
  | _ => exact .inl h

theorem vacated_step (hs : Guarded ReturnsUndecided HandshakeStep c e d) (hc : CountsHandles c)
    (h : Vacated as c) : Vacated (as ++ [e]) d := by
  obtain ⟨hok, hs⟩ := hs
  constructor
  · intro g hg
    rcases deciding_step hs hg with hg | ⟨hz, he⟩
    · refine unheld_step hs ?_ (h.deciding g hg)
      rintro p rfl
      exact hok g hg
    · exact unheld_step hs he (hc.unheld hz)
  · rintro ⟨g, hg⟩
    rcases List.mem_append.mp hg with hg | hg
    · obtain ⟨hd, hu⟩ := h.dead ⟨g, hg⟩
      refine ⟨dead_step hs hd, unheld_step hs ?_ hu⟩
      rintro p rfl
      exact no_return_after_dead (.single hs) hd p (by simp)
    · obtain rfl := List.mem_singleton.mp hg
      cases hs with
      | gcStoreDead hg => exact ⟨rfl, h.deciding g (by rw [hg]; trivial)⟩

theorem handshake_run (hr : Run (Guarded ReturnsUndecided HandshakeStep) .initial as c) :
    CountsHandles c ∧ Vacated as c :=
  hr.invariant (I := fun as c => CountsHandles c ∧ Vacated as c)
    ⟨countsHandles_initial, vacated_initial⟩
    fun _ _ _ _ _ ⟨hc, hv⟩ hs => ⟨countsHandles_step hs hc, vacated_step hs hc hv⟩

/-- The pending decision can go ahead whatever has returned in the meantime. -/
theorem dead_after_return {g : G} (hg : (c.janitors g).Deciding) :
    ∃ bs d, Run HandshakeStep c bs d ∧ .deadStored g ∈ bs ∧ d.attachers = c.attachers := by
  cases hpc : c.janitors g with
  | condemned =>
    have hs : HandshakeStep c (.deadStored g) _ := .gcStoreDead hpc
    exact ⟨_, _, .single hs, by simp, rfl⟩
  | rechecked =>
    have hs₁ : HandshakeStep c (.gc g) (c.setJanitor g .condemned) := .gcStillDead hpc
    have hpc' : (c.setJanitor g .condemned).janitors g = .condemned := by
      simp [HandshakeConfig.setJanitor]
    have hs₂ : HandshakeStep (c.setJanitor g .condemned) (.deadStored g) _ := .gcStoreDead hpc'
    exact ⟨_, _, (Run.single hs₁).snoc hs₂, by simp, rfl⟩
  | _ =>
    rw [hpc] at hg
    exact hg.elim

/-- If no attach passes its re-check between a janitor's zero re-check and its DEAD store, no handle
is ever out on a segment the janitor has declared DEAD; any other return can be followed by that
store. -/
theorem no_handle_on_dead :
    (∀ as (c : HandshakeConfig P G), Run (Guarded ReturnsUndecided HandshakeStep) .initial as c →
      NoHandleOnDead as c) ∧
    ∀ as (c d : HandshakeConfig P G) p, Run HandshakeStep .initial as c →
      HandshakeStep c (.returned p) d → ¬ ReturnsUndecided c (.returned p) →
      ∃ bs d', Run HandshakeStep d bs d' ∧ ¬ NoHandleOnDead (as ++ .returned p :: bs) d' := by
  constructor
  · intro as c hr hdead
    obtain ⟨hstate, hu⟩ := (handshake_run hr).2.dead hdead
    exact ⟨hu, fun _ _ p hrest => no_return_after_dead hrest hstate p⟩
  · intro as c d p hr hs hbad
    simp only [ReturnsUndecided, not_forall, not_not] at hbad
    obtain ⟨g, hg⟩ := hbad
    cases hs with
    | attachReturn hp hne =>
      obtain ⟨bs, d', hrun, hmem, heq⟩ := dead_after_return (c := c.setAttacher p .holding) hg
      refine ⟨bs, d', hrun, fun h => (h ⟨g, by simp [hmem]⟩).1.2 p ?_⟩
      simp [heq, HandshakeConfig.setAttacher]

/-- The owner has left, an attach has passed its first check, and the janitor its zero re-check. -/
theorem race_window : ∃ (as : List (HandshakeEvent Unit Unit)) (c : HandshakeConfig Unit Unit),
    Run (Guarded ReturnsUndecided HandshakeStep) .initial as c ∧ c.state = .active ∧
      c.refCount = 0 ∧ c.attachers () = .checked ∧ c.janitors () = .rechecked := by
  let step := Guarded ReturnsUndecided (HandshakeStep (P := Unit) (G := Unit))
  let c₀ : HandshakeConfig Unit Unit := .initial
  let c₁ : HandshakeConfig Unit Unit :=
    { c₀ with refCount := c₀.refCount - 1, owner := .dropped (c₀.refCount == 1) }
  let c₂ : HandshakeConfig Unit Unit := { c₁ with owner := .gone }
  let c₃ := c₂.setAttacher () .opened
  let c₄ := c₃.setAttacher () .checked
  let c₅ := c₄.setJanitor () .opened
  let c₆ := c₅.setJanitor () (.judged true)
  let c₇ := c₆.setJanitor () (.counted true c₆.refCount)
  let c₈ := c₇.setJanitor () (gcBranch true c₆.refCount c₇.state false)
  let c₉ : HandshakeConfig Unit Unit := { c₈ with mutex := some () }.setJanitor () .locked
  have hz : (1 - 1 : UInt32) = 0 := by decide
  have hb : gcBranch true (1 - 1) .active false = .locking := by decide
  have h₁ : step c₀ .owner c₁ := ⟨trivial, .ownerRelease rfl⟩
  have h₂ : step c₁ .owner c₂ := ⟨trivial, .ownerState (show c₁.owner = .dropped true from rfl)⟩
  have h₃ : step c₂ (.attach ()) c₃ := ⟨trivial, .attachOpen rfl rfl⟩
  have h₄ : step c₃ (.attach ()) c₄ := ⟨trivial, .attachCheck rfl SegmentState.noConfusion⟩
  have h₅ : step c₄ (.gc ()) c₅ := ⟨trivial, .gcOpen rfl rfl⟩
  have h₆ : step c₅ (.gc ()) c₆ := ⟨trivial, .gcJudge true rfl⟩
  have h₇ : step c₆ (.gc ()) c₇ := ⟨trivial, .gcCount rfl⟩
  have h₈ : step c₇ (.gc ()) c₈ := ⟨trivial, .gcState false rfl⟩
  have hk : c₈.janitors () = gcBranch true c₆.refCount c₇.state false := rfl
  have h₉ : step c₈ (.gc ()) c₉ := ⟨trivial, .gcLock (hk.trans hb) rfl⟩
  have h₁₀ : step c₉ (.gc ()) (c₉.setJanitor () .rechecked) := ⟨trivial, .gcRecheckZero rfl hz⟩
  exact ⟨_, _, (((((((((Run.single h₁).snoc h₂).snoc h₃).snoc h₄).snoc h₅).snoc h₆).snoc h₇).snoc
    h₈).snoc h₉).snoc h₁₀, rfl, hz, rfl, rfl⟩

/-- The bump comes after the zero re-check and the second check after the DEAD store: the attach
rolls back. -/
theorem no_handle_on_dead_rolls_back :
    ∃ (as : List (HandshakeEvent Unit Unit)) (c : HandshakeConfig Unit Unit),
    Run (Guarded ReturnsUndecided HandshakeStep) .initial as c ∧ .deadStored () ∈ as ∧
      .failed () ∈ as ∧ NoHandleOnDead as c := by
  obtain ⟨as, c, hr, -, hz, ha, hg⟩ := race_window
  let step := Guarded ReturnsUndecided (HandshakeStep (P := Unit) (G := Unit))
  let c₁ := { c with refCount := c.refCount + 1 }.setAttacher () .bumped
  let c₂ := c₁.setJanitor () .condemned
  let c₃ : HandshakeConfig Unit Unit := { c₂ with state := .dead }.setJanitor () .unlinking
  let c₄ := c₃.setAttacher () .rollingBack
  let c₅ := { c₄ with refCount := c₄.refCount - 1 }.setAttacher () .idle
  have h₁ : step c (.bumped ()) c₁ :=
    ⟨show c.refCount.toNat + 1 < 2 ^ 32 by rw [hz]; decide, .attachBump ha⟩
  have h₂ : step c₁ (.gc ()) c₂ := ⟨trivial, .gcStillDead hg⟩
  have h₃ : step c₂ (.deadStored ()) c₃ := ⟨trivial, .gcStoreDead rfl⟩
  have h₄ : step c₃ (.attach ()) c₄ := ⟨trivial, .attachRecheckDead rfl rfl⟩
  have h₅ : step c₄ (.failed ()) c₅ := ⟨trivial, .attachRollBack rfl⟩
  have hrun := ((((hr.snoc h₁).snoc h₂).snoc h₃).snoc h₄).snoc h₅
  exact ⟨_, c₅, hrun, by simp, by simp, no_handle_on_dead.1 _ _ hrun⟩

/-- Both of the attach's last two steps fall between the zero re-check and the DEAD store. -/
theorem handle_on_dead : ∃ (as : List (HandshakeEvent Unit Unit)) (c : HandshakeConfig Unit Unit),
    Run HandshakeStep .initial as c ∧ .deadStored () ∈ as ∧ c.state = .dead ∧
      c.attachers () = .holding ∧ ¬ NoHandleOnDead as c := by
  obtain ⟨as, c, hr, hs, -, ha, hg⟩ := race_window
  let c₁ := { c with refCount := c.refCount + 1 }.setAttacher () .bumped
  let c₂ := c₁.setAttacher () .holding
  let c₃ := c₂.setJanitor () .condemned
  let c₄ : HandshakeConfig Unit Unit := { c₃ with state := .dead }.setJanitor () .unlinking
  have h₁ : HandshakeStep c (.bumped ()) c₁ := .attachBump ha
  have h₂ : HandshakeStep c₁ (.returned ()) c₂ :=
    .attachReturn rfl (show c.state ≠ .dead by rw [hs]; exact SegmentState.noConfusion)
  have h₃ : HandshakeStep c₂ (.gc ()) c₃ := .gcStillDead hg
  have h₄ : HandshakeStep c₃ (.deadStored ()) c₄ := .gcStoreDead rfl
  refine ⟨_, c₄, (((hr.unguard.snoc h₁).snoc h₂).snoc h₃).snoc h₄, by simp, rfl, rfl, ?_⟩
  intro h
  exact (h ⟨(), by simp⟩).1.2 () rfl

end Proofs

end Shmfx
