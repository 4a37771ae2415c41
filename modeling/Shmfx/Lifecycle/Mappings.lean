import Shmfx.Lifecycle.Heartbeat
import Shmfx.Segment.Handles

/-! `g_heartbeat_headers` against the mappings of one process: `create`, moves and destruction of
`ShmHandle` objects, and heartbeat ticks in any interleaving. -/
namespace Shmfx

open Lts Word

universe u v w

/-- What `create` has got from `mmap` and `shm_open`. -/
structure RawMapping (A : Type w) where
  base : A
  size : Nat
  fd : Int

/-- The handle `create` constructs. -/
def RawMapping.owned {A : Type w} (r : RawMapping A) : ShmHandle A :=
  ⟨some r.base, r.size, r.fd, .readWrite, true, 0⟩

/-- The handle `attach` constructs. -/
def RawMapping.attached {A : Type w} (r : RawMapping A) (mode : AttachMode) : ShmHandle A :=
  ⟨some r.base, r.size, r.fd, mode, false, 0⟩

/-- A place for a `ShmHandle` object: the local of a `create` call before its handle is there, in
`register_heartbeat_owner`, and before it is returned; an object; and how far a `reset` of it has
come. -/
inductive OwnerSlot (T : Type u) (V : Type v) (A : Type w)
  | absent
  | writing (r : RawMapping A)
  | enlisting (t : T) (r : RawMapping A)
  | registering (r : RawMapping A)
  | holds (h : ShmHandle A)
  | resetting (h : ShmHandle A) (k : AfterReset V)
  | joining (t : T) (worker : Nat) (h : ShmHandle A) (k : AfterReset V)
  | unmapping (h : ShmHandle A) (k : AfterReset V)
  | cleared (k : AfterReset V)

variable {T : Type u} {V : Type v} {A : Type w}

namespace OwnerSlot

/-- The mapping the place is responsible for. -/
def base : OwnerSlot T V A → Option A
  | writing r | enlisting _ r | registering r => some r.base
  | holds h | resetting h _ | joining _ _ h _ | unmapping h _ => h.base
  | absent | cleared _ => none

/-- The owner's header, from the return of `register_heartbeat_owner` to the critical section of
`unregister_heartbeat_owner`. -/
def listed : OwnerSlot T V A → Option A
  | registering r => some r.base
  | holds h | resetting h _ => if h.owner then h.base else none
  | _ => none

end OwnerSlot

/-- The process: the heartbeat globals and threads, which addresses are mapped, and the places of
handles. -/
structure MappingConfig (T : Type u) (V : Type v) (A : Type w) where
  heart : HeartbeatConfig T A
  mapped : A → Bool
  slots : V → OwnerSlot T V A

namespace MappingConfig

def initial (beats : A → Beat) : MappingConfig T V A :=
  ⟨.initial beats, fun _ => false, fun _ => .absent⟩

def setSlot [DecidableEq V] (c : MappingConfig T V A) (v : V) (s : OwnerSlot T V A) :
    MappingConfig T V A :=
  { c with slots := Function.update c.slots v s }

def setMapped [DecidableEq A] (c : MappingConfig T V A) (a : A) (m : Bool) :
    MappingConfig T V A :=
  { c with mapped := Function.update c.mapped a m }

def setHeart (c : MappingConfig T V A) (heart : HeartbeatConfig T A) : MappingConfig T V A :=
  { c with heart := heart }

end MappingConfig

/-- Steps of the heartbeat are labelled by its own events. -/
inductive MappingEvent (T : Type u) (A : Type w)
  | quiet
  | heart (e : HeartbeatEvent T A)

variable [DecidableEq T] [DecidableEq V] [DecidableEq A]

/-- One critical section, one system call, or the local code of one member function. `mmap` never
returns an address that is mapped, and other code unmaps only what it has mapped itself. -/
inductive MappingStep :
    MappingConfig T V A → MappingEvent T A → MappingConfig T V A → Prop
  | createMap {c : MappingConfig T V A} {v : V} {r : RawMapping A} (hv : c.slots v = .absent)
      (ha : c.mapped r.base = false) :
      MappingStep c .quiet ((c.setMapped r.base true).setSlot v (.writing r))
  | createFail {c : MappingConfig T V A} {v : V} {r : RawMapping A} (hv : c.slots v = .writing r) :
      MappingStep c .quiet ((c.setMapped r.base false).setSlot v .absent)
  | createBeat {c : MappingConfig T V A} {v : V} {r : RawMapping A} {t : T}
      {heart : HeartbeatConfig T A} (hv : c.slots v = .writing r)
      (hs : HeartbeatStep c.heart (.beat t r.base) heart) :
      MappingStep c (.heart (.beat t r.base)) ((c.setHeart heart).setSlot v (.enlisting t r))
  | createEnlist {c : MappingConfig T V A} {v : V} {r : RawMapping A} {t : T}
      {heart : HeartbeatConfig T A} (hv : c.slots v = .enlisting t r)
      (hs : HeartbeatStep c.heart (.enlisted t r.base) heart) :
      MappingStep c (.heart (.enlisted t r.base)) ((c.setHeart heart).setSlot v (.registering r))
  | createStart {c : MappingConfig T V A} {v : V} {r : RawMapping A} {t : T} {worker : Nat}
      {heart : HeartbeatConfig T A} (hv : c.slots v = .enlisting t r)
      (hs : HeartbeatStep c.heart (.started t r.base worker) heart) :
      MappingStep c (.heart (.started t r.base worker))
        ((c.setHeart heart).setSlot v (.registering r))
  | createReturn {c : MappingConfig T V A} {v : V} {r : RawMapping A}
      (hv : c.slots v = .registering r) : MappingStep c .quiet (c.setSlot v (.holds r.owned))
  | createRefused {c : MappingConfig T V A} {v : V} {r : RawMapping A}
      (hv : c.slots v = .registering r) :
      MappingStep c .quiet (c.setSlot v (.resetting r.owned .destroyed))
  | attach {c : MappingConfig T V A} {v : V} {r : RawMapping A} {mode : AttachMode}
      (hv : c.slots v = .absent) (ha : c.mapped r.base = false) :
      MappingStep c .quiet ((c.setMapped r.base true).setSlot v (.holds (r.attached mode)))
  | construct {c : MappingConfig T V A} {v : V} (hv : c.slots v = .absent) :
      MappingStep c .quiet (c.setSlot v (.holds {}))
  | moveConstruct {c : MappingConfig T V A} {v source : V} {h : ShmHandle A}
      (hv : c.slots v = .absent) (hsource : c.slots source = .holds h) :
      MappingStep c .quiet ((c.setSlot v (.holds h)).setSlot source (.holds {}))
  | assignSelf {c : MappingConfig T V A} {v : V} {h : ShmHandle A} (hv : c.slots v = .holds h) :
      MappingStep c .quiet c
  | assign {c : MappingConfig T V A} {v source : V} {h h' : ShmHandle A} (hne : v ≠ source)
      (hv : c.slots v = .holds h) (hsource : c.slots source = .holds h') :
      MappingStep c .quiet (c.setSlot v (.resetting h (.assigned source)))
  | assignTake {c : MappingConfig T V A} {v source : V} {h : ShmHandle A}
      (hv : c.slots v = .cleared (.assigned source)) (hsource : c.slots source = .holds h) :
      MappingStep c .quiet ((c.setSlot v (.holds h)).setSlot source (.holds {}))
  | destruct {c : MappingConfig T V A} {v : V} {h : ShmHandle A} (hv : c.slots v = .holds h) :
      MappingStep c .quiet (c.setSlot v (.resetting h .destroyed))
  | destructed {c : MappingConfig T V A} {v : V} (hv : c.slots v = .cleared .destroyed) :
      MappingStep c .quiet (c.setSlot v .absent)
  | resetEmpty {c : MappingConfig T V A} {v : V} {h : ShmHandle A} {k : AfterReset V}
      (hv : c.slots v = .resetting h k) (hb : h.base = none) :
      MappingStep c .quiet (c.setSlot v (.cleared k))
  | resetAttached {c : MappingConfig T V A} {v : V} {h : ShmHandle A} {k : AfterReset V}
      (hv : c.slots v = .resetting h k) (hb : h.base ≠ none) (ho : h.owner = false) :
      MappingStep c .quiet (c.setSlot v (.unmapping h k))
  | resetDelist {c : MappingConfig T V A} {v : V} {h : ShmHandle A} {k : AfterReset V} {a : A}
      {t : T} {heart : HeartbeatConfig T A} (hv : c.slots v = .resetting h k)
      (hb : h.base = some a) (ho : h.owner = true)
      (hs : HeartbeatStep c.heart (.delisted t a) heart) :
      MappingStep c (.heart (.delisted t a)) ((c.setHeart heart).setSlot v (.unmapping h k))
  | resetStop {c : MappingConfig T V A} {v : V} {h : ShmHandle A} {k : AfterReset V} {a : A}
      {t : T} {worker : Nat} {heart : HeartbeatConfig T A} (hv : c.slots v = .resetting h k)
      (hb : h.base = some a) (ho : h.owner = true)
      (hs : HeartbeatStep c.heart (.moved t a worker) heart) :
      MappingStep c (.heart (.moved t a worker))
        ((c.setHeart heart).setSlot v (.joining t worker h k))
  | resetJoin {c : MappingConfig T V A} {v : V} {h : ShmHandle A} {k : AfterReset V}
      {t : T} {worker : Nat} {heart : HeartbeatConfig T A}
      (hv : c.slots v = .joining t worker h k)
      (hs : HeartbeatStep c.heart (.joined t worker) heart) :
      MappingStep c (.heart (.joined t worker)) ((c.setHeart heart).setSlot v (.unmapping h k))
  | resetUnmap {c : MappingConfig T V A} {v : V} {h : ShmHandle A} {k : AfterReset V} {a : A}
      (hv : c.slots v = .unmapping h k) (hb : h.base = some a) :
      MappingStep c .quiet ((c.setMapped a false).setSlot v (.cleared k))
  | tick {c : MappingConfig T V A} {worker : Nat} {heart : HeartbeatConfig T A}
      (hs : HeartbeatStep c.heart (.ticked worker) heart) :
      MappingStep c (.heart (.ticked worker)) (c.setHeart heart)
  | halt {c : MappingConfig T V A} {worker : Nat} {heart : HeartbeatConfig T A}
      (hs : HeartbeatStep c.heart (.halted worker) heart) :
      MappingStep c (.heart (.halted worker)) (c.setHeart heart)
  | wake {c : MappingConfig T V A} {worker : Nat} {heart : HeartbeatConfig T A}
      (hs : HeartbeatStep c.heart (.woke worker) heart) :
      MappingStep c (.heart (.woke worker)) (c.setHeart heart)
  | otherMap {c : MappingConfig T V A} {a : A} (ha : c.mapped a = false) :
      MappingStep c .quiet (c.setMapped a true)
  | otherUnmap {c : MappingConfig T V A} {a : A} (ha : ∀ v, (c.slots v).base ≠ some a) :
      MappingStep c .quiet (c.setMapped a false)

/-- Places hold different mappings, all of them mapped, and the list has the headers of the listed
places, each once. -/
structure HeartSound (base listed : V → Option A) (mapped : A → Bool) (headers : List A) :
    Prop where
  mapped : ∀ v a, base v = some a → mapped a = true
  alone : ∀ v v' a, base v = some a → base v' = some a → v = v'
  held : ∀ v a, listed v = some a → base v = some a
  mem_headers : ∀ a, a ∈ headers ↔ ∃ v, listed v = some a
  nodup : headers.Nodup

/-- The places of a process are sound. -/
def MappingConfig.Sound (c : MappingConfig T V A) : Prop :=
  HeartSound (OwnerSlot.base ∘ c.slots) (OwnerSlot.listed ∘ c.slots) c.mapped c.heart.headers

section Places

variable {base listed : V → Option A} {mapped : A → Bool} {headers : List A} {v : V} {a : A}

omit [DecidableEq V] [DecidableEq A] in
theorem HeartSound.listed_eq_none (h : HeartSound base listed mapped headers)
    (hv : base v = none) : listed v = none := by
  refine Option.eq_none_iff_forall_not_mem.mpr fun a ha => ?_
  cases hv.symm.trans (h.held v a ha)

omit [DecidableEq V] [DecidableEq A] in
/-- Handles change places. -/
theorem HeartSound.permute (h : HeartSound base listed mapped headers) (σ : Equiv.Perm V) :
    HeartSound (base ∘ σ) (listed ∘ σ) mapped headers := by
  refine ⟨fun v => h.mapped (σ v), fun v v' a hv hv' => σ.injective (h.alone _ _ a hv hv'),
    fun v => h.held (σ v), fun a => ?_, h.nodup⟩
  rw [h.mem_headers, ← σ.exists_congr_right]
  rfl

omit [DecidableEq A] in
/-- A handle moves to a place that has none. -/
theorem HeartSound.move (h : HeartSound base listed mapped headers) (source : V)
    (hv : base v = none) :
    HeartSound (Function.update (Function.update base v (base source)) source none)
      (Function.update (Function.update listed v (listed source)) source none) mapped headers := by
  have hswap {f : V → Option A} (hf : f v = none) :
      Function.update (Function.update f v (f source)) source none =
        f ∘ Equiv.swap v source := by
    funext w
    rw [Function.comp_apply, Function.update_apply, Function.update_apply]
    split_ifs with hsource hw
    · rw [hsource, Equiv.swap_apply_right, hf]
    · rw [hw, Equiv.swap_apply_left]
    · rw [Equiv.swap_apply_of_ne_of_ne hw hsource]
  rw [hswap hv, hswap (h.listed_eq_none hv)]
  exact h.permute _

/-- A fresh mapping comes to a place. -/
theorem HeartSound.gain (h : HeartSound base listed mapped headers) (hv : base v = none)
    (ha : mapped a = false) :
    HeartSound (Function.update base v (some a)) listed (Function.update mapped a true)
      headers := by
  have hbase {w : V} {b : A} (hw : Function.update base v (some a) w = some b) :
      w = v ∧ b = a ∨ w ≠ v ∧ base w = some b ∧ b ≠ a := by
    rw [Function.update_apply] at hw
    split_ifs at hw with hwv
    · exact .inl ⟨hwv, (Option.some.inj hw).symm⟩
    · refine .inr ⟨hwv, hw, ?_⟩
      rintro rfl
      cases ha.symm.trans (h.mapped w b hw)
  refine ⟨fun w b hw => ?_, fun w w' b hw hw' => ?_, fun w b hw => ?_, h.mem_headers, h.nodup⟩
  · rcases hbase hw with ⟨-, rfl⟩ | ⟨-, hw, hne⟩
    · exact Function.update_self ..
    · rw [Function.update_of_ne hne]
      exact h.mapped w b hw
  · rcases hbase hw with ⟨hwv, hba⟩ | ⟨-, hw, hne⟩ <;>
      rcases hbase hw' with ⟨hwv', hba'⟩ | ⟨-, hw', hne'⟩
    · rw [hwv, hwv']
    · exact absurd hba hne'
    · exact absurd hba' hne
    · exact h.alone w w' b hw hw'
  · have hwv : w ≠ v := by
      rintro rfl
      cases (h.listed_eq_none hv).symm.trans hw
    rw [Function.update_of_ne hwv]
    exact h.held w b hw

/-- A mapping whose header is not listed goes. -/
theorem HeartSound.lose (h : HeartSound base listed mapped headers) (hv : base v = some a)
    (hl : listed v = none) :
    HeartSound (Function.update base v none) listed (Function.update mapped a false) headers := by
  have hbase {w : V} {b : A} (hw : Function.update base v none w = some b) :
      base w = some b ∧ b ≠ a := by
    rw [Function.update_apply] at hw
    split_ifs at hw with hwv
    refine ⟨hw, ?_⟩
    rintro rfl
    exact hwv (h.alone w v b hw hv)
  refine ⟨fun w b hw => ?_, fun w w' b hw hw' => ?_, fun w b hw => ?_, h.mem_headers, h.nodup⟩
  · obtain ⟨hw, hne⟩ := hbase hw
    rw [Function.update_of_ne hne]
    exact h.mapped w b hw
  · exact h.alone w w' b (hbase hw).1 (hbase hw').1
  · have hwv : w ≠ v := by
      rintro rfl
      cases hl.symm.trans hw
    rw [Function.update_of_ne hwv]
    exact h.held w b hw

/-- A header is entered into the list. -/
theorem HeartSound.enlist (h : HeartSound base listed mapped headers) (hv : base v = some a)
    (hl : listed v = none) :
    HeartSound base (Function.update listed v (some a)) mapped
      (if a ∈ headers then headers else headers ++ [a]) := by
  have hnew : a ∉ headers := by
    intro hmem
    obtain ⟨w, hw⟩ := (h.mem_headers a).mp hmem
    obtain rfl := h.alone w v a (h.held w a hw) hv
    cases hl.symm.trans hw
  rw [if_neg hnew]
  refine ⟨h.mapped, h.alone, fun w b hw => ?_, fun b => ?_, ?_⟩
  · rw [Function.update_apply] at hw
    split_ifs at hw with hwv
    · rw [hwv, hv, hw]
    · exact h.held w b hw
  · rw [List.mem_append, List.mem_singleton, h.mem_headers]
    constructor
    · rintro (⟨w, hw⟩ | rfl)
      · refine ⟨w, ?_⟩
        rw [Function.update_of_ne, hw]
        rintro rfl
        cases hl.symm.trans hw
      · exact ⟨v, Function.update_self ..⟩
    · rintro ⟨w, hw⟩
      rw [Function.update_apply] at hw
      split_ifs at hw
      · exact .inr (Option.some.inj hw).symm
      · exact .inl ⟨w, hw⟩
  · exact List.nodup_append.mpr ⟨h.nodup, List.nodup_singleton a, by
      rintro b hb c hc rfl
      exact hnew (List.mem_singleton.mp hc ▸ hb)⟩

/-- A header is taken out of the list. -/
theorem HeartSound.delist (h : HeartSound base listed mapped headers) (hl : listed v = some a) :
    HeartSound base (Function.update listed v none) mapped (headers.filter (· ≠ a)) := by
  have hlisted {w : V} {b : A} (hw : Function.update listed v none w = some b) :
      w ≠ v ∧ listed w = some b := by
    rw [Function.update_apply] at hw
    split_ifs at hw with hwv
    exact ⟨hwv, hw⟩
  refine ⟨h.mapped, h.alone, fun w b hw => h.held w b (hlisted hw).2, fun b => ?_,
    h.nodup.filter _⟩
  rw [List.mem_filter, h.mem_headers, decide_eq_true_eq]
  constructor
  · rintro ⟨⟨w, hw⟩, hne⟩
    refine ⟨w, ?_⟩
    rw [Function.update_of_ne, hw]
    rintro rfl
    exact hne (Option.some.inj (hw.symm.trans hl))
  · rintro ⟨w, hw⟩
    obtain ⟨hwv, hw⟩ := hlisted hw
    refine ⟨⟨w, hw⟩, ?_⟩
    rintro rfl
    exact hwv (h.alone w v b (h.held w b hw) (h.held v b hl))

omit [DecidableEq V] in
theorem HeartSound.mapOther (h : HeartSound base listed mapped headers) (a : A) :
    HeartSound base listed (Function.update mapped a true) headers := by
  refine ⟨fun v b hv => ?_, h.alone, h.held, h.mem_headers, h.nodup⟩
  rw [Function.update_apply]
  split_ifs
  · rfl
  · exact h.mapped v b hv

omit [DecidableEq V] in
theorem HeartSound.unmapOther (h : HeartSound base listed mapped headers)
    (ha : ∀ v, base v ≠ some a) :
    HeartSound base listed (Function.update mapped a false) headers := by
  refine ⟨fun v b hv => ?_, h.alone, h.held, h.mem_headers, h.nodup⟩
  rw [Function.update_of_ne]
  · exact h.mapped v b hv
  · rintro rfl
    exact ha v hv

end Places

/-- The header list after an event. -/
def HeartbeatEvent.listAfter (headers : List A) : HeartbeatEvent T A → List A
  | .enlisted _ a | .started _ a _ => if a ∈ headers then headers else headers ++ [a]
  | .delisted _ a | .moved _ a _ => headers.filter (· ≠ a)
  | _ => headers

theorem headers_step {heart heart' : HeartbeatConfig T A} {e : HeartbeatEvent T A}
    (hs : HeartbeatStep heart e heart') : heart'.headers = e.listAfter heart.headers := by
  cases hs with
  | moved _ _ _ hl => exact hl.symm
  | _ => rfl

section Steps

variable {c c' : MappingConfig T V A} {v : V} {s s₀ : OwnerSlot T V A} {a : A}

omit [DecidableEq T] [DecidableEq A] in
theorem comp_setSlot {f : OwnerSlot T V A → Option A} (hv : c.slots v = s₀) (h : f s = f s₀) :
    f ∘ (c.setSlot v s).slots = f ∘ c.slots := by
  rw [MappingConfig.setSlot, Function.comp_update, h, ← hv]
  exact Function.update_eq_self v (f ∘ c.slots)

namespace MappingConfig.Sound

omit [DecidableEq T] [DecidableEq A] in
/-- A place that keeps its mapping and its share of the list. -/
theorem keep (h : c.Sound) (hv : c.slots v = s₀) (hb : s.base = s₀.base)
    (hl : s.listed = s₀.listed) : (c.setSlot v s).Sound := by
  rw [Sound, comp_setSlot hv hb, comp_setSlot hv hl]
  exact h

omit [DecidableEq T] in
theorem gain (h : c.Sound) (hv : c.slots v = .absent) (ha : c.mapped a = false)
    (hb : s.base = some a) (hl : s.listed = none) : ((c.setMapped a true).setSlot v s).Sound := by
  have hlisted : OwnerSlot.listed ∘ ((c.setMapped a true).setSlot v s).slots =
      OwnerSlot.listed ∘ c.slots := comp_setSlot hv hl
  rw [Sound, hlisted, setSlot, Function.comp_update, hb]
  exact HeartSound.gain h (congrArg OwnerSlot.base hv) ha

omit [DecidableEq T] in
theorem lose (h : c.Sound) (hv : c.slots v = s₀) (hb₀ : s₀.base = some a)
    (hl₀ : s₀.listed = none) (hb : s.base = none) (hl : s.listed = none) :
    ((c.setMapped a false).setSlot v s).Sound := by
  subst hv
  have hlisted : OwnerSlot.listed ∘ ((c.setMapped a false).setSlot v s).slots =
      OwnerSlot.listed ∘ c.slots := comp_setSlot rfl (hl.trans hl₀.symm)
  rw [Sound, hlisted, setSlot, Function.comp_update, hb]
  exact HeartSound.lose h hb₀ hl₀

omit [DecidableEq T] [DecidableEq A] in
theorem move {source : V} {h' : ShmHandle A} (h : c.Sound) (hv : (c.slots v).base = none)
    (hsource : c.slots source = .holds h') :
    ((c.setSlot v (.holds h')).setSlot source (.holds {})).Sound := by
  have hmoved := HeartSound.move h source hv
  simp only [Function.comp_apply, hsource] at hmoved
  rw [Sound]
  simp only [setSlot, Function.comp_update]
  exact hmoved

omit [DecidableEq T] in
theorem enlist {heart : HeartbeatConfig T A} (h : c.Sound) (hv : c.slots v = s₀)
    (hb₀ : s₀.base = some a) (hl₀ : s₀.listed = none)
    (hheaders : heart.headers =
      if a ∈ c.heart.headers then c.heart.headers else c.heart.headers ++ [a])
    (hb : s.base = some a) (hl : s.listed = some a) : ((c.setHeart heart).setSlot v s).Sound := by
  subst hv
  have hbase : OwnerSlot.base ∘ ((c.setHeart heart).setSlot v s).slots =
      OwnerSlot.base ∘ c.slots := comp_setSlot rfl (hb.trans hb₀.symm)
  rw [Sound, hbase, setSlot, Function.comp_update, hl]
  simp only [setHeart, hheaders]
  exact HeartSound.enlist h hb₀ hl₀

omit [DecidableEq T] in
theorem delist {heart : HeartbeatConfig T A} (h : c.Sound) (hv : c.slots v = s₀)
    (hl₀ : s₀.listed = some a) (hheaders : heart.headers = c.heart.headers.filter (· ≠ a))
    (hb : s.base = s₀.base) (hl : s.listed = none) : ((c.setHeart heart).setSlot v s).Sound := by
  subst hv
  have hbase : OwnerSlot.base ∘ ((c.setHeart heart).setSlot v s).slots =
      OwnerSlot.base ∘ c.slots := comp_setSlot rfl hb
  rw [Sound, hbase, setSlot, Function.comp_update, hl]
  simp only [setHeart, hheaders]
  exact HeartSound.delist h hl₀

omit [DecidableEq T] [DecidableEq V] [DecidableEq A] in
theorem withHeart {heart : HeartbeatConfig T A} (h : c.Sound)
    (hheaders : heart.headers = c.heart.headers) : (c.setHeart heart).Sound := by
  rw [Sound, setHeart, hheaders]
  exact h

end MappingConfig.Sound

theorem sound_step {e : MappingEvent T A} (h : c.Sound) (hs : MappingStep c e c') : c'.Sound := by
  cases hs with
  | createMap hv ha => exact h.gain hv ha rfl rfl
  | attach hv ha => exact h.gain hv ha rfl rfl
  | createFail hv => exact h.lose hv rfl rfl rfl rfl
  | createBeat hv hs => exact (h.withHeart (headers_step hs)).keep hv rfl rfl
  | createEnlist hv hs => exact h.enlist hv rfl rfl (headers_step hs) rfl rfl
  | createStart hv hs => exact h.enlist hv rfl rfl (headers_step hs) rfl rfl
  | createReturn hv | createRefused hv | construct hv | assign _ hv | destruct hv
  | destructed hv => exact h.keep hv rfl rfl
  | moveConstruct hv hsource | assignTake hv hsource =>
    exact h.move (congrArg OwnerSlot.base hv) hsource
  | assignSelf => exact h
  | resetEmpty hv hb =>
    refine h.keep hv hb.symm ?_
    simp only [OwnerSlot.listed, hb, ite_self]
  | resetAttached hv _ ho =>
    refine h.keep hv rfl ?_
    simp only [OwnerSlot.listed, ho, Bool.false_eq_true, if_false]
  | resetDelist hv hb ho hs | resetStop hv hb ho hs =>
    refine h.delist hv ?_ (headers_step hs) rfl rfl
    simp only [OwnerSlot.listed, ho, hb, if_true]
  | resetJoin hv hs => exact (h.withHeart (headers_step hs)).keep hv rfl rfl
  | resetUnmap hv hb => exact h.lose hv hb rfl rfl rfl
  | tick hs | halt hs | wake hs => exact h.withHeart (headers_step hs)
  | otherMap => exact HeartSound.mapOther h _
  | otherUnmap ha => exact HeartSound.unmapOther h ha

omit [DecidableEq T] [DecidableEq V] [DecidableEq A] in
theorem sound_initial (beats : A → Beat) :
    (MappingConfig.initial beats : MappingConfig T V A).Sound :=
  ⟨nofun, nofun, nofun, fun _ => ⟨fun h => absurd h List.not_mem_nil, fun ⟨_, h⟩ => nomatch h⟩,
    List.nodup_nil⟩

theorem sound_run {beats : A → Beat} {log : List (MappingEvent T A)}
    (h : Run MappingStep (.initial beats) log c) : c.Sound :=
  Run.invariant (I := fun _ c => c.Sound) (sound_initial beats)
    (fun _ _ _ _ _ h hs => sound_step h hs) h

omit [DecidableEq V] [DecidableEq T] in
/-- A tick beats every header of a list without duplicates once, and no other. -/
theorem heartbeatTickLocked_apply (now : Nat) (headers : List A) (beats : A → Beat)
    (hn : headers.Nodup) (a : A) :
    heartbeatTickLocked headers now beats a =
      if a ∈ headers then ⟨u64 ((beats a).counter + 1), now⟩ else beats a := by
  induction headers generalizing beats with
  | nil => rfl
  | cons first headers ih =>
    obtain ⟨hfirst, hn⟩ := List.nodup_cons.mp hn
    rw [heartbeatTickLocked, List.foldl_cons]
    refine (ih (beatHeader now beats first) hn).trans ?_
    by_cases ha : a = first
    · subst ha
      rw [if_neg hfirst, if_pos List.mem_cons_self]
      exact Function.update_self ..
    · have hkept : beatHeader now beats first a = beats a := Function.update_of_ne ha _ _
      simp [hkept, ha]

omit [DecidableEq V] in
/-- What a step of the heartbeat stores in headers. -/
theorem beats_step {heart heart' : HeartbeatConfig T A} {e : HeartbeatEvent T A}
    (hs : HeartbeatStep heart e heart') (hn : heart.headers.Nodup)
    (ha : heart'.beats a ≠ heart.beats a) : a ∈ heart.headers ∨ ∃ t, e = .beat t a := by
  cases hs with
  | ticked now =>
    by_contra hother
    refine ha ((heartbeatTickLocked_apply now _ _ hn a).trans ?_)
    rw [if_neg (not_or.mp hother).1]
  | beat t header =>
    refine .inr ⟨t, ?_⟩
    by_contra hother
    refine ha (Function.update_of_ne ?_ _ _)
    rintro rfl
    exact hother rfl
  | _ => exact absurd rfl ha

/-- The header list has no duplicates, and holds the headers of exactly the listed owners; they are
mapped; a tick beats each of them once; and no step of the heartbeat stores in another header than
a mapped one. -/
theorem heartbeat_mapped {beats : A → Beat} {log : List (MappingEvent T A)}
    (h : Run MappingStep (.initial beats) log c) :
    c.heart.headers.Nodup ∧
    (∀ a, a ∈ c.heart.headers ↔ ∃ v, (c.slots v).listed = some a) ∧
    (∀ a ∈ c.heart.headers, c.mapped a = true) ∧
    (∀ worker c', MappingStep c (.heart (.ticked worker)) c' → ∃ now, ∀ a, c'.heart.beats a =
      if a ∈ c.heart.headers then ⟨u64 ((c.heart.beats a).counter + 1), now⟩
      else c.heart.beats a) ∧
    ∀ e c', MappingStep c e c' → ∀ a, c'.heart.beats a ≠ c.heart.beats a → c.mapped a = true := by
  have hsound := sound_run h
  have hmapped (a : A) (ha : a ∈ c.heart.headers) : c.mapped a = true := by
    obtain ⟨v, hv⟩ := (hsound.mem_headers a).mp ha
    exact hsound.mapped v a (hsound.held v a hv)
  refine ⟨hsound.nodup, hsound.mem_headers, hmapped, fun worker c' hs => ?_,
    fun e c' hs a ha => ?_⟩
  · cases hs with
    | tick hs =>
      cases hs with
      | ticked now => exact ⟨now, heartbeatTickLocked_apply now _ _ hsound.nodup⟩
  · cases hs with
    | createBeat hv hs =>
      rcases beats_step hs hsound.nodup ha with hmem | ⟨t, he⟩
      · exact hmapped a hmem
      · cases he
        exact hsound.mapped _ _ (congrArg OwnerSlot.base hv)
    | createEnlist _ hs | createStart _ hs | resetDelist _ _ _ hs | resetStop _ _ _ hs
    | resetJoin _ hs | tick hs | halt hs | wake hs =>
      rcases beats_step hs hsound.nodup ha with hmem | ⟨t, he⟩
      · exact hmapped a hmem
      · cases he
    | _ => exact absurd rfl ha

end Steps

/-- One segment created, and its handle moved. -/
theorem heartbeat_mapped_one_owner : ∃ log c,
    Run MappingStep (.initial fun _ => ⟨0, 0⟩ : MappingConfig Unit Bool Unit) log c ∧
      c.heart.headers = [()] ∧ c.slots true = .holds (RawMapping.mk () 4096 3).owned ∧
      c.mapped () = true := by
  let r : RawMapping Unit := ⟨(), 4096, 3⟩
  let c₀ : MappingConfig Unit Bool Unit := .initial fun _ => ⟨0, 0⟩
  let c₁ := (c₀.setMapped () true).setSlot false (.writing r)
  let heart₂ :=
    { c₁.heart with beats := beatHeader 1 c₁.heart.beats () }.setCaller () (.enlisting ())
  let c₂ := (c₁.setHeart heart₂).setSlot false (.enlisting () r)
  let heart₃ := (heart₂.enlist ()).spawn.setCaller () .idle
  let c₃ := (c₂.setHeart heart₃).setSlot false (.registering r)
  let c₄ := c₃.setSlot false (.holds r.owned)
  let c₅ := (c₄.setSlot true (.holds r.owned)).setSlot false (.holds {})
  have h₁ : MappingStep c₀ .quiet c₁ := .createMap rfl rfl
  have h₂ : MappingStep c₁ (.heart (.beat () ())) c₂ := .createBeat rfl (.beat () () 1 rfl)
  have h₃ : MappingStep c₂ (.heart (.started () () 0)) c₃ := .createStart rfl (.started rfl rfl)
  have h₄ : MappingStep c₃ .quiet c₄ := .createReturn rfl
  have h₅ : MappingStep c₄ .quiet c₅ := .moveConstruct rfl rfl
  have hrun := ((((Run.single h₁).snoc h₂).snoc h₃).snoc h₄).snoc h₅
  have hheaders : c₅.heart.headers = [()] := rfl
  refine ⟨_, c₅, hrun, hheaders, rfl, (heartbeat_mapped hrun).2.2.1 () ?_⟩
  rw [hheaders]
  exact List.mem_singleton_self ()

end Shmfx
