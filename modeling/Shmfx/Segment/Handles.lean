import Shmfx.Lib.Lts
import Shmfx.Lib.Tally
import Shmfx.Types

/-! `ShmHandle` objects and `ShmManager::attach` calls of any number of processes, with the
reference counts of the segments they map. -/
namespace Shmfx

open Lts Tally

universe u v w

/-- A `ShmHandle`. The `ticket`, which moves along with the mapping, tells the handles that were
handed out apart. -/
structure ShmHandle (O : Type u) where
  base : Option O := none
  size : Nat := 0
  fd : Int := -1
  mode : AttachMode := .readOnly
  owner : Bool := false
  ticket : Nat := 0
  deriving DecidableEq

/-- Who called `reset`: the destructor, or a move assignment from another object. -/
inductive AfterReset (V : Type v)
  | destroyed
  | assigned (source : V)

/-- A place where a `ShmHandle` object may live, and how far a `reset` of it has come. -/
inductive HandleSlot (O : Type u) (V : Type v)
  | absent
  | holds (h : ShmHandle O)
  | resetting (h : ShmHandle O) (k : AfterReset V)
  | subtracted (h : ShmHandle O) (last : Bool) (k : AfterReset V)
  | condemned (h : ShmHandle O) (k : AfterReset V)
  | cleared (k : AfterReset V)

/-- Where an `attach` call stands. -/
inductive AttachCall (O : Type u)
  | idle
  | opened (o : O) (mode : AttachMode)
  | checked (o : O) (mode : AttachMode)
  | bumped (o : O)
  | rollingBack (o : O)

/-- The header words that handles share. -/
structure SegmentWords where
  state : SegmentState
  refCount : UInt32
  deriving DecidableEq

/-- The segments whose `create` has returned, with every handle and every call. -/
structure HandleConfig (O : Type u) (V : Type v) (T : Type w) where
  objects : O → Option SegmentWords
  slots : V → HandleSlot O V
  attaches : T → AttachCall O
  nextTicket : Nat

inductive HandleEvent (O : Type u) (V : Type v) (T : Type w)
  | created (v : V) (o : O) (n : Nat)
  | environment (o : O)
  | attach (t : T)
  | failed (t : T)
  | bumped (t : T) (o : O)
  | rolledBack (t : T) (o : O)
  | returnedReadOnly (t : T) (v : V)
  | returned (t : T) (v : V) (o : O) (n : Nat)
  | quiet (v : V)
  | moved (target source : V)
  | dropped (v : V) (o : O) (n : Nat)

variable {O : Type u} {V : Type v} {T : Type w}

/-- The object and ticket of a handle whose increment is in place. -/
def ShmHandle.counted (h : ShmHandle O) : Option (O × Nat) :=
  match h.mode with
  | .readWrite => h.base.map fun o => (o, h.ticket)
  | .readOnly => none

/-- A handle counts until the `fetch_sub` of its `reset`. -/
def HandleSlot.counted : HandleSlot O V → Option (O × Nat)
  | .holds h | .resetting h _ => h.counted
  | .absent | .subtracted .. | .condemned .. | .cleared _ => none

/-- The read-write handle an event hands out. -/
def HandleEvent.issue : HandleEvent O V T → Option (O × Nat)
  | .created _ o n | .returned _ _ o n => some (o, n)
  | _ => none

/-- The handle whose `reset` decrements the count at an event. -/
def HandleEvent.drop : HandleEvent O V T → Option (O × Nat)
  | .dropped _ o n => some (o, n)
  | _ => none

def issued (as : List (HandleEvent O V T)) : List (O × Nat) :=
  as.filterMap HandleEvent.issue

def dropped (as : List (HandleEvent O V T)) : List (O × Nat) :=
  as.filterMap HandleEvent.drop

/-- An access of a read-write attach or handle to the count of `o`. -/
def ByReadWrite (c : HandleConfig O V T) (o : O) : HandleEvent O V T → Prop
  | .bumped t o' => o' = o ∧ c.attaches t = .checked o .readWrite
  | .rolledBack t o' => o' = o ∧ c.attaches t = .rollingBack o
  | .dropped v o' n => o' = o ∧ (c.slots v).counted = some (o, n)
  | _ => False

def HandleConfig.initial : HandleConfig O V T :=
  ⟨fun _ => none, fun _ => .absent, fun _ => .idle, 0⟩

/-- `reset` after its load of the state: the creator's handle, if it was the last one on a
draining segment other than the registry, goes on to store DEAD. -/
def afterState (h : ShmHandle O) (registry last : Bool) (state : SegmentState)
    (k : AfterReset V) : HandleSlot O V :=
  if h.owner && !registry && last && state == SegmentState.draining then .condemned h k
  else .cleared k

theorem counted_of_readWrite {h : ShmHandle O} {o : O} (hb : h.base = some o)
    (hm : h.mode = .readWrite) : h.counted = some (o, h.ticket) := by
  rw [ShmHandle.counted, hm, hb]
  rfl

theorem counted_of_empty {h : ShmHandle O} (hb : h.base = none) : h.counted = none := by
  rw [ShmHandle.counted, hb]
  split <;> rfl

theorem counted_of_readOnly {h : ShmHandle O} (hm : h.mode = .readOnly) : h.counted = none := by
  rw [ShmHandle.counted, hm]

theorem counted_afterState (h : ShmHandle O) (r last : Bool) (state : SegmentState)
    (k : AfterReset V) : (afterState h r last state k).counted = none := by
  unfold afterState
  split <;> rfl

section Slots

variable [DecidableEq V] {q : Option (O × Nat) → Bool} {k : Nat}

theorem counts_place {f : V → HandleSlot O V} {v : V} {s : HandleSlot O V}
    {x y : Option (O × Nat)} (hx : (f v).counted = x) (hy : s.counted = y)
    (hk : Counts (fun s => q s.counted = true) f k) :
    ∃ k', Counts (fun s => q s.counted = true) (Function.update f v s) k' ∧
      k' + (q x).toNat = k + (q y).toNat := by
  subst hx hy
  exact hk.set (b := fun s : HandleSlot O V => q s.counted) v s

/-- A handle that leaves one place for another counts in the other. -/
theorem counts_move {f : V → HandleSlot O V} {v source : V} {h : ShmHandle O}
    (hv : (f v).counted = none) (hs : f source = .holds h)
    (hk : Counts (fun s => q s.counted = true) f k) :
    Counts (fun s : HandleSlot O V => q s.counted = true)
      (Function.update (Function.update f v (.holds h)) source (.holds {})) k := by
  obtain ⟨k₁, hk₁, h₁⟩ := counts_place (s := .holds h) (y := h.counted) hv rfl hk
  have hsource : (Function.update f v (.holds h) source).counted = h.counted := by
    by_cases hne : source = v
    · rw [hne, Function.update_self]
      rfl
    · rw [Function.update_of_ne hne, hs]
      rfl
  obtain ⟨k₂, hk₂, h₂⟩ := counts_place (s := .holds {}) (y := none) hsource rfl hk₁
  obtain rfl : k₂ = k := by
    omega
  exact hk₂

end Slots

section Live

variable [DecidableEq O]

def onObject (o : O) (x : Option (O × Nat)) : Bool :=
  x.any fun y => y.1 == o

def HandleSlot.liveOn (o : O) (s : HandleSlot O V) : Bool :=
  onObject o s.counted

def HandleSlot.carries (o : O) (n : Nat) (s : HandleSlot O V) : Bool :=
  s.counted == some (o, n)

/-- Between the increment of an attach and its return or roll-back. -/
def AttachCall.inFlight (o : O) : AttachCall O → Bool
  | .bumped o' | .rollingBack o' => o' == o
  | .idle | .opened .. | .checked .. => false

/-- The count of `o` is set to one or incremented. -/
def HandleEvent.raises (o : O) : HandleEvent O V T → Bool
  | .created _ o' _ | .bumped _ o' => o' == o
  | _ => false

/-- The count of `o` is decremented. -/
def HandleEvent.lowers (o : O) : HandleEvent O V T → Bool
  | .rolledBack _ o' | .dropped _ o' _ => o' == o
  | _ => false

def HandleConfig.setWords (c : HandleConfig O V T) (o : O) (words : SegmentWords) :
    HandleConfig O V T :=
  { c with objects := Function.update c.objects o (some words) }

end Live

def HandleConfig.setSlot [DecidableEq V] (c : HandleConfig O V T) (v : V) (s : HandleSlot O V) :
    HandleConfig O V T :=
  { c with slots := Function.update c.slots v s }

def HandleConfig.setAttach [DecidableEq T] (c : HandleConfig O V T) (t : T) (pc : AttachCall O) :
    HandleConfig O V T :=
  { c with attaches := Function.update c.attaches t pc }

/-- `create` and `attach` hand a read-write handle out. -/
def HandleConfig.hand [DecidableEq V] (c : HandleConfig O V T) (v : V) (o : O) (size : Nat)
    (fd : Int) (owner : Bool) : HandleConfig O V T :=
  { c.setSlot v (.holds ⟨some o, size, fd, .readWrite, owner, c.nextTicket⟩) with
    nextTicket := c.nextTicket + 1 }

variable [DecidableEq O] [DecidableEq V] [DecidableEq T]

/-- One shared access, or the local code of one member function. What the checks of an attach up
to its first load of the state say, and what others store as the state, is up to the
environment. -/
inductive HandleStep (registry : O → Bool) :
    HandleConfig O V T → HandleEvent O V T → HandleConfig O V T → Prop
  | create {c : HandleConfig O V T} {v : V} {o : O} (state : SegmentState) (size : Nat) (fd : Int)
      (ho : c.objects o = none) (hv : c.slots v = .absent) :
      HandleStep registry c (.created v o c.nextTicket)
        ((c.setWords o ⟨state, 1⟩).hand v o size fd true)
  | setState {c : HandleConfig O V T} {o : O} {words : SegmentWords} (state : SegmentState)
      (ho : c.objects o = some words) :
      HandleStep registry c (.environment o) (c.setWords o { words with state })
  | attachRefused {c : HandleConfig O V T} {t : T} (h : c.attaches t = .idle) :
      HandleStep registry c (.failed t) c
  | attachOpen {c : HandleConfig O V T} {t : T} {o : O} {words : SegmentWords} (mode : AttachMode)
      (h : c.attaches t = .idle) (ho : c.objects o = some words) :
      HandleStep registry c (.attach t) (c.setAttach t (.opened o mode))
  | attachInvalid {c : HandleConfig O V T} {t : T} {o : O} {mode : AttachMode}
      (h : c.attaches t = .opened o mode) :
      HandleStep registry c (.failed t) (c.setAttach t .idle)
  | attachDead {c : HandleConfig O V T} {t : T} {o : O} {mode : AttachMode} {words : SegmentWords}
      (h : c.attaches t = .opened o mode) (ho : c.objects o = some words)
      (hs : words.state = .dead) : HandleStep registry c (.failed t) (c.setAttach t .idle)
  | attachCheck {c : HandleConfig O V T} {t : T} {o : O} {mode : AttachMode} {words : SegmentWords}
      (h : c.attaches t = .opened o mode) (ho : c.objects o = some words)
      (hs : words.state ≠ .dead) :
      HandleStep registry c (.attach t) (c.setAttach t (.checked o mode))
  | attachReadOnly {c : HandleConfig O V T} {t : T} {v : V} {o : O} (size : Nat) (fd : Int)
      (h : c.attaches t = .checked o .readOnly) (hv : c.slots v = .absent) :
      HandleStep registry c (.returnedReadOnly t v)
        ((c.setAttach t .idle).setSlot v (.holds ⟨some o, size, fd, .readOnly, false, 0⟩))
  | attachBump {c : HandleConfig O V T} {t : T} {o : O} {words : SegmentWords}
      (h : c.attaches t = .checked o .readWrite) (ho : c.objects o = some words) :
      HandleStep registry c (.bumped t o)
        ((c.setWords o { words with refCount := words.refCount + 1 }).setAttach t (.bumped o))
  | attachReturn {c : HandleConfig O V T} {t : T} {v : V} {o : O} {words : SegmentWords}
      (size : Nat) (fd : Int) (h : c.attaches t = .bumped o) (ho : c.objects o = some words)
      (hs : words.state ≠ .dead) (hv : c.slots v = .absent) :
      HandleStep registry c (.returned t v o c.nextTicket)
        ((c.setAttach t .idle).hand v o size fd false)
  | attachRecheckDead {c : HandleConfig O V T} {t : T} {o : O} {words : SegmentWords}
      (h : c.attaches t = .bumped o) (ho : c.objects o = some words) (hs : words.state = .dead) :
      HandleStep registry c (.attach t) (c.setAttach t (.rollingBack o))
  | attachRollBack {c : HandleConfig O V T} {t : T} {o : O} {words : SegmentWords}
      (h : c.attaches t = .rollingBack o) (ho : c.objects o = some words) :
      HandleStep registry c (.rolledBack t o)
        ((c.setWords o { words with refCount := words.refCount - 1 }).setAttach t .idle)
  | construct {c : HandleConfig O V T} {v : V} (hv : c.slots v = .absent) :
      HandleStep registry c (.quiet v) (c.setSlot v (.holds {}))
  | moveConstruct {c : HandleConfig O V T} {v source : V} {h : ShmHandle O}
      (hv : c.slots v = .absent) (hsource : c.slots source = .holds h) :
      HandleStep registry c (.moved v source) ((c.setSlot v (.holds h)).setSlot source (.holds {}))
  | assignSelf {c : HandleConfig O V T} {v : V} {h : ShmHandle O} (hv : c.slots v = .holds h) :
      HandleStep registry c (.moved v v) c
  | assign {c : HandleConfig O V T} {v source : V} {h h' : ShmHandle O} (hne : v ≠ source)
      (hv : c.slots v = .holds h) (hsource : c.slots source = .holds h') :
      HandleStep registry c (.quiet v) (c.setSlot v (.resetting h (.assigned source)))
  | assignTake {c : HandleConfig O V T} {v source : V} {h : ShmHandle O}
      (hv : c.slots v = .cleared (.assigned source)) (hsource : c.slots source = .holds h) :
      HandleStep registry c (.moved v source) ((c.setSlot v (.holds h)).setSlot source (.holds {}))
  | destruct {c : HandleConfig O V T} {v : V} {h : ShmHandle O} (hv : c.slots v = .holds h) :
      HandleStep registry c (.quiet v) (c.setSlot v (.resetting h .destroyed))
  | destructed {c : HandleConfig O V T} {v : V} (hv : c.slots v = .cleared .destroyed) :
      HandleStep registry c (.quiet v) (c.setSlot v .absent)
  | resetEmpty {c : HandleConfig O V T} {v : V} {h : ShmHandle O} {k : AfterReset V}
      (hv : c.slots v = .resetting h k) (hb : h.base = none) :
      HandleStep registry c (.quiet v) (c.setSlot v (.cleared k))
  | resetReadOnly {c : HandleConfig O V T} {v : V} {h : ShmHandle O} {k : AfterReset V}
      (hv : c.slots v = .resetting h k) (hm : h.mode = .readOnly) :
      HandleStep registry c (.quiet v) (c.setSlot v (.cleared k))
  | resetSub {c : HandleConfig O V T} {v : V} {o : O} {h : ShmHandle O} {k : AfterReset V}
      {words : SegmentWords} (hv : c.slots v = .resetting h k) (hb : h.base = some o)
      (hm : h.mode = .readWrite) (ho : c.objects o = some words) :
      HandleStep registry c (.dropped v o h.ticket)
        ((c.setWords o { words with refCount := words.refCount - 1 }).setSlot v
          (.subtracted h (words.refCount == 1) k))
  | resetState {c : HandleConfig O V T} {v : V} {o : O} {h : ShmHandle O} {last : Bool}
      {k : AfterReset V} {words : SegmentWords} (hv : c.slots v = .subtracted h last k)
      (hb : h.base = some o) (ho : c.objects o = some words) :
      HandleStep registry c (.quiet v)
        (c.setSlot v (afterState h (registry o) last words.state k))
  | resetStoreDead {c : HandleConfig O V T} {v : V} {o : O} {h : ShmHandle O} {k : AfterReset V}
      {words : SegmentWords} (hv : c.slots v = .condemned h k) (hb : h.base = some o)
      (ho : c.objects o = some words) :
      HandleStep registry c (.quiet v)
        ((c.setWords o { words with state := .dead }).setSlot v (.cleared k))

section Proofs

variable {registry : O → Bool} {c d : HandleConfig O V T} {e : HandleEvent O V T}
  {as : List (HandleEvent O V T)} {o : O} {k : Nat}

/-- How the handles of any kind follow the events. -/
theorem counts_step {q : Option (O × Nat) → Bool} (hs : HandleStep registry c e d)
    (hk : Counts (fun s => q s.counted = true) c.slots k) :
    ∃ k', Counts (fun s => q s.counted = true) d.slots k' ∧
      k' + (q e.drop).toNat = k + (q e.issue).toNat := by
  cases hs with
  | setState | attachRefused | attachOpen | attachInvalid | attachDead | attachCheck | attachBump
  | attachRecheckDead | attachRollBack | assignSelf => exact ⟨k, hk, rfl⟩
  | create _ _ _ _ hv | attachReturn _ _ _ _ _ hv | attachReadOnly _ _ _ hv | construct hv
  | destructed hv | resetStoreDead hv => exact counts_place (congrArg _ hv) rfl hk
  | assign _ hv | destruct hv => exact ⟨k, hk.keep (by rw [hv]; exact Iff.rfl), rfl⟩
  | resetEmpty hv hb =>
    exact counts_place ((congrArg _ hv).trans (counted_of_empty hb)) rfl hk
  | resetReadOnly hv hm =>
    exact counts_place ((congrArg _ hv).trans (counted_of_readOnly hm)) rfl hk
  | resetSub hv hb hm =>
    exact counts_place ((congrArg _ hv).trans (counted_of_readWrite hb hm)) rfl hk
  | resetState hv => exact counts_place (congrArg _ hv) (counted_afterState ..) hk
  | moveConstruct hv hsource | assignTake hv hsource =>
    exact ⟨k, counts_move (congrArg _ hv) hsource hk, rfl⟩

/-- An attach is in flight from its bump to its return or roll-back. -/
def HandleEvent.takesOff (o : O) : HandleEvent O V T → Bool
  | .bumped _ o' => o' == o
  | _ => false

def HandleEvent.lands (o : O) : HandleEvent O V T → Bool
  | .rolledBack _ o' | .returned _ _ o' _ => o' == o
  | _ => false

theorem inFlight_step (hs : HandleStep registry c e d)
    (hk : Counts (fun pc => AttachCall.inFlight o pc = true) c.attaches k) :
    ∃ k', Counts (fun pc => AttachCall.inFlight o pc = true) d.attaches k' ∧
      k' + (e.lands o).toNat = k + (e.takesOff o).toNat := by
  have hset {t : T} {pc : AttachCall O} {x y : Bool} (hx : (c.attaches t).inFlight o = x)
      (hy : pc.inFlight o = y) :
      ∃ k', Counts (fun pc => AttachCall.inFlight o pc = true)
        (Function.update c.attaches t pc) k' ∧ k' + x.toNat = k + y.toNat := by
    subst hx hy
    exact hk.set t pc
  cases hs with
  | attachOpen _ ht | attachInvalid ht | attachDead ht | attachCheck ht | attachReadOnly _ _ ht
  | attachBump ht | attachReturn _ _ ht | attachRollBack ht =>
    exact hset (congrArg _ ht) rfl
  | attachRecheckDead ht => exact ⟨k, hk.keep (by rw [ht]; exact Iff.rfl), rfl⟩
  | _ => exact ⟨k, hk, rfl⟩

/-- A count modulo the width of the word; an object that is not there has none. -/
def Agrees : Option SegmentWords → Nat → Prop
  | none, n => n = 0
  | some words, n => words.refCount = UInt32.ofNat n

def RefCounted (c : HandleConfig O V T) : Prop :=
  ∀ o, ∃ handles attaching, Counts (fun s => HandleSlot.liveOn o s = true) c.slots handles ∧
    Counts (fun pc => AttachCall.inFlight o pc = true) c.attaches attaching ∧
    Agrees (c.objects o) (handles + attaching)

omit [DecidableEq V] [DecidableEq T] in
theorem objects_setWords (c : HandleConfig O V T) (o' : O) (words : SegmentWords) :
    (c.setWords o' words).objects o = if o' = o then some words else c.objects o := by
  by_cases ho : o' = o
  · subst ho
    simp [HandleConfig.setWords]
  · simp [HandleConfig.setWords, ho, Ne.symm ho]

omit [DecidableEq V] [DecidableEq T] in
theorem agrees_setWords {o' : O} {words : SegmentWords} {n m : Nat} (h : Agrees (c.objects o) n)
    (hm : o' ≠ o → m = n) (hw : o' = o → words.refCount = UInt32.ofNat m) :
    Agrees ((c.setWords o' words).objects o) m := by
  rw [objects_setWords]
  split
  case isTrue ho => exact hw ho
  case isFalse ho => exact hm ho ▸ h

theorem ofNat_sub_one (n : Nat) : UInt32.ofNat (n + 1) - 1 = UInt32.ofNat n := by
  rw [UInt32.ofNat_add]
  exact UInt32.add_sub_cancel _ _

/-- Only a bump, a roll-back, a drop and the end of `create` touch a count. -/
theorem agrees_step {n m : Nat} (hs : HandleStep registry c e d) (h : Agrees (c.objects o) n)
    (hm : m + (e.lowers o).toNat = n + (e.raises o).toNat) : Agrees (d.objects o) m := by
  cases hs with
  | create _ _ _ ho =>
    refine agrees_setWords h (fun hne => ?_) ?_
    · simpa [HandleEvent.lowers, HandleEvent.raises, beq_false_of_ne hne] using hm
    · rintro rfl
      rw [ho] at h
      obtain rfl : n = 0 := h
      obtain rfl : m = 1 := by simpa [HandleEvent.lowers, HandleEvent.raises] using hm
      rfl
  | setState _ ho | resetStoreDead _ _ ho =>
    obtain rfl : m = n := hm
    refine agrees_setWords h (fun _ => rfl) ?_
    rintro rfl
    rwa [ho] at h
  | attachBump ht ho =>
    refine agrees_setWords h (fun hne => ?_) ?_
    · simpa [HandleEvent.lowers, HandleEvent.raises, beq_false_of_ne hne] using hm
    · rintro rfl
      rw [ho] at h
      obtain rfl : m = n + 1 := by simpa [HandleEvent.lowers, HandleEvent.raises] using hm
      rw [UInt32.ofNat_add, ← h]
      rfl
  | attachRollBack _ ho | resetSub _ _ _ ho =>
    refine agrees_setWords h (fun hne => ?_) ?_
    · simpa [HandleEvent.lowers, HandleEvent.raises, beq_false_of_ne hne] using hm
    · rintro rfl
      rw [ho] at h
      obtain rfl : n = m + 1 := by simpa [HandleEvent.lowers, HandleEvent.raises] using hm.symm
      rw [← ofNat_sub_one, ← h]
  | _ =>
    obtain rfl : m = n := hm
    exact h

/-- Handles and attaches in flight together follow the count. -/
theorem total_step {a : Nat} (hs : HandleStep registry c e d)
    (hk : Counts (fun s => HandleSlot.liveOn o s = true) c.slots k)
    (ha : Counts (fun pc => AttachCall.inFlight o pc = true) c.attaches a) :
    ∃ k' a', Counts (fun s => HandleSlot.liveOn o s = true) d.slots k' ∧
      Counts (fun pc => AttachCall.inFlight o pc = true) d.attaches a' ∧
      k' + a' + (e.lowers o).toNat = k + a + (e.raises o).toNat := by
  obtain ⟨k', hk', hkk⟩ := counts_step (q := onObject o) hs hk
  obtain ⟨a', ha', haa⟩ := inFlight_step hs ha
  have hflow : (e.lowers o).toNat + (onObject o e.issue).toNat + (e.takesOff o).toNat =
      (e.raises o).toNat + (onObject o e.drop).toNat + (e.lands o).toNat := by
    cases e <;> simp [HandleEvent.lowers, HandleEvent.raises, HandleEvent.issue, HandleEvent.drop,
      HandleEvent.takesOff, HandleEvent.lands, onObject]
  exact ⟨k', a', hk', ha', by omega⟩

theorem refCounted_step (hs : HandleStep registry c e d) (h : RefCounted c) : RefCounted d := by
  intro o
  obtain ⟨k, a, hk, ha, hn⟩ := h o
  obtain ⟨k', a', hk', ha', hm⟩ := total_step hs hk ha
  exact ⟨k', a', hk', ha', agrees_step hs hn hm⟩

omit [DecidableEq V] [DecidableEq T] in
theorem refCounted_initial : RefCounted (.initial : HandleConfig O V T) :=
  fun _ => ⟨0, 0, counts_zero nofun, counts_zero nofun, rfl⟩

theorem refCounted_run (hr : Run (HandleStep registry) .initial as c) : RefCounted c := by
  induction hr with
  | nil => exact refCounted_initial
  | snoc _ hs ih => exact refCounted_step hs ih

/-- A step that is no access of a read-write attach or handle leaves the count alone. -/
theorem count_step {words : SegmentWords} (hs : HandleStep registry c e d)
    (ho : c.objects o = some words) (hb : ¬ ByReadWrite c o e) :
    ∃ words', d.objects o = some words' ∧ words'.refCount = words.refCount := by
  have hset {o' : O} {w w' : SegmentWords} (ho' : c.objects o' = some w')
      (hw : o' = o → w.refCount = w'.refCount) :
      ∃ words', (c.setWords o' w).objects o = some words' ∧ words'.refCount = words.refCount := by
    rw [objects_setWords]
    split
    case isTrue h =>
      subst h
      obtain rfl : words = w' := Option.some.inj (ho.symm.trans ho')
      exact ⟨w, rfl, hw rfl⟩
    case isFalse => exact ⟨words, ho, rfl⟩
  cases hs with
  | create _ _ _ ho' =>
    refine ⟨words, (objects_setWords ..).trans ?_, rfl⟩
    rw [if_neg ?_, ho]
    rintro rfl
    cases ho.symm.trans ho'
  | setState _ ho' | resetStoreDead _ _ ho' => exact hset ho' fun _ => rfl
  | attachBump ht ho' => exact hset ho' fun h => absurd ⟨h, h ▸ ht⟩ hb
  | attachRollBack ht ho' => exact hset ho' fun h => absurd ⟨h, h ▸ ht⟩ hb
  | @resetSub v o' h _ _ hv hbase hm ho' =>
    have hcounted : (c.slots v).counted = some (o', h.ticket) :=
      (congrArg _ hv).trans (counted_of_readWrite hbase hm)
    exact hset ho' fun h => absurd ⟨h, h ▸ hcounted⟩ hb
  | _ => exact ⟨words, ho, rfl⟩

theorem issue_step (hs : HandleStep registry c e d) :
    e.issue = none ∧ d.nextTicket = c.nextTicket ∨
      ∃ o, e.issue = some (o, c.nextTicket) ∧ d.nextTicket = c.nextTicket + 1 := by
  cases hs with
  | create | attachReturn => exact .inr ⟨_, rfl, rfl⟩
  | _ => exact .inl ⟨rfl, rfl⟩

/-- No ticket is handed out twice. -/
theorem issued_run (hr : Run (HandleStep registry) .initial as c) :
    (issued as).Nodup ∧ ∀ x ∈ issued as, x.2 < c.nextTicket := by
  induction hr with
  | nil => exact ⟨List.nodup_nil, nofun⟩
  | @snoc as c e d _ hs ih =>
    obtain ⟨hnodup, hlt⟩ := ih
    rcases issue_step hs with ⟨he, hn⟩ | ⟨o, he, hn⟩
    · have h : issued (as ++ [e]) = issued as := by simp [issued, he]
      rw [h, hn]
      exact ⟨hnodup, hlt⟩
    · have h : issued (as ++ [e]) = issued as ++ [(o, c.nextTicket)] := by simp [issued, he]
      rw [h, hn]
      refine ⟨List.nodup_append.mpr ⟨hnodup, List.nodup_singleton _, ?_⟩, ?_⟩
      · rintro x hx y hy rfl
        obtain rfl := List.mem_singleton.mp hy
        exact Nat.lt_irrefl _ (hlt _ hx)
      · intro x hx
        rcases List.mem_append.mp hx with hx | hx
        · exact Nat.lt_succ_of_lt (hlt x hx)
        · rw [List.mem_singleton.mp hx]
          exact Nat.lt_succ_self _

theorem count_filterMap_snoc {α β : Type*} [BEq β] [LawfulBEq β] (as : List α) (a : α)
    (f : α → Option β) (x : β) :
    ((as ++ [a]).filterMap f).count x = (as.filterMap f).count x + (f a == some x).toNat := by
  rw [List.filterMap_append, List.count_append]
  cases h : f a with
  | none => simp [h]
  | some y => cases hy : y == x <;> simp [h, hy, List.count_singleton]

/-- Every handle handed out is in one place until it is dropped, once. -/
theorem ledger_run (hr : Run (HandleStep registry) .initial as c) (o : O) (n : Nat) :
    ∃ k, Counts (fun s => HandleSlot.carries o n s = true) c.slots k ∧
      (dropped as).count (o, n) + k = (issued as).count (o, n) := by
  induction hr with
  | nil => exact ⟨0, counts_zero nofun, rfl⟩
  | @snoc as c e d _ hs ih =>
    obtain ⟨k, hk, hn⟩ := ih
    obtain ⟨k', hk', hkk⟩ := counts_step (q := fun x => x == some (o, n)) hs hk
    refine ⟨k', hk', ?_⟩
    have hd := count_filterMap_snoc as e HandleEvent.drop (o, n)
    have hi := count_filterMap_snoc as e HandleEvent.issue (o, n)
    rw [dropped, issued, hd, hi]
    rw [dropped, issued] at hn
    omega

/-- What the count of a segment says in a reached state, and what a next step may do to it. -/
structure CountsReadWrite (registry : O → Bool) (as : List (HandleEvent O V T))
    (c : HandleConfig O V T) (o : O) (words : SegmentWords) (handles attaching : Nat) : Prop where
  live : Counts (fun s => HandleSlot.liveOn o s = true) c.slots handles
  inFlight : Counts (fun pc => AttachCall.inFlight o pc = true) c.attaches attaching
  count : words.refCount.toNat = (handles + attaching) % 2 ^ 32
  readWrite : ∀ e d words', HandleStep registry c e d → d.objects o = some words' →
    words'.refCount ≠ words.refCount → ByReadWrite c o e
  positive : handles + attaching < 2 ^ 32 → ∀ e d words', HandleStep registry c e d →
    d.objects o = some words' → e.lowers o = true →
    words'.refCount.toNat + 1 = words.refCount.toNat
  once : (issued as).Nodup ∧ ∀ n, ∃ k, Counts (fun s => HandleSlot.carries o n s = true) c.slots k ∧
    (dropped as).count (o, n) + k = (issued as).count (o, n)

/-- `ref_count` is, modulo its width, the number of live read-write handles and of attaches
between their increment and their return or roll-back. -/
theorem ref_count_counts_handles {words : SegmentWords}
    (hr : Run (HandleStep registry) .initial as c) (ho : c.objects o = some words) :
    ∃ handles attaching, CountsReadWrite registry as c o words handles attaching := by
  obtain ⟨k, a, hk, ha, hn⟩ := refCounted_run hr o
  rw [ho] at hn
  have hcount : words.refCount.toNat = (k + a) % 2 ^ 32 := by
    rw [show words.refCount = UInt32.ofNat (k + a) from hn, UInt32.toNat_ofNat']
  refine ⟨k, a, hk, ha, hcount, ?_, ?_, (issued_run hr).1, ledger_run hr o⟩
  · intro e d words' hs hd hne
    by_contra hb
    obtain ⟨words'', hd', hw⟩ := count_step hs ho hb
    obtain rfl : words'' = words' := Option.some.inj (hd'.symm.trans hd)
    exact hne hw
  · intro hlt e d words' hs hd hl
    obtain ⟨k', a', -, -, hm⟩ := total_step hs hk ha
    have hn' := agrees_step hs (o := o) (by rw [ho]; exact hn) hm
    rw [hd] at hn'
    have hr : e.raises o = false := by cases e <;> first | rfl | cases hl
    rw [hl, hr, Bool.toNat_true, Bool.toNat_false] at hm
    rw [hcount, Nat.mod_eq_of_lt hlt, show words'.refCount = UInt32.ofNat (k' + a') from hn',
      UInt32.toNat_ofNat', Nat.mod_eq_of_lt (by omega)]
    exact hm

/-- A segment of 4096 bytes whose `create` has just returned. -/
def createdSegment : HandleConfig Unit Nat Unit :=
  (HandleConfig.initial.setWords () ⟨.active, 1⟩).hand 0 () 4096 3 true

theorem createdSegment_run (registry : Unit → Bool) :
    Run (HandleStep registry) .initial [.created 0 () 0] createdSegment :=
  .single (.create .active 4096 3 rfl rfl)

/-- A second handle is attached and moved, and the creator's is destructed. -/
theorem ref_count_counts_handles_moved : ∃ as, ∃ c : HandleConfig Unit Nat Unit,
    Run (HandleStep fun _ => false) .initial as c ∧ .moved 2 1 ∈ as ∧
    issued as = [((), 0), ((), 1)] ∧ dropped as = [((), 0)] ∧
    ∃ handles attaching,
      CountsReadWrite (fun _ => false) as c () ⟨.active, 1⟩ handles attaching := by
  let first : ShmHandle Unit := ⟨some (), 4096, 3, .readWrite, true, 0⟩
  let second : ShmHandle Unit := ⟨some (), 4096, 4, .readWrite, false, 1⟩
  let step := HandleStep (O := Unit) (V := Nat) (T := Unit) fun _ => false
  let c₁ := createdSegment.setAttach () (.opened () .readWrite)
  let c₂ := c₁.setAttach () (.checked () .readWrite)
  let one : SegmentWords := ⟨.active, 1⟩
  let two : SegmentWords := { one with refCount := one.refCount + 1 }
  let c₃ := (c₂.setWords () two).setAttach () (.bumped ())
  let c₄ := (c₃.setAttach () .idle).hand 1 () 4096 4 false
  let c₅ := (c₄.setSlot 2 (.holds second)).setSlot 1 (.holds {})
  let c₆ := c₅.setSlot 0 (.resetting first .destroyed)
  let c₇ := (c₆.setWords () { two with refCount := two.refCount - 1 }).setSlot 0
    (.subtracted first (two.refCount == 1) .destroyed)
  have h₁ : step createdSegment (.attach ()) c₁ := .attachOpen .readWrite rfl rfl
  have h₂ : step c₁ (.attach ()) c₂ := .attachCheck rfl rfl nofun
  have h₃ : step c₂ (.bumped () ()) c₃ := .attachBump rfl rfl
  have h₄ : step c₃ (.returned () 1 () 1) c₄ := .attachReturn 4096 4 rfl rfl nofun rfl
  have h₅ : step c₄ (.moved 2 1) c₅ := .moveConstruct rfl rfl
  have h₆ : step c₅ (.quiet 0) c₆ := .destruct rfl
  have h₇ : step c₆ (.dropped 0 () first.ticket) c₇ := .resetSub rfl rfl rfl rfl
  have hrun := (((((((createdSegment_run _).snoc h₁).snoc h₂).snoc h₃).snoc h₄).snoc h₅).snoc
    h₆).snoc h₇
  have hwords : c₇.objects () = some ⟨.active, 1⟩ :=
    congrArg (fun n => some (SegmentWords.mk .active n)) (UInt32.add_sub_cancel one.refCount 1)
  exact ⟨_, c₇, hrun, by simp, rfl, rfl, ref_count_counts_handles hrun hwords⟩

/-- A read-write attach that nobody disturbs on a segment that is not dead returns a handle. -/
theorem attachReadWrite_run (registry : O → Bool) {t : T} {v : V} {words : SegmentWords}
    (ht : c.attaches t = .idle) (ho : c.objects o = some words) (hs : words.state ≠ .dead)
    (hv : c.slots v = .absent) :
    ∃ as d h, Run (HandleStep registry) c as d ∧ d.attaches t = .idle ∧
      d.objects o = some { words with refCount := words.refCount + 1 } ∧
      d.slots = Function.update c.slots v (.holds h) ∧ h.counted = some (o, c.nextTicket) := by
  let c₁ := c.setAttach t (.opened o .readWrite)
  let c₂ := c₁.setAttach t (.checked o .readWrite)
  let c₃ := c₂.setWords o { words with refCount := words.refCount + 1 }
  have hopen : HandleStep registry c (.attach t) c₁ := .attachOpen _ ht ho
  have hcheck : HandleStep registry c₁ (.attach t) c₂ :=
    .attachCheck (Function.update_self ..) ho hs
  have hbump : HandleStep registry c₂ (.bumped t o) (c₃.setAttach t (.bumped o)) :=
    .attachBump (Function.update_self ..) ho
  refine ⟨_, _, _, (((Run.single hopen).snoc hcheck).snoc hbump).snoc (.attachReturn (v := v) 0 0
    (Function.update_self ..) (Function.update_self ..) hs hv), ?_, ?_, rfl, rfl⟩
  · exact Function.update_self ..
  · exact Function.update_self ..

/-- Any number of attaches may follow each other on a segment that stays active. -/
theorem attached_run (registry : Unit → Bool) (n : Nat) :
    ∃ as, ∃ c : HandleConfig Unit Nat Unit, Run (HandleStep registry) .initial as c ∧
      c.objects () = some ⟨.active, UInt32.ofNat (n + 1)⟩ ∧ c.attaches () = .idle ∧
      Counts (fun s => HandleSlot.liveOn () s = true) c.slots (n + 1) ∧
      ∀ v, n < v → c.slots v = .absent := by
  induction n with
  | zero =>
    refine ⟨_, _, createdSegment_run registry, rfl, rfl, ?_, ?_⟩
    · have hnone : Counts (fun s => HandleSlot.liveOn () s = true)
          (fun _ : Nat => (.absent : HandleSlot Unit Nat)) 0 := counts_zero nofun
      exact hnone.enter nofun rfl
    · intro v hv
      exact Function.update_of_ne (Nat.ne_of_gt hv) ..
  | succ n ih =>
    obtain ⟨as, c, hr, ho, ht, hk, hv⟩ := ih
    obtain ⟨bs, d, h, hrun, ht', ho', hslots, hc⟩ :=
      attachReadWrite_run registry ht ho nofun (hv (n + 1) (Nat.lt_succ_self n))
    refine ⟨_, d, hr.append hrun, ?_, ht', ?_, ?_⟩
    · rw [ho', UInt32.ofNat_add (n + 1)]
      rfl
    · rw [hslots]
      refine hk.enter ?_ ?_
      · rw [hv (n + 1) (Nat.lt_succ_self n)]
        nofun
      · rw [HandleSlot.liveOn, HandleSlot.counted, hc]
        rfl
    · intro v hlt
      rw [hslots, Function.update_of_ne (Nat.ne_of_gt hlt)]
      exact hv v (Nat.lt_of_succ_lt hlt)

/-- `2 ^ 32` handles that are all alive leave the count at zero. -/
theorem ref_count_wraps :
    ∃ as, ∃ c : HandleConfig Unit Nat Unit, ∃ words,
      Run (HandleStep fun _ => false) .initial as c ∧ c.objects () = some words ∧
      Counts (fun s => HandleSlot.liveOn () s = true) c.slots (2 ^ 32) ∧ words.refCount = 0 := by
  obtain ⟨as, c, hr, ho, -, hk, -⟩ := attached_run (fun _ => false) (2 ^ 32 - 1)
  exact ⟨as, c, _, hr, ho, hk, rfl⟩

end Proofs

end Shmfx
