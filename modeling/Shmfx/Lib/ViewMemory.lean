import Mathlib.Data.Set.Insert
import Mathlib.Logic.Function.Basic
import Mathlib.Tactic.Common

/-! A memory with release and acquire accesses. Every store to an atomic location leaves a message
at a time of its own, and a load may return any message its thread has not seen overwritten;
messages of releasing stores carry the view of their thread, and acquiring loads take it over.
Accesses to plain data are recorded, and race unless what conflicts with them is in view. -/
namespace ViewMemory

universe u v w

inductive MemoryOrder
  | relaxed
  | acquire
  | release
  | acqRel
  deriving DecidableEq

def MemoryOrder.acquires : MemoryOrder → Bool
  | .acquire | .acqRel => true
  | .relaxed | .release => false

def MemoryOrder.releases : MemoryOrder → Bool
  | .release | .acqRel => true
  | .relaxed | .acquire => false

/-- What a thread knows: at each atomic location the time before which no message is read any more,
and the accesses to plain data that happen before. -/
structure View (L : Type u) (D : Type v) where
  time : L → Nat
  seen : D → Set Nat

structure Message (L : Type u) (D : Type v) where
  value : Nat
  view : View L D

/-- The messages of each atomic location by their times, and the accesses made to each piece of
plain data: by whom, and whether it was a store. -/
structure Memory (L : Type u) (D : Type v) (T : Type w) where
  messages : L → Nat → Option (Message L D)
  touched : D → List (T × Bool)

variable {L : Type u} {D : Type v} {T : Type w}

namespace View

def bot : View L D := ⟨fun _ => 0, fun _ => ∅⟩

def join (V W : View L D) : View L D :=
  ⟨fun l => max (V.time l) (W.time l), fun d => V.seen d ∪ W.seen d⟩

def raise [DecidableEq L] (V : View L D) (l : L) (t : Nat) : View L D :=
  { V with time := Function.update V.time l (max (V.time l) t) }

def mark [DecidableEq D] (V : View L D) (d : D) (k : Nat) : View L D :=
  { V with seen := Function.update V.seen d (insert k (V.seen d)) }

/-- `W` knows all that `V` does. -/
structure Le (V W : View L D) : Prop where
  time : ∀ l, V.time l ≤ W.time l
  seen : ∀ d, V.seen d ⊆ W.seen d

variable {V W X : View L D}

theorem Le.refl (V : View L D) : V.Le V := ⟨fun _ => le_rfl, fun _ => subset_rfl⟩

theorem Le.trans (h : V.Le W) (h' : W.Le X) : V.Le X :=
  ⟨fun l => (h.time l).trans (h'.time l), fun d => (h.seen d).trans (h'.seen d)⟩

theorem le_join_left (V W : View L D) : V.Le (V.join W) :=
  ⟨fun _ => le_max_left .., fun _ => Set.subset_union_left⟩

theorem le_join_right (V W : View L D) : W.Le (V.join W) :=
  ⟨fun _ => le_max_right .., fun _ => Set.subset_union_right⟩

theorem le_raise [DecidableEq L] (V : View L D) (l : L) (t : Nat) : V.Le (V.raise l t) := by
  refine ⟨fun l' => ?_, fun _ => subset_rfl⟩
  simp only [raise, Function.update_apply]
  split_ifs with h
  · exact h ▸ le_max_left ..
  · exact le_rfl

theorem time_raise [DecidableEq L] (V : View L D) (l : L) (t : Nat) : t ≤ (V.raise l t).time l := by
  simp only [raise, Function.update_self]
  exact le_max_right ..

theorem le_mark [DecidableEq D] (V : View L D) (d : D) (k : Nat) : V.Le (V.mark d k) := by
  refine ⟨fun _ => le_rfl, fun d' => ?_⟩
  simp only [mark, Function.update_apply]
  split_ifs with h
  · exact h ▸ Set.subset_insert ..
  · exact subset_rfl

end View

namespace Memory

def put [DecidableEq L] (m : Memory L D T) (l : L) (t : Nat) (msg : Message L D) : Memory L D T :=
  { m with
    messages := Function.update m.messages l (Function.update (m.messages l) t (some msg)) }

def touch [DecidableEq D] (m : Memory L D T) (t : T) (d : D) (write : Bool) : Memory L D T :=
  { m with touched := Function.update m.touched d (m.touched d ++ [(t, write)]) }

/-- The view of the thread that makes the next access to `d`. -/
def mark [DecidableEq D] (m : Memory L D T) (V : View L D) (d : D) : View L D :=
  V.mark d (m.touched d).length

end Memory

section Accesses

variable [DecidableEq L]

/-- A load returns a message that is not older than the thread's view of the location. -/
inductive Loads (m : Memory L D T) (o : MemoryOrder) (V : View L D) (l : L) : Nat → View L D → Prop
  | mk {t : Nat} {msg : Message L D} (hmsg : m.messages l t = some msg) (ht : V.time l ≤ t) :
      Loads m o V l msg.value
        (if o.acquires then (V.raise l t).join msg.view else V.raise l t)

/-- A store takes any free time after the thread's view of the location. -/
inductive Stores (m : Memory L D T) (o : MemoryOrder) (V : View L D) (l : L) (value : Nat) :
    Memory L D T → View L D → Prop
  | mk {t : Nat} (hfree : m.messages l t = none) (ht : V.time l < t) :
      Stores m o V l value
        (m.put l t ⟨value, if o.releases then V.raise l t else View.bot.raise l t⟩)
        (V.raise l t)

/-- The view of an update that reads `msg` at `t`, with its store right behind. -/
def updated (o : MemoryOrder) (V : View L D) (l : L) (t : Nat) (msg : Message L D) : View L D :=
  (if o.acquires then (V.raise l t).join msg.view else V.raise l t).raise l (t + 1)

/-- A read-modify-write stores right behind the message it reads, and hands on its view. -/
inductive Updates (m : Memory L D T) (o : MemoryOrder) (V : View L D) (l : L) (new : Nat) :
    Nat → Memory L D T → View L D → Prop
  | mk {t : Nat} {msg : Message L D} (hmsg : m.messages l t = some msg) (ht : V.time l ≤ t)
      (hfree : m.messages l (t + 1) = none) :
      Updates m o V l new msg.value
        (m.put l (t + 1) ⟨new,
          (if o.releases then updated o V l t msg else View.bot.raise l (t + 1)).join msg.view⟩)
        (updated o V l t msg)

end Accesses

section Accesses

variable [DecidableEq L] {m m' : Memory L D T} {o : MemoryOrder} {V V' : View L D} {l l' : L}
  {t value new : Nat} {msg : Message L D}

theorem messages_put_of_ne (hl : l' ≠ l) : (m.put l t msg).messages l' = m.messages l' :=
  Function.update_of_ne hl ..

theorem messages_put_self :
    (m.put l t msg).messages l = Function.update (m.messages l) t (some msg) :=
  Function.update_self ..

/-- A message put at a free time hides none. -/
theorem messages_put_of_some {t' : Nat} {msg' : Message L D} (hfree : m.messages l t = none)
    (h : m.messages l' t' = some msg') : (m.put l t msg).messages l' t' = some msg' := by
  by_cases hl : l' = l
  · subst hl
    rw [messages_put_self, Function.update_of_ne, h]
    rintro rfl
    rw [hfree] at h
    cases h
  · rw [messages_put_of_ne hl, h]

theorem Loads.le (h : Loads m o V l value V') : V.Le V' := by
  obtain ⟨_, _⟩ := h
  split_ifs
  · exact (View.le_raise ..).trans (View.le_join_left ..)
  · exact View.le_raise ..

/-- An acquiring load takes over the view of the message it returns. -/
theorem Loads.acquired (h : Loads m o V l value V') (ho : o.acquires = true) :
    ∃ t msg, m.messages l t = some msg ∧ msg.value = value ∧ t ≤ V'.time l ∧ msg.view.Le V' := by
  obtain ⟨hmsg, _⟩ := h
  refine ⟨_, _, hmsg, rfl, ?_⟩
  rw [if_pos ho]
  exact ⟨(View.time_raise ..).trans ((View.le_join_left ..).time l), View.le_join_right ..⟩

theorem Stores.le (h : Stores m o V l value m' V') : V.Le V' := by
  obtain ⟨_, _⟩ := h
  exact View.le_raise ..

/-- A store leaves the other locations and all messages as they are. -/
theorem Stores.frame (h : Stores m o V l value m' V') : m'.touched = m.touched ∧
    (∀ l', l' ≠ l → m'.messages l' = m.messages l') ∧
    ∀ l' t msg, m.messages l' t = some msg → m'.messages l' t = some msg := by
  obtain ⟨hfree, _⟩ := h
  exact ⟨rfl, fun _ hl => messages_put_of_ne hl, fun _ _ _ hmsg => messages_put_of_some hfree hmsg⟩

theorem Updates.le (h : Updates m o V l new value m' V') : V.Le V' := by
  obtain ⟨_, _, _⟩ := h
  refine View.Le.trans ?_ (View.le_raise ..)
  split_ifs
  · exact (View.le_raise ..).trans (View.le_join_left ..)
  · exact View.le_raise ..

end Accesses

/-- The next access to `d` of a thread with view `V` conflicts with one that does not happen
before it. -/
def Races (m : Memory L D T) (V : View L D) (t : T) (d : D) (write : Bool) : Prop :=
  ∃ k t' write', (m.touched d)[k]? = some (t', write') ∧ t' ≠ t ∧ (write || write') = true ∧
    k ∉ V.seen d

/-- All accesses made to `d` so far are in view. -/
def Covers (m : Memory L D T) (V : View L D) (d : D) : Prop :=
  ∀ k, k < (m.touched d).length → k ∈ V.seen d

theorem Covers.not_races {m : Memory L D T} {V : View L D} {t : T} {d : D} {write : Bool}
    (h : Covers m V d) : ¬ Races m V t d write := by
  rintro ⟨k, _, _, hk, -, -, hseen⟩
  exact hseen (h k (List.getElem?_eq_some_iff.mp hk).1)

theorem Covers.mono {m m' : Memory L D T} {V W : View L D} {d : D} (h : Covers m V d)
    (htouched : m'.touched d = m.touched d) (hle : V.seen d ⊆ W.seen d) : Covers m' W d := by
  intro k hk
  rw [htouched] at hk
  exact hle (h k hk)

theorem Covers.touch [DecidableEq D] {m : Memory L D T} {V : View L D} {d : D} (h : Covers m V d)
    (t : T) (write : Bool) : Covers (m.touch t d write) (m.mark V d) d := by
  intro k hk
  simp only [Memory.touch, Function.update_self, List.length_append, List.length_singleton] at hk
  simp only [Memory.mark, View.mark, Function.update_self]
  rcases Nat.lt_succ_iff_lt_or_eq.mp hk with hk | rfl
  · exact .inr (h k hk)
  · exact .inl rfl

/-- The last message of a location, where every earlier one has a smaller value. -/
structure Latest (messages : Nat → Option (Message L D)) (t : Nat) (msg : Message L D) :
    Prop where
  here : messages t = some msg
  last : ∀ t', t < t' → messages t' = none
  below : ∀ t' msg', t' < t → messages t' = some msg' → msg'.value < msg.value

namespace Latest

variable {messages : Nat → Option (Message L D)} {t t' : Nat} {msg msg' : Message L D}

theorem time_le (h : Latest messages t msg) (h' : messages t' = some msg') : t' ≤ t := by
  by_contra hlt
  rw [h.last t' (Nat.lt_of_not_le hlt)] at h'
  cases h'

theorem value_le (h : Latest messages t msg) (h' : messages t' = some msg') :
    msg'.value ≤ msg.value := by
  rcases (h.time_le h').lt_or_eq with hlt | rfl
  · exact (h.below t' msg' hlt h').le
  · exact (Option.some.inj (h'.symm.trans h.here)) ▸ le_rfl

/-- A message that is not smaller than the last is the last. -/
theorem eq_of_value (h : Latest messages t msg) (h' : messages t' = some msg')
    (hv : msg.value ≤ msg'.value) : t' = t ∧ msg' = msg := by
  rcases (h.time_le h').lt_or_eq with hlt | rfl
  · exact absurd (h.below t' msg' hlt h') (Nat.not_lt.mpr hv)
  · exact ⟨rfl, Option.some.inj (h'.symm.trans h.here)⟩

theorem eq_of_time (h : Latest messages t msg) (h' : messages t' = some msg') (ht : t ≤ t') :
    t' = t ∧ msg' = msg := by
  obtain rfl := le_antisymm (h.time_le h') ht
  exact ⟨rfl, Option.some.inj (h'.symm.trans h.here)⟩

theorem unique (h : Latest messages t msg) (h' : Latest messages t' msg') : t' = t ∧ msg' = msg :=
  h.eq_of_time h'.here (h'.time_le h.here)

/-- A later and greater message becomes the last. -/
theorem put (h : Latest messages t msg) (ht : t < t') (hv : msg.value < msg'.value) :
    Latest (Function.update messages t' (some msg')) t' msg' := by
  refine ⟨Function.update_self .., fun s hs => ?_, fun s msg'' hs hmsg => ?_⟩
  · rw [Function.update_of_ne hs.ne']
    exact h.last s (ht.trans hs)
  · rw [Function.update_of_ne hs.ne] at hmsg
    exact (h.value_le hmsg).trans_lt hv

end Latest

/-- A store by a thread that has the last message in view becomes the last itself. -/
theorem Stores.latest [DecidableEq L] {m m' : Memory L D T} {o : MemoryOrder} {V V' : View L D}
    {l : L} {t value : Nat} {msg : Message L D} (h : Stores m o V l value m' V')
    (hlast : Latest (m.messages l) t msg) (ht : t ≤ V.time l) (hv : msg.value < value) :
    ∃ t' msg', Latest (m'.messages l) t' msg' ∧ msg'.value = value ∧ t' ≤ V'.time l ∧
      (o.releases = true → msg'.view = V') := by
  obtain ⟨hfree, hlt⟩ := h
  rw [messages_put_self]
  refine ⟨_, _, hlast.put (ht.trans_lt hlt) hv, rfl, View.time_raise .., ?_⟩
  intro ho
  exact if_pos ho

/-- `top` is the time of the last message of each location, and no view is ahead of it. -/
structure CurrentAt (top values : L → Nat) (m : Memory L D T) (views : T → View L D) : Prop where
  here : ∀ l, ∃ view, m.messages l (top l) = some ⟨values l, view⟩
  last : ∀ l t, top l < t → m.messages l t = none
  views : ∀ t l, (views t).time l ≤ top l
  carried : ∀ l t msg, m.messages l t = some msg → ∀ l', msg.view.time l' ≤ top l'

/-- The last messages have the given values: a memory in which each access can be made as if its
effect were at once visible to all. -/
def Current (values : L → Nat) (m : Memory L D T) (views : T → View L D) : Prop :=
  ∃ top, CurrentAt top values m views

section Current

variable [DecidableEq L] [DecidableEq T] {top values : L → Nat} {m : Memory L D T}
  {views : T → View L D} {V : View L D} {l : L} {t : T} {v : Nat}

theorem time_raise_le (hV : ∀ l', V.time l' ≤ top l') (l l' : L) :
    (V.raise l (top l)).time l' ≤ top l' := by
  simp only [View.raise, Function.update_apply]
  split_ifs with hl
  · rw [hl]
    exact max_le (hV l) le_rfl
  · exact hV l'

omit [DecidableEq L] in
theorem CurrentAt.keep (h : CurrentAt top values m views) (hV : ∀ l, V.time l ≤ top l) :
    CurrentAt top values m (Function.update views t V) := by
  refine ⟨h.here, h.last, fun t' l => ?_, h.carried⟩
  rw [Function.update_apply]
  split_ifs
  · exact hV l
  · exact h.views t' l

theorem Current.loads (h : Current values m views) (t : T) (o : MemoryOrder) (l : L) :
    ∃ V, Loads m o (views t) l (values l) V ∧ Current values m (Function.update views t V) := by
  obtain ⟨top, h⟩ := h
  obtain ⟨view, hmsg⟩ := h.here l
  refine ⟨_, .mk hmsg (h.views t l), top, h.keep fun l' => ?_⟩
  have hraise := time_raise_le (h.views t) l l'
  split_ifs
  · exact max_le hraise (h.carried l _ _ hmsg l')
  · exact hraise

theorem le_next (top : L → Nat) (l l' : L) : top l' ≤ Function.update top l (top l + 1) l' := by
  rw [Function.update_apply]
  split_ifs with hl
  · exact hl ▸ Nat.le_succ _
  · exact le_rfl

theorem time_raise_le_next (hV : ∀ l', V.time l' ≤ top l') (l l' : L) :
    (V.raise l (top l + 1)).time l' ≤ Function.update top l (top l + 1) l' := by
  have hraise := time_raise_le (fun l' => (hV l').trans (le_next top l l')) l l'
  rwa [Function.update_self] at hraise

/-- A message right behind the last one. -/
theorem CurrentAt.put (h : CurrentAt top values m views) {W : View L D}
    (hW : ∀ l', W.time l' ≤ Function.update top l (top l + 1) l')
    (hV : ∀ l', V.time l' ≤ Function.update top l (top l + 1) l') :
    CurrentAt (Function.update top l (top l + 1)) (Function.update values l v)
      (m.put l (top l + 1) ⟨v, W⟩) (Function.update views t V) := by
  have hle := le_next top l
  refine ⟨fun l' => ?_, fun l' t' ht => ?_, fun t' l' => ?_, fun l' t' msg hmsg k => ?_⟩
  · by_cases hl : l' = l
    · subst hl
      refine ⟨W, ?_⟩
      rw [messages_put_self, Function.update_self, Function.update_self, Function.update_self]
    · rw [messages_put_of_ne hl, Function.update_of_ne hl, Function.update_of_ne hl]
      exact h.here l'
  · by_cases hl : l' = l
    · subst hl
      rw [Function.update_self] at ht
      rw [messages_put_self, Function.update_of_ne ht.ne']
      exact h.last l' t' (by omega)
    · rw [messages_put_of_ne hl]
      exact h.last l' t' ((hle l').trans_lt ht)
  · by_cases ht : t' = t
    · rw [ht, Function.update_self]
      exact hV l'
    · rw [Function.update_of_ne ht]
      exact (h.views t' l').trans (hle l')
  · by_cases hl : l' = l
    · subst hl
      rw [messages_put_self] at hmsg
      by_cases ht : t' = top l' + 1
      · rw [ht, Function.update_self] at hmsg
        cases hmsg
        exact hW k
      · rw [Function.update_of_ne ht] at hmsg
        exact (h.carried l' t' msg hmsg k).trans (hle k)
    · rw [messages_put_of_ne hl] at hmsg
      exact (h.carried l' t' msg hmsg k).trans (hle k)

theorem Current.stores (h : Current values m views) (t : T) (o : MemoryOrder) (l : L) (v : Nat) :
    ∃ m' V, Stores m o (views t) l v m' V ∧
      Current (Function.update values l v) m' (Function.update views t V) := by
  obtain ⟨top, h⟩ := h
  refine ⟨_, _, .mk (h.last l (top l + 1) (Nat.lt_succ_self _)) (Nat.lt_succ_of_le (h.views t l)),
    _, h.put (fun l' => ?_) (time_raise_le_next (h.views t) l)⟩
  split_ifs
  · exact time_raise_le_next (h.views t) l l'
  · exact time_raise_le_next (fun _ => Nat.zero_le _) l l'

theorem Current.updates (h : Current values m views) (t : T) (o : MemoryOrder) (l : L) (v : Nat) :
    ∃ m' V, Updates m o (views t) l v (values l) m' V ∧
      Current (Function.update values l v) m' (Function.update views t V) := by
  obtain ⟨top, h⟩ := h
  obtain ⟨view, hmsg⟩ := h.here l
  have hload : ∀ l', (if o.acquires then ((views t).raise l (top l)).join view
      else (views t).raise l (top l)).time l' ≤ top l' := by
    intro l'
    have hraise := time_raise_le (h.views t) l l'
    split_ifs
    · exact max_le hraise (h.carried l _ _ hmsg l')
    · exact hraise
  have hupdated := time_raise_le_next hload l
  refine ⟨_, _, .mk hmsg (h.views t l) (h.last l (top l + 1) (Nat.lt_succ_self _)), _,
    h.put (fun l' => ?_) hupdated⟩
  refine max_le ?_ ((h.carried l _ _ hmsg l').trans (le_next top l l'))
  split_ifs
  · exact hupdated l'
  · exact time_raise_le_next (fun _ => Nat.zero_le _) l l'

omit [DecidableEq L] in
theorem Current.touch [DecidableEq D] (h : Current values m views) (t : T) (d : D) (write : Bool) :
    Current values (m.touch t d write) (Function.update views t (m.mark (views t) d)) := by
  obtain ⟨top, h⟩ := h
  have hkeep : CurrentAt top values m (Function.update views t (m.mark (views t) d)) :=
    h.keep (h.views t)
  exact ⟨top, hkeep.here, hkeep.last, hkeep.views, hkeep.carried⟩

end Current

end ViewMemory
