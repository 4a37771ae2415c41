import Shmfx.Lib.MoveOnly
import Shmfx.Logging.Recreation
import Shmfx.Segment.Holding

/-! The rings a `LogCenter` keeps in its vector, with the descriptors and mappings their handles
own: attached by `attach_ring`, marked by `drain_ring` and erased at the end of `drain_once`. -/
namespace Shmfx

open Lts

/-- An `AttachedRing` with the handle it owns; `view` is the mapping its `MpscRing` looks into. -/
structure OwnedRing (A : Type) where
  name : Name
  handle : ShmHandle A
  view : Option A
  removeAfterDrain : Bool := false

/-- The process of a `LogCenter`, and the storage of its vector. -/
structure CenterProcess (A : Type) where
  process : Process A
  rings : List (Option (OwnedRing A))

inductive DetachEvent (A : Type)
  | attached (env : ProcessEnv A) (name : Name)
  | collected (env : ProcessEnv A)
  | marked (i : Nat)
  | erased
  | others (s : LinkedStore)

section Model

variable {A : Type}

/-- `segment_dead`. -/
def OwnedRing.segmentDead (a : OwnedRing A) (p : Process A) : Bool :=
  a.handle.base.any fun base => (p.headerAt base).state == SegmentState.dead.code

/-- How `drain_ring` begins. -/
def OwnedRing.mark (p : Process A) (a : OwnedRing A) : OwnedRing A :=
  if a.segmentDead p then { a with removeAfterDrain := true } else a

/-- The object a handle has mapped. -/
def ShmHandle.object (p : Process A) (h : ShmHandle A) : Nat := (h.base.bind p.mapped).getD 0

/-- The ring as a `Center` has it, by the object it maps. -/
def OwnedRing.attached (p : Process A) (a : OwnedRing A) : AttachedRing Nat :=
  ⟨a.name, a.handle.object p, a.removeAfterDrain⟩

/-- Nothing attached yet. -/
def CenterProcess.start (s : LinkedStore) : CenterProcess A :=
  ⟨⟨s, fun _ => none, fun _ => none, []⟩, []⟩

variable [DecidableEq A]

/-- `rings_.erase(std::remove_if(..), rings_.end())`; an element that is destroyed or assigned over
resets its handle. -/
def CenterProcess.eraseMarked (c : CenterProcess A) : CenterProcess A :=
  let r := MoveOnly.eraseRemoveIf (fun a p => Process.resetHandle (OwnedRing.handle a) p)
    OwnedRing.removeAfterDrain (c.rings, c.process)
  ⟨r.2, r.1⟩

inductive DetachStep (c : CenterProcess A) : DetachEvent A → CenterProcess A → Prop
  | attach {env : ProcessEnv A} {name : Name} {h : ShmHandle A} {p : Process A}
      (hnew : ∀ a, some a ∈ c.rings → a.name ≠ name) (hfresh : env.Fresh c.process)
      (hcall : Process.attachCall env name .readWrite c.process = (.ok h, p)) :
      DetachStep c (.attached env name) ⟨p, c.rings ++ [some ⟨name, h, h.base, false⟩]⟩
  /-- No ring in the segment: the handle goes out of scope. -/
  | reject {env : ProcessEnv A} {name : Name} {h : ShmHandle A} {p : Process A}
      (hfresh : env.Fresh c.process)
      (hcall : Process.attachCall env name .readWrite c.process = (.ok h, p)) :
      DetachStep c (.attached env name) ⟨p.resetHandle h, c.rings⟩
  | refuse {env : ProcessEnv A} {name : Name} {e : ErrorCode} {p : Process A}
      (hfresh : env.Fresh c.process)
      (hcall : Process.attachCall env name .readWrite c.process = (.error e, p)) :
      DetachStep c (.attached env name) ⟨p, c.rings⟩
  | gc {env : ProcessEnv A} (hfresh : env.Fresh c.process) :
      DetachStep c (.collected env) ⟨c.process.gcCall env, c.rings⟩
  | mark {i : Nat} {a : OwnedRing A} (hi : c.rings[i]? = some (some a)) :
      DetachStep c (.marked i) ⟨c.process, c.rings.set i (some (a.mark c.process))⟩
  | erase : DetachStep c .erased c.eraseMarked
  | others (s : LinkedStore) : DetachStep c (.others s) ⟨c.process.setStore s, c.rings⟩

/-- A vector of rings that own what their process has open. -/
structure KeepsRings (c : CenterProcess A) (rings : List (OwnedRing A)) : Prop where
  /-- No element has been moved from. -/
  whole : c.rings = rings.map some
  holds : Holds ⟨c.process, rings.map OwnedRing.handle⟩
  shared : ∀ a ∈ rings, a.handle.mode = .readWrite ∧ a.handle.owner = false
  /-- No ring looks into a mapping of another, or into none. -/
  view : ∀ a ∈ rings, a.view = a.handle.base
  distinct : (rings.map OwnedRing.name).Nodup
  /-- Erasing takes out the marked rings and nothing else. -/
  erased : c.eraseMarked.rings = (rings.filter fun a => !a.removeAfterDrain).map some
  /-- It does to the shared objects what `Center.drainOnce` does for rings it finds DEAD. -/
  released : c.eraseMarked.process.store =
    ((rings.filter OwnedRing.removeAfterDrain).map (OwnedRing.attached c.process)).foldl
      (fun s a => s.release a.ring false) c.process.store

end Model

section Holding

variable {A : Type} {c : Holder A} {p : Process A} {hs hs' : List (ShmHandle A)}

theorem Holds.perm (h : Holds ⟨p, hs⟩) (hp : hs.Perm hs') : Holds ⟨p, hs'⟩ where
  fds fd hopen := by
    obtain ⟨x, hx, hfd⟩ := h.fds fd hopen
    exact ⟨x, hp.mem_iff.mp hx, hfd⟩
  mapped a hopen := by
    obtain ⟨x, hx, hbase⟩ := h.mapped a hopen
    exact ⟨x, hp.mem_iff.mp hx, hbase⟩
  held x hx := h.held x (hp.mem_iff.mpr hx)
  apart x hx y hy := h.apart x (hp.mem_iff.mpr hx) y (hp.mem_iff.mpr hy)
  nodup := hp.nodup_iff.mp h.nodup
  heartbeat a := by
    rw [h.heartbeat a]
    exact exists_congr fun x => and_congr_left fun _ => hp.mem_iff

variable [DecidableEq A]

/-- A handle that is reset. -/
theorem Holds.resetHandle {h : ShmHandle A} (hc : Holds ⟨p, h :: hs⟩) :
    Holds ⟨p.resetHandle h, hs⟩ := by
  obtain ⟨-, a, o, hbase, hmapped, -⟩ := hc.held h List.mem_cons_self
  have hreset := (hc.holderStep (.reset List.mem_cons_self hbase hmapped)).1
  rwa [List.erase_cons_head] at hreset

/-- A reset drops the reference of its own object, and leaves the other mappings. -/
theorem Holds.reset_shared {h : ShmHandle A} (hc : Holds ⟨p, h :: hs⟩)
    (hshared : h.mode = .readWrite ∧ h.owner = false) :
    (p.resetHandle h).store = p.store.release (h.object p) false ∧
      ∀ h' ∈ hs, h'.object (p.resetHandle h) = h'.object p := by
  obtain ⟨hfd, a, o, hbase, hmapped, -⟩ := hc.held h List.mem_cons_self
  have hobject : h.object p = o := by
    rw [ShmHandle.object, hbase, Option.bind_some, show p.mapped a = some o from hmapped]
    rfl
  rw [Process.resetHandle_eq hbase hmapped hfd, hobject, hshared.1, hshared.2]
  refine ⟨rfl, ?_⟩
  intro h' hmem
  obtain ⟨-, a', o', hbase', -, -⟩ := hc.held h' (List.mem_cons_of_mem _ hmem)
  have hne : a' ≠ a := by
    rintro rfl
    have hsame := hc.apart h' (List.mem_cons_of_mem _ hmem) h List.mem_cons_self
      (.inr (hbase'.trans hbase.symm))
    exact (List.nodup_cons.mp hc.nodup).1 (hsame ▸ hmem)
  rw [ShmHandle.object, ShmHandle.object, hbase', Option.bind_some, Option.bind_some]
  exact congrArg (Option.getD · 0) (Function.update_of_ne hne _ _)

/-- The references of some handles are dropped in the order of their resets. -/
theorem Holds.store_resetHandles {gone : List (ShmHandle A)} (hc : Holds ⟨p, gone ++ hs⟩)
    (hshared : ∀ h ∈ gone, h.mode = .readWrite ∧ h.owner = false) :
    (gone.foldl (fun p h => p.resetHandle h) p).store =
      (gone.map (ShmHandle.object p)).foldl (fun s o => s.release o false) p.store := by
  induction gone generalizing p with
  | nil => rfl
  | cons h gone ih =>
    obtain ⟨hfirst, hrest⟩ := List.forall_mem_cons.mp hshared
    obtain ⟨hstore, hothers⟩ := hc.reset_shared hfirst
    rw [List.foldl_cons, ih hc.resetHandle hrest, hstore, List.map_cons, List.foldl_cons]
    congr 1
    refine List.map_congr_left fun h' hmem => ?_
    exact hothers h' (List.mem_append_left _ hmem)

/-- Some handles that are reset one after the other. -/
theorem Holds.resetHandles {gone : List (ShmHandle A)} (hc : Holds ⟨p, gone ++ hs⟩) :
    Holds ⟨gone.foldl (fun p h => p.resetHandle h) p, hs⟩ := by
  induction gone generalizing p with
  | nil => exact hc
  | cons h gone ih => exact ih hc.resetHandle

end Holding

section Rings

variable {A : Type} [DecidableEq A] {c c' : CenterProcess A} {rings : List (OwnedRing A)}
  {e : DetachEvent A}

theorem eraseMarked_eq (h : c.rings = rings.map some) :
    c.eraseMarked =
      ⟨(rings.filter OwnedRing.removeAfterDrain).foldl (fun p a => p.resetHandle a.handle)
          c.process,
        (rings.filter fun a => !a.removeAfterDrain).map some⟩ := by
  unfold CenterProcess.eraseMarked
  rw [h, MoveOnly.eraseRemoveIf_eq]

omit [DecidableEq A] in
/-- The handles of the marked rings, before those of the others. -/
theorem Holds.marked_first {p : Process A} (h : Holds ⟨p, rings.map OwnedRing.handle⟩) :
    Holds ⟨p, (rings.filter OwnedRing.removeAfterDrain).map OwnedRing.handle ++
      (rings.filter fun a => !a.removeAfterDrain).map OwnedRing.handle⟩ := by
  refine h.perm ?_
  rw [← List.map_append]
  exact (List.filter_append_perm _ rings).symm.map _

/-- The other facts make the erasing right. -/
theorem keepsRings_intro (hwhole : c.rings = rings.map some)
    (hholds : Holds ⟨c.process, rings.map OwnedRing.handle⟩)
    (hshared : ∀ a ∈ rings, a.handle.mode = .readWrite ∧ a.handle.owner = false)
    (hview : ∀ a ∈ rings, a.view = a.handle.base)
    (hdistinct : (rings.map OwnedRing.name).Nodup) : KeepsRings c rings := by
  have herased := eraseMarked_eq hwhole
  refine ⟨hwhole, hholds, hshared, hview, hdistinct, congrArg CenterProcess.rings herased, ?_⟩
  have hstore := hholds.marked_first.store_resetHandles (fun h hmem => by
    obtain ⟨a, ha, rfl⟩ := List.mem_map.mp hmem
    exact hshared a (List.mem_of_mem_filter ha))
  rw [List.foldl_map, List.map_map, List.foldl_map] at hstore
  rw [herased, List.foldl_map]
  exact hstore

theorem keepsRings_start (s : LinkedStore) : KeepsRings (.start s : CenterProcess A) [] := by
  refine keepsRings_intro rfl (.idle s) ?_ ?_ List.nodup_nil
  · intro a ha
    exact absurd ha List.not_mem_nil
  · intro a ha
    exact absurd ha List.not_mem_nil

/-- What was marked is taken out, and its handles are reset. -/
theorem KeepsRings.erase (h : KeepsRings c rings) :
    KeepsRings c.eraseMarked (rings.filter fun a => !a.removeAfterDrain) := by
  have hsub : (rings.filter fun a => !a.removeAfterDrain).Sublist rings := List.filter_sublist
  have hreset := h.holds.marked_first.resetHandles
  rw [List.foldl_map] at hreset
  rw [eraseMarked_eq h.whole]
  exact keepsRings_intro rfl hreset (fun a ha => h.shared a (hsub.subset ha))
    (fun a ha => h.view a (hsub.subset ha)) ((hsub.map _).nodup h.distinct)

omit [DecidableEq A] in
theorem mark_same (p : Process A) (a : OwnedRing A) :
    (a.mark p).name = a.name ∧ (a.mark p).handle = a.handle ∧ (a.mark p).view = a.view := by
  unfold OwnedRing.mark
  split_ifs <;> exact ⟨rfl, rfl, rfl⟩

/-- A mark changes nothing else. -/
theorem KeepsRings.mark {i : Nat} {a : OwnedRing A} (h : KeepsRings c rings)
    (hi : c.rings[i]? = some (some a)) :
    KeepsRings ⟨c.process, c.rings.set i (some (a.mark c.process))⟩
      (rings.set i (a.mark c.process)) := by
  obtain ⟨hname, hhandle, hview⟩ := mark_same c.process a
  have ha : rings[i]? = some a := by
    rw [h.whole, List.getElem?_map] at hi
    simpa using hi
  have hsame {β : Type} {f : OwnedRing A → β} (hf : f (a.mark c.process) = f a) :
      (rings.set i (a.mark c.process)).map f = rings.map f := by
    apply List.ext_getElem?
    intro j
    rw [List.getElem?_map, List.getElem?_map, List.getElem?_set]
    split_ifs with hij hlt
    · rw [← hij, ha, Option.map_some, Option.map_some, hf]
    · exact absurd (List.getElem?_eq_some_iff.mp ha).1 (hij ▸ hlt)
    · rfl
  refine keepsRings_intro ?_ ?_ ?_ ?_ ?_
  · dsimp only
    rw [h.whole, List.map_set]
  · rw [hsame hhandle]
    exact h.holds
  · intro b hb
    rcases List.mem_or_eq_of_mem_set hb with hb | rfl
    · exact h.shared b hb
    · rw [hhandle]
      exact h.shared a (List.mem_of_getElem? ha)
  · intro b hb
    rcases List.mem_or_eq_of_mem_set hb with hb | rfl
    · exact h.view b hb
    · rw [hview, hhandle]
      exact h.view a (List.mem_of_getElem? ha)
  · rw [hsame hname]
    exact h.distinct

/-- What `attach` returns for reading and writing. -/
theorem attachCall_shared {env : ProcessEnv A} {name : Name} {p p' : Process A} {h : ShmHandle A}
    (hfresh : env.Fresh p) (hcall : Process.attachCall env name .readWrite p = (.ok h, p')) :
    h.mode = .readWrite ∧ h.owner = false := by
  rw [Process.attachCall_eq hfresh.fd hfresh.base] at hcall
  generalize p.store.attach env.toAttachEnv name .readWrite = result at hcall
  obtain ⟨_ | o, s⟩ := result
  · cases hcall
  · cases hcall
    exact ⟨rfl, rfl⟩

theorem keepsRings_step (h : KeepsRings c rings) (hs : DetachStep c e c') :
    ∃ rings', KeepsRings c' rings' := by
  cases hs with
  | @attach env name handle p hnew hfresh hcall =>
    refine ⟨rings ++ [⟨name, handle, handle.base, false⟩], keepsRings_intro ?_ ?_ ?_ ?_ ?_⟩
    · dsimp only
      rw [h.whole, List.map_append]
      rfl
    · rw [List.map_append]
      exact (h.holds.holderStep (.attach hfresh hcall)).1.perm (List.perm_append_singleton _ _).symm
    · intro a ha
      rcases List.mem_append.mp ha with ha | ha
      · exact h.shared a ha
      · obtain rfl := List.mem_singleton.mp ha
        exact attachCall_shared hfresh hcall
    · intro a ha
      rcases List.mem_append.mp ha with ha | ha
      · exact h.view a ha
      · obtain rfl := List.mem_singleton.mp ha
        rfl
    · rw [List.map_append, List.nodup_append_comm]
      refine List.nodup_cons.mpr ⟨?_, h.distinct⟩
      intro hmem
      obtain ⟨a, ha, hname⟩ := List.mem_map.mp hmem
      exact hnew a (h.whole ▸ List.mem_map_of_mem ha) hname
  | reject hfresh hcall =>
    have hheld := (h.holds.holderStep (.attach hfresh hcall)).1
    exact ⟨rings, keepsRings_intro h.whole hheld.resetHandle h.shared h.view h.distinct⟩
  | refuse hfresh hcall =>
    have hheld := (h.holds.holderStep (.refused hfresh hcall)).1
    exact ⟨rings, keepsRings_intro h.whole hheld h.shared h.view h.distinct⟩
  | @gc env hfresh =>
    have hheld : Holds ⟨c.process.gcCall env, rings.map OwnedRing.handle⟩ := by
      rw [Process.gc_gives_back hfresh.fd hfresh.base]
      exact h.holds.setStore _
    generalize c.process.gcCall env = p at hheld
    exact ⟨rings, keepsRings_intro h.whole hheld h.shared h.view h.distinct⟩
  | mark hi => exact ⟨_, h.mark hi⟩
  | erase => exact ⟨_, h.erase⟩
  | others s =>
    have hheld := (h.holds.holderStep (.others s)).1
    exact ⟨rings, keepsRings_intro h.whole hheld h.shared h.view h.distinct⟩

/-- However rings are attached, marked and erased among the calls of others, the vector has no
element that was moved from, the process has open and mapped what the handles in it own and nothing
else, every ring looks into the mapping of its own handle, and erasing drops the references of the
marked rings in order. -/
theorem center_keeps_rings {s : LinkedStore} {log : List (DetachEvent A)}
    (h : Run DetachStep (.start s) log c) : ∃ rings, KeepsRings c rings := by
  refine h.invariant (I := fun _ c => ∃ rings, KeepsRings c rings) ⟨[], keepsRings_start s⟩ ?_
  rintro _ c₁ e c₂ - ⟨rings, hkeeps⟩ hs
  exact keepsRings_step hkeeps hs

end Rings

section Erased

open Center

/-- The process of a `LogCenter` that has attached the first of two rings. -/
def firstAttached : Process Nat :=
  (Process.attachCall (freeEnv 4 1) (ringOptions 'a').name .readWrite
    (CenterProcess.start twoCreated.store).process).2

def bothAttached : Process Nat :=
  (Process.attachCall (freeEnv 5 2) (ringOptions 'b').name .readWrite firstAttached).2

def firstRing : OwnedRing Nat :=
  ⟨(ringOptions 'a').name, ⟨some 1, 4096, 4, .readWrite, false, 0⟩, some 1, false⟩

def secondRing : OwnedRing Nat :=
  ⟨(ringOptions 'b').name, ⟨some 2, 4096, 5, .readWrite, false, 0⟩, some 2, false⟩

/-- Others make the first segment DEAD. -/
def firstDead : LinkedStore :=
  bothAttached.store.setObject 0 ((bothAttached.store.objects 0).setState .dead)

/-- Two rings are attached; the first is found DEAD, marked and erased. -/
theorem center_keeps_rings_erased : ∃ (log : List (DetachEvent Nat)) (c : CenterProcess Nat),
    Run DetachStep (.start twoCreated.store) log c ∧ .erased ∈ log ∧
      c.rings.map (Option.map OwnedRing.name) = [some (ringOptions 'b').name] ∧
      ∃ rings, KeepsRings c rings := by
  have hfirst : Process.attachCall (freeEnv 4 1) (ringOptions 'a').name .readWrite
      (CenterProcess.start twoCreated.store).process = (.ok firstRing.handle, firstAttached) :=
    Rollback.outcome_eq (by decide +kernel)
  have hsecond : Process.attachCall (freeEnv 5 2) (ringOptions 'b').name .readWrite firstAttached =
      (.ok secondRing.handle, bothAttached) :=
    Rollback.outcome_eq (by decide +kernel)
  have hfresh₁ : (freeEnv 4 1).Fresh (CenterProcess.start twoCreated.store).process :=
    ⟨rfl, rfl, by decide⟩
  have hfresh₂ : (freeEnv 5 2).Fresh firstAttached :=
    ⟨by decide +kernel, by decide +kernel, by decide⟩
  have hmarked : (firstRing.mark (bothAttached.setStore firstDead)).removeAfterDrain = true := by
    decide +kernel
  -- from here on nobody should compute what the calls left
  generalize firstDead = s at hmarked
  generalize bothAttached = p₂ at hsecond hmarked
  generalize firstAttached = p₁ at hfirst hsecond hfresh₂
  generalize twoCreated.store = s₀ at hfirst hfresh₁ ⊢
  have hattach₁ : DetachStep (.start s₀) (.attached (freeEnv 4 1) firstRing.name)
      ⟨p₁, [some firstRing]⟩ :=
    .attach (fun a ha => absurd ha List.not_mem_nil) hfresh₁ hfirst
  have hattach₂ : DetachStep ⟨p₁, [some firstRing]⟩ (.attached (freeEnv 5 2) secondRing.name)
      ⟨p₂, [some firstRing, some secondRing]⟩ := by
    refine .attach (fun a ha => ?_) hfresh₂ hsecond
    obtain rfl := Option.some.inj (List.mem_singleton.mp ha)
    decide
  have hmark : DetachStep ⟨p₂.setStore s, [some firstRing, some secondRing]⟩ (.marked 0)
      ⟨p₂.setStore s, [some (firstRing.mark (p₂.setStore s)), some secondRing]⟩ :=
    .mark rfl
  have hrun := (((Run.single hattach₁).snoc hattach₂).snoc (.others s)).snoc hmark
  obtain ⟨rings, hkeeps⟩ := center_keeps_rings hrun
  have hrings : rings = [firstRing.mark (p₂.setStore s), secondRing] :=
    List.map_injective_iff.mpr (Option.some_injective _) hkeeps.whole.symm
  refine ⟨_, _, hrun.snoc .erase, by simp, ?_, center_keeps_rings (hrun.snoc .erase)⟩
  rw [hkeeps.erased, hrings, List.filter_cons_of_neg (by simp [hmarked])]
  rfl

end Erased

end Shmfx
