import Shmfx.Janitor.Undisturbed
import Shmfx.Lib.Lts

/-! What becomes of a segment whose owner is gone, over any number of passes of `gc`. -/
namespace Shmfx

open Lts

/-- The linked objects, and a well-formed registry with the entries it has. -/
structure ListedStore where
  store : SegmentStore
  entries : EntryMap
  inv : RegistryInv store.registry entries
  /-- The registry does not list itself. -/
  unlisted : entries registryName = none

inductive PassEvent
  | pass (env : GcEnv)
  | elsewhere

def PassEvent.env : PassEvent → Option GcEnv
  | .pass env => some env
  | .elsewhere => none

/-- The pass finds the owner dead, and its own calls succeed. -/
structure Deserted (name : Name) (object : SegmentMemory) (env : GcEnv) : Prop where
  dead : ownerIsDead env.processes object.header env.now = true
  opens : env.openFails name = false
  maps : ∀ name, env.mapFails name = false
  locks : ∀ name, env.locks name = true

/-- The pass comes `SEGMENT_ZOMBIE_NS` after the segment was seen last, and finds nobody who maps
it. -/
def Expired (name : Name) (seen : UInt64) (env : GcEnv) : Prop :=
  seen ≠ 0 ∧ seen.toNat + segmentZombieNs.toNat < env.now.toNat ∧ env.mapped name = false

instance (name : Name) (seen : UInt64) (env : GcEnv) : Decidable (Expired name seen env) :=
  inferInstanceAs (Decidable (_ ∧ _ ∧ _))

/-- The passes that unlink a deserted segment. -/
def Doomed (name : Name) (entry : RegistryEntry) (object : SegmentMemory) (envs : List GcEnv) :
    Prop :=
  if object.header.refCount = 0 then envs ≠ []
  else if object.header.state = SegmentState.active.code then
    ∃ first rest, envs = first :: rest ∧ ∃ env ∈ rest, Expired name first.now env
  else
    object.header.state = SegmentState.draining.code ∧
      ∃ env ∈ envs, Expired name entry.lastSeenNs env

/-- What is left of a deserted segment after some passes. -/
structure Fate (name : Name) (entry : RegistryEntry) (object : SegmentMemory) (envs : List GcEnv)
    (o : Option SegmentMemory) (e : Option RegistryEntry) : Prop where
  unlinked : o = none ↔ Doomed name entry object envs
  forgotten : e = none ↔ Doomed name entry object envs
  /-- Until then an active segment that is held drains from the first pass on, and any other is
  left alone. -/
  kept : ∀ object', o = some object' → object' =
    if object.header.state = SegmentState.active.code ∧ envs ≠ [] then object.setState .draining
    else object

section Uniqueness

variable {p : RegistryPayload} {m m' : EntryMap}

end Uniqueness

section Local

variable {name : Name} {c c' : ListedStore} {log : List PassEvent} {e : PassEvent}

def ListedStore.at (c : ListedStore) (name : Name) : Option SegmentMemory × Option RegistryEntry :=
  (c.store.names name, c.entries name)

end Local

/-- A segment the passes look at: its entry is as the registry keeps it, and its header passes. -/
structure Watched (name : Name) (entry : RegistryEntry) (object : SegmentMemory) : Prop where
  named : entryName entry = name
  content : entry.content = entry
  listed : ¬ (name = [] ∨ name = registryName)
  sound : ¬ Broken object

section Pass

variable {name : Name} {entry : RegistryEntry} {object : SegmentMemory} {env : GcEnv}
  {envs : List GcEnv}

theorem Watched.drained (h : Watched name entry object) (now : UInt64) :
    Watched name { entry with lastSeenNs := now } (object.setState .draining) := by
  refine ⟨h.named, ?_, h.listed, h.sound⟩
  exact congrArg (fun e : RegistryEntry => { e with lastSeenNs := now }) h.content

theorem Deserted.drained (h : Deserted name object env) :
    Deserted name (object.setState .draining) env := ⟨h.dead, h.opens, h.maps, h.locks⟩

theorem Fate.gone (h : Doomed name entry object envs) : Fate name entry object envs none none := by
  refine ⟨iff_of_true rfl h, iff_of_true rfl h, ?_⟩
  intro object' ho
  cases ho

end Pass

end Shmfx
