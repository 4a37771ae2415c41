import Mathlib.Data.List.Infix
import Shmfx.Janitor.Undisturbed
import Shmfx.Lib.Decimal

/-! `any_process_maps_segment`, and what the zombie branch of `gc` may conclude from it. -/
namespace Shmfx

/-- An entry of `/proc`: its name, and the lines of its `maps` file if that can be read. -/
structure ProcDir where
  name : List UInt8
  maps : Option (List (List UInt8))

/-- `/proc` as `opendir` and `readdir` show it, if it can be opened. -/
abbrev ProcState := Option (List ProcDir)

def devShm : List UInt8 := asciiBytes ['/', 'd', 'e', 'v', '/', 's', 'h', 'm']

def shmMapsToken (name : Name) : List UInt8 :=
  devShm ++ (if name ≠ [] ∧ name.headD 0 ≠ 47 then [47] else []) ++ name

def isPidDirName (name : List UInt8) : Bool := name ≠ [] && name.all Decimal.isDigit

/-- The inner loop, over the lines of one file. -/
def scanMaps (token : List UInt8) : List (List UInt8) → Bool
  | [] => false
  | line :: lines => if token <:+: line then true else scanMaps token lines

/-- The outer loop; a file that does not open has no lines. -/
def scanProc (token : List UInt8) : List ProcDir → Bool
  | [] => false
  | dir :: dirs =>
    if isPidDirName dir.name = false then scanProc token dirs
    else if scanMaps token (dir.maps.getD []) then true
    else scanProc token dirs

def anyProcessMapsSegment (proc : ProcState) (name : Name) : Bool :=
  match proc with
  | none => true
  | some dirs => scanProc (shmMapsToken name) dirs

/-- Every process directory was inspected, and none shows the path of the object. -/
def NoneMaps (proc : ProcState) (name : Name) : Prop :=
  ∃ dirs, proc = some dirs ∧ ∀ dir ∈ dirs, isPidDirName dir.name = true →
    ∃ lines, dir.maps = some lines ∧ ∀ line ∈ lines, ¬ (devShm ++ name) <:+: line

/-- No process directory hides its `maps` file. -/
def AllReadable (proc : ProcState) : Prop :=
  ∀ dirs, proc = some dirs → ∀ dir ∈ dirs, isPidDirName dir.name = true → dir.maps ≠ none

section Proofs

variable {token : List UInt8} {lines : List (List UInt8)} {dirs : List ProcDir} {name : Name}
  {parsed : ParsedName} {proc : ProcState}

theorem scanMaps_eq_false : scanMaps token lines = false ↔ ∀ line ∈ lines, ¬ token <:+: line := by
  induction lines with
  | nil => exact ⟨fun _ => nofun, fun _ => rfl⟩
  | cons line lines ih =>
    rw [scanMaps, List.forall_mem_cons, ← ih]
    by_cases h : token <:+: line
    · rw [if_pos h]
      exact ⟨nofun, fun hn => absurd h hn.1⟩
    · rw [if_neg h]
      exact ⟨fun hs => ⟨h, hs⟩, And.right⟩

/-- The scan is silent exactly on what it could read. -/
theorem scanProc_eq_false : scanProc token dirs = false ↔
    ∀ dir ∈ dirs, isPidDirName dir.name = true → ∀ line ∈ dir.maps.getD [], ¬ token <:+: line := by
  induction dirs with
  | nil => exact ⟨fun _ => nofun, fun _ => rfl⟩
  | cons dir dirs ih =>
    rw [scanProc, List.forall_mem_cons, ← ih]
    cases hpid : isPidDirName dir.name with
    | false => exact ⟨fun hs => ⟨nofun, hs⟩, And.right⟩
    | true =>
      rw [if_neg (by decide)]
      cases hscan : scanMaps token (dir.maps.getD []) with
      | false => exact ⟨fun hs => ⟨fun _ => scanMaps_eq_false.mp hscan, hs⟩, And.right⟩
      | true =>
        refine ⟨nofun, fun hn => ?_⟩
        rw [scanMaps_eq_false.mpr (hn.1 rfl)] at hscan
        cases hscan

/-- An accepted name starts with a slash, so the token is its path. -/
theorem shmMapsToken_eq (hname : parseAndValidateName name = .ok parsed) :
    shmMapsToken name = devShm ++ name := by
  have hslash : name.headD 0 = 47 := by
    unfold parseAndValidateName at hname
    split_ifs at hname with hboot hstart
    · rcases hboot with rfl | rfl
      · rfl
      · rfl
    · have htake := not_not.mp (not_or.mp hstart).2
      cases name with
      | nil => cases htake
      | cons c name => exact (List.cons.inj htake).1
  rw [shmMapsToken, if_neg fun h => h.2 hslash, List.append_nil]

theorem noneMaps_iff (hname : parseAndValidateName name = .ok parsed)
    (hscan : anyProcessMapsSegment proc name = false) : NoneMaps proc name ↔ AllReadable proc := by
  cases proc with
  | none => cases hscan
  | some dirs =>
    have hlines := scanProc_eq_false.mp hscan
    rw [shmMapsToken_eq hname] at hlines
    constructor
    · rintro ⟨_, hdirs, hsafe⟩ _ hdirs' dir hdir hpid
      cases hdirs
      cases hdirs'
      obtain ⟨lines, hmaps, -⟩ := hsafe dir hdir hpid
      rw [hmaps]
      exact Option.some_ne_none lines
    · intro hreadable
      refine ⟨dirs, rfl, fun dir hdir hpid => ?_⟩
      obtain ⟨lines, hmaps⟩ := Option.ne_none_iff_exists'.mp (hreadable dirs rfl dir hdir hpid)
      refine ⟨lines, hmaps, ?_⟩
      have hdirLines := hlines dir hdir hpid
      rwa [hmaps] at hdirLines

/-- Only a scan that found nothing lets `gc` reap a zombie. -/
theorem mapped_of_reap {env : GcEnv} {entry : RegistryEntry} {object : SegmentMemory}
    (h : verdict env entry (some object) = .reap) : env.mapped (entryName entry) = false := by
  by_contra hne
  have hmapped : env.mapped (entryName entry) = true := Bool.not_eq_false _ ▸ hne
  have hjudge : judge env entry object ≠ .reap := by
    unfold judge
    split
    · split <;> exact nofun
    · exact nofun
    · rw [if_pos hmapped]
      exact nofun
    · exact nofun
  refine absurd h ?_
  unfold verdict
  split
  · exact nofun
  · dsimp only
    split
    · exact nofun
    · split
      · exact nofun
      · split
        · exact nofun
        · split
          · exact nofun
          · exact hjudge

/-- When the scan, or the `gc` that relies on it, takes a segment for unmapped, every process was
inspected exactly if no `maps` file was unreadable. -/
theorem anyProcessMapsSegment_safe_iff (hname : parseAndValidateName name = .ok parsed)
    (proc : ProcState) :
    (anyProcessMapsSegment proc name = false → (NoneMaps proc name ↔ AllReadable proc)) ∧
      ∀ (env : GcEnv) (entry : RegistryEntry) (object : SegmentMemory),
        env.mapped = anyProcessMapsSegment proc → entryName entry = name →
        verdict env entry (some object) = .reap → (NoneMaps proc name ↔ AllReadable proc) := by
  refine ⟨noneMaps_iff hname, ?_⟩
  rintro env entry object hmapped rfl hreap
  apply noneMaps_iff hname
  rw [← hmapped]
  exact mapped_of_reap hreap

section Zombies

def zombieName : Name := nameStart ++ asciiBytes ['a', 'p', 'p', '.', 'a']

def zombieEntry : RegistryEntry := { zeroEntry with name := copyName zombieName, lastSeenNs := 1 }

/-- A draining segment with one user left, whose owner is still there. -/
def zombieObject : SegmentMemory :=
  ⟨512,
    { halfPayload 256 with ownerPid := 1, refCount := 1, state := SegmentState.draining.code }⟩

/-- An hour later, with the answers of `/proc`. -/
def zombieEnv (proc : ProcState) : GcEnv :=
  ⟨fun _ => some none, segmentZombieNs + 2, fun _ => false, fun _ => false, fun _ => true,
    anyProcessMapsSegment proc⟩

/-- One process, called 42, with the given `maps` file. -/
def oneProcess (maps : Option (List (List UInt8))) : ProcState := some [⟨Decimal.numeral 42, maps⟩]

theorem entryName_zombieEntry : entryName zombieEntry = zombieName :=
  fixedNameView_copyName (by decide) (by decide)

theorem zombie_reaped {proc : ProcState} (h : anyProcessMapsSegment proc zombieName = false) :
    verdict (zombieEnv proc) zombieEntry (some zombieObject) = .reap := by
  have halive : ownerIsDead (zombieEnv proc).processes zombieObject.header
      (zombieEnv proc).now = false := rfl
  have hold : zombieObject.header.state = SegmentState.draining.code ∧
      zombieEntry.lastSeenNs ≠ 0 ∧ segmentZombieNs + 2 > zombieEntry.lastSeenNs ∧
      segmentZombieNs + 2 - zombieEntry.lastSeenNs > segmentZombieNs := by decide
  have hbranch : sweepBranch (zombieEnv proc).now zombieEntry 0 false
      zombieObject.header.refCount zombieObject.header.state = some (.scanning 0) := by
    have hdead {p : Prop} : ¬ (false = true ∧ p) := fun h => Bool.false_ne_true h.1
    rw [sweepBranch, if_neg hdead, if_neg hdead]
    exact if_pos hold
  have hskip : ¬ (zombieName = [] ∨ zombieName = registryName) := by decide
  have hvalid : janitorHeaderValid zombieObject.header zombieObject.size = true := rfl
  have hmapped : (zombieEnv proc).mapped zombieName = false := h
  have hopen : ¬ (zombieEnv proc).openFails zombieName = true := Bool.false_ne_true
  have hmap : ¬ (zombieEnv proc).mapFails zombieName = true := Bool.false_ne_true
  have hsize : ¬ zombieObject.size < headerSize := by decide
  rw [verdict, entryName_zombieEntry, if_neg hskip, if_neg hopen, if_neg hsize, if_neg hmap, hvalid,
    if_neg (by decide), judge, halive, hbranch, entryName_zombieEntry]
  exact if_neg (Bool.eq_false_iff.mp hmapped)

theorem anyProcessMapsSegment_safe_idle :
    anyProcessMapsSegment (oneProcess (some [asciiBytes ['[', 'v', 'd', 's', 'o', ']']]))
        zombieName = false ∧
      (NoneMaps (oneProcess (some [asciiBytes ['[', 'v', 'd', 's', 'o', ']']])) zombieName ↔
        AllReadable (oneProcess (some [asciiBytes ['[', 'v', 'd', 's', 'o', ']']]))) := by
  have hname : parseAndValidateName zombieName = .ok ⟨asciiBytes ['a', 'p', 'p'], [97], false⟩ :=
    rfl
  have hscan : anyProcessMapsSegment
      (oneProcess (some [asciiBytes ['[', 'v', 'd', 's', 'o', ']']])) zombieName = false := by
    decide
  exact ⟨hscan, (anyProcessMapsSegment_safe_iff hname _).1 hscan⟩

/-- A turn of `gc` that reaps unlinks the object. -/
theorem gcEntry_reaped {env : GcEnv} {s : SegmentStore} {entry : RegistryEntry}
    (h : verdict env entry (s.names (entryName entry)) = .reap) :
    (gcEntry env s entry).names (entryName entry) = none := by
  rw [gcEntry_eq_actions, h]
  exact Function.update_self ..

/-- A process whose `maps` file cannot be read is taken for one that maps nothing, and the segment
is unlinked. -/
theorem unreadable_maps_reaped :
    anyProcessMapsSegment (oneProcess none) zombieName = false ∧
      ¬ NoneMaps (oneProcess none) zombieName ∧
      ∀ s : SegmentStore, s.names zombieName = some zombieObject →
        (gcEntry (zombieEnv (oneProcess none)) s zombieEntry).names zombieName = none := by
  have hscan : anyProcessMapsSegment (oneProcess none) zombieName = false := by decide
  refine ⟨hscan, ?_, fun s hs => ?_⟩
  · rintro ⟨dirs, hdirs, hsafe⟩
    cases hdirs
    obtain ⟨lines, hmaps, -⟩ := hsafe _ List.mem_cons_self (by decide)
    cases hmaps
  · rw [← entryName_zombieEntry] at hs ⊢
    apply gcEntry_reaped
    rw [hs]
    exact zombie_reaped hscan

end Zombies

end Proofs

end Shmfx
