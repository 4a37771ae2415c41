import Shmfx.Registry.Payload
import Shmfx.Segment.Header

/-! Name grammar and quotas of `ShmManager::create` (`shm_security.cpp`). -/
namespace Shmfx

def asciiBytes (chars : List Char) : Name := chars.map fun c => UInt8.ofNat c.toNat

/-- `REGISTRY_NAME`. -/
def registryName : Name :=
  asciiBytes ['/', 's', 'h', 'm', 'f', 'x', '.', 'r', 'e', 'g', 'i', 's', 't', 'r', 'y']

/-- `REGISTRY_LOCK_NAME`. -/
def registryLockName : Name := registryName ++ asciiBytes ['.', 'l', 'o', 'c', 'k']

/-- The prefix every segment name starts with. -/
def nameStart : Name := asciiBytes ['/', 's', 'h', 'm', 'f', 'x', '.']

/-- `kAllowedNamespaces`. -/
def allowedNamespaces : List Name :=
  [asciiBytes ['l', 'o', 'g'], asciiBytes ['t', 'l', 'm'], asciiBytes ['k', 'v'],
    asciiBytes ['a', 'p', 'p'], asciiBytes ['s', 'y', 's']]

/-- `MAX_SEGMENT_SIZE`. -/
def maxSegmentSize : UInt64 := 0x40000000

/-- `TOTAL_QUOTA_BYTES`. -/
def totalQuotaBytes : UInt64 := 0x100000000

/-- `kMaxNamespaceSegments`. -/
def maxNamespaceSegments : UInt32 := 1024

inductive SegmentType
  | raw
  | recordRing
  | kv
  | registry
  deriving DecidableEq, Repr

/-- The word a `SegmentType` is stored as. -/
def SegmentType.code : SegmentType → UInt32
  | .raw => 1
  | .recordRing => 2
  | .kv => 3
  | .registry => 4

/-- `CreateOptions`, without the permission bits that only `fchmod` sees. -/
structure CreateOptions where
  name : Name
  type : SegmentType
  totalSize : UInt64
  metaSize : UInt64
  flags : UInt32

structure ParsedName where
  ns : Name
  leaf : Name
  bootstrap : Bool
  deriving DecidableEq

def isLower (c : UInt8) : Bool := 97 ≤ c && c ≤ 122

def isNameTailChar (c : UInt8) : Bool :=
  isLower c || (48 ≤ c && c ≤ 57) || c == 95 || c == 45

/-- `name.find(c, pos)`. -/
def findFrom (name : Name) (c : UInt8) (pos : Nat) : Option Nat :=
  ((name.drop pos).findIdx? (· == c)).map (· + pos)

def parseAndValidateName (name : Name) : Except ErrorCode ParsedName :=
  if name = registryName ∨ name = registryLockName then .ok ⟨[], name, true⟩
  else if name.length ≥ nameBytes ∨ name.take nameStart.length ≠ nameStart then .error .invalidName
  else
    match findFrom name 46 nameStart.length with
    | none => .error .invalidName
    | some dot =>
      let ns := (name.drop nameStart.length).take (dot - nameStart.length)
      let leaf := name.drop (dot + 1)
      if ns.length < 2 ∨ ns.length > 15 ∨ leaf = [] ∨ leaf.length > 39 then .error .invalidName
      else if !isLower (ns.headD 0) || !isLower (leaf.headD 0) then .error .invalidName
      else if !ns.tail.all isNameTailChar || !leaf.tail.all isNameTailChar then .error .invalidName
      else if ns ∉ allowedNamespaces then .error .permissionDenied
      else .ok ⟨ns, leaf, false⟩

/-- One turn of the loop over the registered entries: bytes so far, segments of the namespace. -/
def quotaStep (parsed : ParsedName) (acc : UInt64 × UInt32) (entry : RegistryEntry) :
    UInt64 × UInt32 :=
  (acc.1 + entry.totalSize,
    if !parsed.bootstrap &&
        (entryName entry).take (7 + parsed.ns.length) == nameStart ++ parsed.ns then acc.2 + 1
    else acc.2)

def validateCreateSecurity (options : CreateOptions) (existing : List RegistryEntry) :
    Except ErrorCode Unit :=
  match parseAndValidateName options.name with
  | .error e => .error e
  | .ok parsed =>
    if options.totalSize < headerSize + options.metaSize ∨ options.totalSize > maxSegmentSize then
      .error .quotaExceeded
    else
      let (totalBytes, namespaceCount) := existing.foldl (quotaStep parsed) (options.totalSize, 0)
      if totalBytes > totalQuotaBytes ∨ namespaceCount ≥ maxNamespaceSegments then
        .error .quotaExceeded
      else .ok ()

theorem zero_not_mem_of_tail {part : Name} (hh : isLower (part.headD 0) = true)
    (ht : part.tail.all isNameTailChar = true) : 0 ∉ part := by
  cases part with
  | nil => exact List.not_mem_nil
  | cons c part =>
    intro h0
    rcases List.mem_cons.mp h0 with rfl | h0
    · cases hh
    · exact absurd (List.all_eq_true.mp ht 0 h0) (by decide)

theorem findIdx?_of_notMem {text : Name} {c : UInt8} (h : c ∉ text) :
    text.findIdx? (· == c) = none := by
  rw [List.findIdx?_eq_none_iff]
  intro d hd
  rw [beq_eq_false_iff_ne]
  rintro rfl
  exact h hd

theorem findIdx?_append_cons {before behind : Name} {c : UInt8} (h : c ∉ before) :
    (before ++ c :: behind).findIdx? (· == c) = some before.length := by
  rw [List.findIdx?_append, findIdx?_of_notMem h]
  simp [List.findIdx?_cons]

/-- `find` stops at the first such character behind `pos`. -/
theorem findFrom_append_cons {name before behind : Name} {c : UInt8} {pos : Nat}
    (hdrop : name.drop pos = before ++ c :: behind) (h : c ∉ before) :
    findFrom name c pos = some (before.length + pos) := by
  rw [findFrom, hdrop, findIdx?_append_cons h, Option.map_some]

/-- `find` splits the name at the character it found. -/
theorem findFrom_split {name : Name} {c : UInt8} {pos dot : Nat}
    (h : findFrom name c pos = some dot) :
    name = name.take pos ++ ((name.drop pos).take (dot - pos) ++ c :: name.drop (dot + 1)) := by
  obtain ⟨i, hi, rfl⟩ := Option.map_eq_some_iff.mp h
  obtain ⟨hlt, hc, -⟩ := List.findIdx?_eq_some_iff_getElem.mp hi
  have hsplit : name.drop pos = (name.drop pos).take i ++ c :: (name.drop pos).drop (i + 1) := by
    conv_lhs => rw [← List.take_append_drop i (name.drop pos), List.drop_eq_getElem_cons hlt]
    rw [eq_of_beq hc]
  have hdrop : (name.drop pos).drop (i + 1) = name.drop (i + pos + 1) := by
    rw [List.drop_drop]
    congr 1
    omega
  rw [Nat.add_sub_cancel, ← hdrop, ← hsplit, List.take_append_drop]

/-- An accepted name fits its field with the NUL, and has none inside. -/
theorem parseAndValidateName_fits {name : Name} {parsed : ParsedName}
    (h : parseAndValidateName name = .ok parsed) : name.length < nameBytes ∧ 0 ∉ name := by
  unfold parseAndValidateName at h
  split_ifs at h with hboot hlen
  · rcases hboot with rfl | rfl <;> decide
  · obtain ⟨hlen, hstart⟩ := not_or.mp hlen
    refine ⟨Nat.lt_of_not_ge hlen, ?_⟩
    cases hdot : findFrom name 46 nameStart.length with
    | none =>
      rw [hdot] at h
      cases h
    | some dot =>
      simp only [hdot] at h
      split_ifs at h with _ hhead htail
      simp only [Bool.or_eq_true, Bool.not_eq_true', not_or, Bool.not_eq_false] at hhead htail
      rw [findFrom_split hdot, not_not.mp hstart]
      simp only [List.mem_append, List.mem_cons, not_or]
      exact ⟨by decide, zero_not_mem_of_tail hhead.1 htail.1, by decide,
        zero_not_mem_of_tail hhead.2 htail.2⟩

/-- An accepted name is read back from the name field of a header or an entry. -/
theorem fixedNameView_of_parsed {name : Name} {parsed : ParsedName}
    (h : parseAndValidateName name = .ok parsed) : fixedNameView (copyName name) = name := by
  obtain ⟨hlen, hzero⟩ := parseAndValidateName_fits h
  exact fixedNameView_copyName hlen hzero

theorem validateCreateSecurity_parsed {options : CreateOptions} {existing : List RegistryEntry}
    (h : validateCreateSecurity options existing = .ok ()) :
    ∃ parsed, parseAndValidateName options.name = .ok parsed := by
  unfold validateCreateSecurity at h
  cases hp : parseAndValidateName options.name with
  | error e =>
    rw [hp] at h
    cases h
  | ok parsed => exact ⟨parsed, rfl⟩

/-- What the size check lets through. -/
theorem validateCreateSecurity_sizes {options : CreateOptions} {existing : List RegistryEntry}
    (h : validateCreateSecurity options existing = .ok ()) :
    headerSize + options.metaSize ≤ options.totalSize ∧ options.totalSize ≤ maxSegmentSize := by
  obtain ⟨parsed, hp⟩ := validateCreateSecurity_parsed h
  unfold validateCreateSecurity at h
  simp only [hp] at h
  split_ifs at h with hsize
  simpa only [not_or, UInt64.not_lt, gt_iff_lt] using hsize

end Shmfx
