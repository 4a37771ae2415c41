import Shmfx.Lib.Regex
import Shmfx.Security.Policy

/-! `parse_and_validate_name` against the regular expression of the naming rule. -/
namespace Shmfx

open Regex

/-- `[a-z]`. -/
def lowerLetters : List UInt8 := (List.range' 97 26).map UInt8.ofNat

/-- `[a-z0-9_-]`. -/
def tailCharacters : List UInt8 :=
  lowerLetters ++ (List.range' 48 10).map UInt8.ofNat ++ asciiBytes ['_', '-']

/-- `[a-z][a-z0-9_-]{lo,hi}`. -/
def wordRegex (lo hi : Nat) : RegularExpression UInt8 :=
  oneOf lowerLetters * between (oneOf tailCharacters) lo hi

def namespaceRegex : RegularExpression UInt8 := wordRegex 1 14

def leafRegex : RegularExpression UInt8 := wordRegex 0 38

/-- `^/shmfx\.[a-z][a-z0-9_-]{1,14}\.[a-z][a-z0-9_-]{0,38}$`. -/
def nameRegex : RegularExpression UInt8 :=
  literal nameStart * (namespaceRegex * (.char 46 * leafRegex))

/-- The names outside the regular expression's rule. -/
def Bootstrap (name : Name) : Prop := name = registryName ∨ name = registryLockName

/-- The two parts the regular expression finds in a name. -/
structure Reads (name ns leaf : Name) : Prop where
  joined : nameStart ++ ns ++ asciiBytes ['.'] ++ leaf = name
  ns : ns ∈ namespaceRegex.matches'
  leaf : leaf ∈ leafRegex.matches'

/-- What `parse_and_validate_name` decides on a name. -/
structure NameDecided (name : Name) : Prop where
  accepted : (∃ parsed, parseAndValidateName name = .ok parsed) ↔
    Bootstrap name ∨ ∃ ns leaf, Reads name ns leaf ∧ ns ∈ allowedNamespaces
  denied : parseAndValidateName name = .error .permissionDenied ↔
    ¬ Bootstrap name ∧ name ∈ nameRegex.matches' ∧
      ∀ ns leaf, Reads name ns leaf → ns ∉ allowedNamespaces
  invalid : parseAndValidateName name = .error .invalidName ↔
    ¬ Bootstrap name ∧ name ∉ nameRegex.matches'
  parts : ∀ parsed, parseAndValidateName name = .ok parsed → ¬ Bootstrap name →
    parsed.bootstrap = false ∧ nameStart ++ parsed.ns ++ asciiBytes ['.'] ++ parsed.leaf = name
  stored : ∀ parsed, parseAndValidateName name = .ok parsed →
    fixedNameView (copyName name) = name

section Words

variable {word : Name} {lo hi : Nat} {c : UInt8}

theorem mem_byteRange {start n : Nat} (h : start + n ≤ 256) :
    c ∈ (List.range' start n).map UInt8.ofNat ↔ start ≤ c.toNat ∧ c.toNat < start + n := by
  rw [List.mem_map]
  constructor
  · rintro ⟨k, hk, rfl⟩
    obtain ⟨hlo, hhi⟩ := List.mem_range'_1.mp hk
    rw [UInt8.toNat_ofNat_of_lt' (by rw [UInt8.size]; omega)]
    exact ⟨hlo, hhi⟩
  · intro hc
    exact ⟨c.toNat, List.mem_range'_1.mpr hc, UInt8.ofNat_toNat⟩

theorem mem_lowerLetters : c ∈ lowerLetters ↔ isLower c = true := by
  rw [lowerLetters, mem_byteRange (by decide)]
  simp only [isLower, Bool.and_eq_true, decide_eq_true_eq, UInt8.le_iff_toNat_le,
    UInt8.reduceToNat]
  omega

theorem mem_tailCharacters : c ∈ tailCharacters ↔ isNameTailChar c = true := by
  have hsigns : c ∈ asciiBytes ['_', '-'] ↔ c = 95 ∨ c = 45 := by
    simp [asciiBytes]
  rw [tailCharacters, List.mem_append, List.mem_append, mem_lowerLetters,
    mem_byteRange (by decide), hsigns]
  simp only [isNameTailChar, Bool.or_eq_true, Bool.and_eq_true, decide_eq_true_eq,
    UInt8.le_iff_toNat_le, UInt8.reduceToNat, beq_iff_eq, or_assoc, Nat.lt_succ_iff]

/-- The words of the regular expression, in the terms of the scanning code. -/
theorem mem_wordRegex (h : lo ≤ hi) : word ∈ (wordRegex lo hi).matches' ↔
    lo + 1 ≤ word.length ∧ word.length ≤ hi + 1 ∧ isLower (word.headD 0) = true ∧
      word.tail.all isNameTailChar = true := by
  rw [wordRegex, mem_comp]
  constructor
  · rintro ⟨a, b, rfl, ha, hb⟩
    obtain ⟨c, hc, rfl⟩ := mem_oneOf.mp ha
    obtain ⟨hlo, hhi, hall⟩ := (mem_between_oneOf h).mp hb
    refine ⟨Nat.succ_le_succ hlo, Nat.succ_le_succ hhi, mem_lowerLetters.mp hc, ?_⟩
    exact List.all_eq_true.mpr fun d hd => mem_tailCharacters.mp (hall d hd)
  · rintro ⟨hlo, hhi, hhead, htail⟩
    cases word with
    | nil => cases hhead
    | cons c word =>
      refine ⟨[c], word, rfl, mem_oneOf.mpr ⟨c, mem_lowerLetters.mpr hhead, rfl⟩, ?_⟩
      refine (mem_between_oneOf h).mpr
        ⟨Nat.le_of_succ_le_succ hlo, Nat.le_of_succ_le_succ hhi, ?_⟩
      intro d hd
      exact mem_tailCharacters.mpr (List.all_eq_true.mp htail d hd)

/-- No word has a dot inside. -/
theorem dot_notMem_word (h : lo ≤ hi) (hw : word ∈ (wordRegex lo hi).matches') : 46 ∉ word := by
  obtain ⟨-, -, hhead, htail⟩ := (mem_wordRegex h).mp hw
  cases word with
  | nil => exact List.not_mem_nil
  | cons c word =>
    intro hdot
    rcases List.mem_cons.mp hdot with rfl | hdot
    · exact absurd (show isLower 46 = true from hhead) (by decide)
    · exact absurd (List.all_eq_true.mp htail 46 hdot) (by decide)

end Words

section Names

variable {name ns leaf ns' leaf' : Name}

theorem reads_iff_mem : (∃ ns leaf, Reads name ns leaf) ↔ name ∈ nameRegex.matches' := by
  rw [nameRegex, mem_comp]
  constructor
  · rintro ⟨ns, leaf, rfl, hns, hleaf⟩
    refine ⟨nameStart, ns ++ 46 :: leaf, ?_, mem_literal.mpr rfl, ?_⟩
    · rw [List.append_assoc, List.append_assoc]
      rfl
    · refine mem_comp.mpr ⟨ns, 46 :: leaf, rfl, hns, ?_⟩
      exact mem_comp.mpr ⟨[46], leaf, rfl, mem_char.mpr rfl, hleaf⟩
  · rintro ⟨start, rest, rfl, hstart, hrest⟩
    obtain ⟨ns, rest, rfl, hns, hrest⟩ := mem_comp.mp hrest
    obtain ⟨dot, leaf, rfl, hdot, hleaf⟩ := mem_comp.mp hrest
    rw [mem_literal.mp hstart, mem_char.mp hdot]
    refine ⟨ns, leaf, ?_, hns, hleaf⟩
    rw [List.append_assoc, List.append_assoc]
    rfl

/-- The scan for the dot stops behind the namespace. -/
theorem findFrom_dot (hdot : 46 ∉ ns) :
    findFrom (nameStart ++ ns ++ asciiBytes ['.'] ++ leaf) 46 nameStart.length =
      some (ns.length + nameStart.length) := by
  have hdrop : (nameStart ++ ns ++ asciiBytes ['.'] ++ leaf).drop nameStart.length =
      ns ++ 46 :: leaf := by
    rw [List.append_assoc, List.append_assoc, List.drop_left]
    rfl
  exact findFrom_append_cons hdrop hdot

theorem Reads.split (h : Reads name ns leaf) :
    findFrom name 46 nameStart.length = some (ns.length + nameStart.length) ∧
      (name.drop nameStart.length).take (ns.length + nameStart.length - nameStart.length) = ns ∧
      name.drop (ns.length + nameStart.length + 1) = leaf := by
  obtain ⟨rfl, hns, -⟩ := h
  refine ⟨findFrom_dot (dot_notMem_word (by decide) hns), ?_, ?_⟩
  · rw [Nat.add_sub_cancel, List.append_assoc, List.append_assoc, List.drop_left, List.take_left]
  · have hlen : (nameStart ++ ns ++ asciiBytes ['.']).length =
        ns.length + nameStart.length + 1 := by
      simp only [List.length_append, asciiBytes, List.length_map, List.length_singleton]
      omega
    rw [← hlen, List.drop_left]

theorem Reads.unique (h : Reads name ns leaf) (h' : Reads name ns' leaf') :
    ns = ns' ∧ leaf = leaf' := by
  obtain ⟨hdot, hns, hleaf⟩ := h.split
  obtain ⟨hdot', hns', hleaf'⟩ := h'.split
  have hlen : ns.length + nameStart.length = ns'.length + nameStart.length :=
    Option.some.inj (hdot.symm.trans hdot')
  rw [hlen] at hns hleaf
  exact ⟨hns.symm.trans hns', hleaf.symm.trans hleaf'⟩

theorem Reads.length_lt (h : Reads name ns leaf) : name.length < nameBytes := by
  obtain ⟨rfl, hns, hleaf⟩ := h
  obtain ⟨-, hns, -⟩ := (mem_wordRegex (by decide)).mp hns
  obtain ⟨-, hleaf, -⟩ := (mem_wordRegex (by decide)).mp hleaf
  have hstart : nameStart.length = 7 := rfl
  simp only [List.length_append, asciiBytes, List.length_map, List.length_singleton, nameBytes]
  omega

/-- A name that matches is decided by its namespace alone. -/
theorem parseAndValidateName_of_reads (hb : ¬ Bootstrap name) (h : Reads name ns leaf) :
    parseAndValidateName name =
      if ns ∈ allowedNamespaces then .ok ⟨ns, leaf, false⟩ else .error .permissionDenied := by
  obtain ⟨hdot, hns, hleaf⟩ := h.split
  have hstart : name.take nameStart.length = nameStart := by
    rw [← h.joined, List.append_assoc, List.append_assoc, List.take_left]
  obtain ⟨hnslo, hnshi, hnshead, hnstail⟩ := (mem_wordRegex (by decide)).mp h.ns
  obtain ⟨hleaflo, hleafhi, hleafhead, hleaftail⟩ := (mem_wordRegex (by decide)).mp h.leaf
  have hlong : ¬ (name.length ≥ nameBytes ∨ name.take nameStart.length ≠ nameStart) := by
    rintro (hlen | hne)
    · exact absurd h.length_lt (Nat.not_lt.mpr hlen)
    · exact hne hstart
  have hsize : ¬ (ns.length < 2 ∨ ns.length > 15 ∨ leaf = [] ∨ leaf.length > 39) := by
    have hnil : leaf ≠ [] := List.ne_nil_of_length_pos (by omega)
    simp only [hnil, false_or]
    omega
  unfold parseAndValidateName
  rw [if_neg (not_or.mpr (not_or.mp hb)), if_neg hlong]
  simp only [hdot, hns, hleaf]
  rw [if_neg hsize, if_neg (by rw [hnshead, hleafhead]; decide),
    if_neg (by rw [hnstail, hleaftail]; decide)]
  by_cases hallowed : ns ∈ allowedNamespaces
  · rw [if_neg (not_not.mpr hallowed), if_pos hallowed]
  · rw [if_pos hallowed, if_neg hallowed]

/-- The three checks of the scan make words of both parts. -/
theorem words_of_checks
    (hsize : ¬ (ns.length < 2 ∨ ns.length > 15 ∨ leaf = [] ∨ leaf.length > 39))
    (hhead : ¬ (!isLower (ns.headD 0) || !isLower (leaf.headD 0)) = true)
    (htail : ¬ (!ns.tail.all isNameTailChar || !leaf.tail.all isNameTailChar) = true) :
    ns ∈ namespaceRegex.matches' ∧ leaf ∈ leafRegex.matches' := by
  simp only [Bool.or_eq_true, Bool.not_eq_true', not_or, Bool.not_eq_false] at hhead htail
  obtain ⟨hlo, hhi, hnil, hlong⟩ := by simpa only [not_or] using hsize
  have hpos : 0 < leaf.length := List.length_pos_iff.mpr hnil
  constructor
  · exact (mem_wordRegex (by decide)).mpr ⟨by omega, by omega, hhead.1, htail.1⟩
  · exact (mem_wordRegex (by decide)).mpr ⟨by omega, by omega, hhead.2, htail.2⟩

/-- Everything the scan does not reject as malformed matches. -/
theorem exists_reads (hb : ¬ Bootstrap name)
    (h : parseAndValidateName name ≠ .error .invalidName) : ∃ ns leaf, Reads name ns leaf := by
  unfold parseAndValidateName at h
  rw [if_neg (not_or.mpr (not_or.mp hb))] at h
  split_ifs at h with hlong
  · exact absurd rfl h
  · obtain ⟨-, hstart⟩ := not_or.mp hlong
    cases hdot : findFrom name 46 nameStart.length with
    | none =>
      rw [hdot] at h
      exact absurd rfl h
    | some dot =>
      simp only [hdot] at h
      have hsplit := findFrom_split hdot
      rw [not_not.mp hstart] at hsplit
      generalize (name.drop nameStart.length).take (dot - nameStart.length) = ns at h hsplit
      generalize name.drop (dot + 1) = leaf at h hsplit
      have hwords : ns ∈ namespaceRegex.matches' ∧ leaf ∈ leafRegex.matches' := by
        split_ifs at h with hsize hhead htail
        · exact absurd rfl h
        · exact absurd rfl h
        · exact absurd rfl h
        · exact words_of_checks hsize hhead htail
        · exact words_of_checks hsize hhead htail
      refine ⟨ns, leaf, ?_, hwords.1, hwords.2⟩
      rw [hsplit, List.append_assoc, List.append_assoc]
      rfl

theorem parseAndValidateName_of_notMem (hb : ¬ Bootstrap name)
    (h : name ∉ nameRegex.matches') : parseAndValidateName name = .error .invalidName := by
  by_contra hne
  exact h (reads_iff_mem.mp (exists_reads hb hne))

theorem parseAndValidateName_of_bootstrap (hb : Bootstrap name) :
    parseAndValidateName name = .ok ⟨[], name, true⟩ :=
  if_pos hb

theorem nameDecided_of_bootstrap (hb : Bootstrap name) : NameDecided name := by
  have hp := parseAndValidateName_of_bootstrap hb
  refine ⟨⟨fun _ => .inl hb, fun _ => ⟨_, hp⟩⟩, ?_, ?_, ?_, fun _ => fixedNameView_of_parsed⟩
  · rw [hp]
    exact ⟨nofun, fun h => absurd hb h.1⟩
  · rw [hp]
    exact ⟨nofun, fun h => absurd hb h.1⟩
  · intro _ _ hn
    exact absurd hb hn

theorem nameDecided_of_allowed (hb : ¬ Bootstrap name) (hr : Reads name ns leaf)
    (hallowed : ns ∈ allowedNamespaces) : NameDecided name := by
  have hm := reads_iff_mem.mp ⟨ns, leaf, hr⟩
  have hp := parseAndValidateName_of_reads hb hr
  rw [if_pos hallowed] at hp
  refine ⟨⟨fun _ => .inr ⟨ns, leaf, hr, hallowed⟩, fun _ => ⟨_, hp⟩⟩, ?_, ?_, ?_,
    fun _ => fixedNameView_of_parsed⟩
  · rw [hp]
    exact ⟨nofun, fun h => absurd hallowed (h.2.2 ns leaf hr)⟩
  · rw [hp]
    exact ⟨nofun, fun h => absurd hm h.2⟩
  · intro parsed h _
    cases hp.symm.trans h
    exact ⟨rfl, hr.joined⟩

theorem nameDecided_of_denied (hb : ¬ Bootstrap name) (hr : Reads name ns leaf)
    (hdenied : ns ∉ allowedNamespaces) : NameDecided name := by
  have hm := reads_iff_mem.mp ⟨ns, leaf, hr⟩
  have hp := parseAndValidateName_of_reads hb hr
  rw [if_neg hdenied] at hp
  have hother : ∀ ns' leaf', Reads name ns' leaf' → ns' ∉ allowedNamespaces := by
    intro ns' leaf' hr'
    rw [← (hr.unique hr').1]
    exact hdenied
  refine ⟨⟨?_, ?_⟩, ?_, ?_, ?_, fun _ => fixedNameView_of_parsed⟩
  · rintro ⟨parsed, h⟩
    cases hp.symm.trans h
  · rintro (h | ⟨ns', leaf', hr', h⟩)
    · exact absurd h hb
    · exact absurd h (hother ns' leaf' hr')
  · exact ⟨fun _ => ⟨hb, hm, hother⟩, fun _ => hp⟩
  · rw [hp]
    exact ⟨nofun, fun h => absurd hm h.2⟩
  · intro parsed h
    cases hp.symm.trans h

theorem nameDecided_of_notMem (hb : ¬ Bootstrap name) (hm : name ∉ nameRegex.matches') :
    NameDecided name := by
  have hp := parseAndValidateName_of_notMem hb hm
  refine ⟨⟨?_, ?_⟩, ?_, ⟨fun _ => ⟨hb, hm⟩, fun _ => hp⟩, ?_, fun _ => fixedNameView_of_parsed⟩
  · rintro ⟨parsed, h⟩
    cases hp.symm.trans h
  · rintro (h | ⟨ns, leaf, hr, -⟩)
    · exact absurd h hb
    · exact absurd (reads_iff_mem.mp ⟨ns, leaf, hr⟩) hm
  · rw [hp]
    exact ⟨nofun, fun h => absurd h.2.1 hm⟩
  · intro parsed h
    cases hp.symm.trans h

/-- `parse_and_validate_name` accepts exactly the documented names. -/
theorem parseAndValidateName_decides (name : Name) : NameDecided name := by
  by_cases hb : Bootstrap name
  · exact nameDecided_of_bootstrap hb
  by_cases hm : name ∈ nameRegex.matches'
  · obtain ⟨ns, leaf, hr⟩ := reads_iff_mem.mpr hm
    by_cases hns : ns ∈ allowedNamespaces
    · exact nameDecided_of_allowed hb hr hns
    · exact nameDecided_of_denied hb hr hns
  · exact nameDecided_of_notMem hb hm

end Names

end Shmfx
