import Shmfx.Lib.Decimal
import Shmfx.Logging.Discovery
import Shmfx.Security.Grammar

/-! The segment name a `Logger` makes of its service and process id, against the grammar of the core
(`logger.cpp`). -/
namespace Shmfx

def isServiceTailChar (c : UInt8) : Bool :=
  isLower c || (48 ≤ c && c ≤ 57) || c == 95 || c == 45

def validServiceName (service : Name) : Bool :=
  if service = [] ∨ service.length > 24 ∨ isLower (service.headD 0) = false then false
  else service.tail.all isServiceTailChar

/-- `default_segment_name` in the process `pid`. -/
def defaultSegmentName (service : Name) (pid : Int) : Name :=
  asciiBytes ['/', 's', 'h', 'm', 'f', 'x', '.', 'l', 'o', 'g', '.'] ++ service ++
    asciiBytes ['_'] ++ Decimal.signed pid

/-- The part of the name after the namespace. -/
def defaultLeaf (service : Name) (pid : Int) : Name :=
  service ++ asciiBytes ['_'] ++ Decimal.signed pid

/-- What the core makes of a default segment name. -/
structure SegmentNamed (service : Name) (pid : Int) : Prop where
  short : (defaultSegmentName service pid).length < nameBytes
  parsed : parseAndValidateName (defaultSegmentName service pid) =
    .ok ⟨asciiBytes ['l', 'o', 'g'], defaultLeaf service pid, false⟩
  watched : Center.logStart <+: defaultSegmentName service pid

section Proofs

variable {service service' : Name} {pid pid' : Int}

theorem validServiceName_iff : validServiceName service = true ↔
    service ≠ [] ∧ service.length ≤ 24 ∧ isLower (service.headD 0) = true ∧
      service.tail.all isNameTailChar = true := by
  unfold validServiceName
  split_ifs with h
  · constructor
    · exact nofun
    · rintro ⟨hnil, hlen, hhead, -⟩
      rcases h with h | h | h
      · exact absurd h hnil
      · omega
      · exact absurd (hhead.symm.trans h) (by decide)
  · obtain ⟨hnil, hlen, hhead⟩ := by simpa only [not_or, Bool.not_eq_false] using h
    constructor
    · intro htail
      exact ⟨hnil, Nat.not_lt.mp hlen, hhead, htail⟩
    · rintro ⟨-, -, -, htail⟩
      exact htail

/-- A sign and digits are characters a name may go on with. -/
theorem isNameTailChar_of_signed {c : UInt8} (h : c ∈ Decimal.signed pid) :
    isNameTailChar c = true := by
  rcases Decimal.mem_signed h with rfl | hdigit
  · decide
  · unfold Decimal.isDigit at hdigit
    unfold isNameTailChar
    rw [hdigit, Bool.or_true]
    rfl

theorem underscore_notMem_signed : 95 ∉ Decimal.signed pid := by
  intro h
  rcases Decimal.mem_signed h with hsign | hdigit
  · exact absurd hsign (by decide)
  · exact absurd hdigit (by decide)

theorem length_signed_pid (hlo : -2 ^ 31 ≤ pid) (hhi : pid < 2 ^ 32) :
    (Decimal.signed pid).length ≤ 11 := by
  apply Decimal.length_signed_le (by decide)
  omega

theorem defaultLeaf_mem (h : validServiceName service = true) (hlo : -2 ^ 31 ≤ pid)
    (hhi : pid < 2 ^ 32) : defaultLeaf service pid ∈ leafRegex.matches' := by
  obtain ⟨hnil, hlen, hhead, htail⟩ := validServiceName_iff.mp h
  have hpid := length_signed_pid hlo hhi
  cases service with
  | nil => exact absurd rfl hnil
  | cons c service =>
    have hlength : (defaultLeaf (c :: service) pid).length =
        service.length + 1 + 1 + (Decimal.signed pid).length := by
      simp only [defaultLeaf, asciiBytes, List.length_append, List.length_cons, List.length_map,
        List.length_nil]
    refine (mem_wordRegex (by decide)).mpr ⟨by omega, ?_, hhead, ?_⟩
    · rw [List.length_cons] at hlen
      omega
    · rw [defaultLeaf, List.cons_append, List.cons_append, List.tail_cons, List.all_append,
        List.all_append, show service.all isNameTailChar = true from htail]
      exact List.all_eq_true.mpr fun d hd => isNameTailChar_of_signed hd

theorem defaultSegmentName_joined (service : Name) (pid : Int) :
    nameStart ++ asciiBytes ['l', 'o', 'g'] ++ asciiBytes ['.'] ++ defaultLeaf service pid =
      defaultSegmentName service pid := by
  rw [defaultLeaf, defaultSegmentName, ← List.append_assoc, ← List.append_assoc]
  rfl

theorem defaultSegmentName_reads (h : validServiceName service = true) (hlo : -2 ^ 31 ≤ pid)
    (hhi : pid < 2 ^ 32) :
    Reads (defaultSegmentName service pid) (asciiBytes ['l', 'o', 'g'])
      (defaultLeaf service pid) where
  joined := defaultSegmentName_joined service pid
  ns := (mem_wordRegex (by decide)).mpr (by decide)
  leaf := defaultLeaf_mem h hlo hhi

/-- Behind the common start, the letters of `log` and `registry` differ. -/
theorem defaultSegmentName_not_bootstrap (service : Name) (pid : Int) :
    ¬ Bootstrap (defaultSegmentName service pid) := by
  have hletter : (defaultSegmentName service pid).getD 7 0 = 108 := rfl
  rintro (h | h)
  · rw [h] at hletter
    exact absurd hletter (by decide)
  · rw [h] at hletter
    exact absurd hletter (by decide)

/-- Text before the last separator and text behind it are told apart. -/
theorem append_separator_inj {c : UInt8} {before before' behind behind' : Name} (hc : c ∉ behind)
    (hc' : c ∉ behind') (h : before ++ c :: behind = before' ++ c :: behind') :
    before = before' ∧ behind = behind' := by
  rcases List.append_eq_append_iff.mp h with ⟨rest, hbefore, hbehind⟩ | ⟨rest, hbefore, hbehind⟩
  · cases rest with
    | nil => exact ⟨by rw [hbefore, List.append_nil], (List.cons.inj hbehind).2⟩
    | cons d rest =>
      have hmem : c ∈ behind := by
        rw [(List.cons.inj hbehind).2]
        exact List.mem_append_right rest List.mem_cons_self
      exact absurd hmem hc
  · cases rest with
    | nil => exact ⟨by rw [hbefore, List.append_nil], (List.cons.inj hbehind).2.symm⟩
    | cons d rest =>
      have hmem : c ∈ behind' := by
        rw [(List.cons.inj hbehind).2]
        exact List.mem_append_right rest List.mem_cons_self
      exact absurd hmem hc'

theorem defaultSegmentName_injective
    (h : defaultSegmentName service pid = defaultSegmentName service' pid') :
    service = service' ∧ pid = pid' := by
  have hleaf : service ++ 95 :: Decimal.signed pid = service' ++ 95 :: Decimal.signed pid' := by
    rw [defaultSegmentName, defaultSegmentName, List.append_assoc, List.append_assoc,
      List.append_assoc, List.append_assoc] at h
    exact List.append_cancel_left h
  obtain ⟨hservice, hpid⟩ :=
    append_separator_inj underscore_notMem_signed underscore_notMem_signed hleaf
  exact ⟨hservice, Decimal.signed_injective hpid⟩

/-- Every accepted service and every process id of 32 bits, signed or not, gives a name of its own
that the core accepts and a `LogCenter` watches. -/
theorem defaultSegmentName_accepted (h : validServiceName service = true) (hlo : -2 ^ 31 ≤ pid)
    (hhi : pid < 2 ^ 32) :
    SegmentNamed service pid ∧ ∀ service' pid', validServiceName service' = true →
      defaultSegmentName service' pid' = defaultSegmentName service pid →
      service' = service ∧ pid' = pid := by
  have hreads := defaultSegmentName_reads h hlo hhi
  have hparse := parseAndValidateName_of_reads (defaultSegmentName_not_bootstrap service pid) hreads
  rw [if_pos (by decide)] at hparse
  refine ⟨⟨hreads.length_lt, hparse, ?_⟩, fun _ _ _ => defaultSegmentName_injective⟩
  rw [← defaultSegmentName_joined]
  exact List.prefix_append Center.logStart (defaultLeaf service pid)

/-- The longest service under the longest process id. -/
theorem defaultSegmentName_accepted_longest :
    validServiceName (List.replicate 24 97) = true ∧
      SegmentNamed (List.replicate 24 97) (2 ^ 32 - 1) := by
  have h : validServiceName (List.replicate 24 97) = true := by decide
  exact ⟨h, (defaultSegmentName_accepted h (by decide) (by decide)).1⟩

end Proofs

end Shmfx
