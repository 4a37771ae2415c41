import Shmfx.Janitor.Model
import Shmfx.Lib.Decimal

/-! `read_proc_start_time`: field 22 of `/proc/<pid>/stat` behind any process name. -/
namespace Shmfx

/-- `line.rfind(c)`. -/
def rfind (line : List UInt8) (c : UInt8) : Option Nat :=
  (line.reverse.findIdx? (· == c)).map (line.length - 1 - ·)

/-- What `std::getline` takes from the start of a file. -/
def getline (file : List UInt8) : List UInt8 := file.takeWhile (· != 10)

def isSpace (c : UInt8) : Bool := c == 32 || (9 ≤ c && c ≤ 13)

/-- `std::stoull` in base 10; it throws without digits, and on 2^64 and more. -/
def stoull (text : List UInt8) : Option UInt64 :=
  let text := text.dropWhile isSpace
  let negative := text.head? == some 45
  let digits := (if negative || text.head? == some 43 then text.tail else text).takeWhile
    Decimal.isDigit
  if digits = [] ∨ Decimal.value digits ≥ 2 ^ 64 then none
  else
    let n := UInt64.ofNat (Decimal.value digits)
    some (if negative then 0 - n else n)

/-- The inner loop of `read_proc_start_time`. -/
def skipSpaces (tail : List UInt8) (start : Nat) : Nat :=
  start + ((tail.drop start).takeWhile (· == 32)).length

/-- The outer loop, with the number of turns that `field` has left. -/
def skipFields (tail : List UInt8) : Nat → Nat → Option Nat
  | 0, start => some start
  | turns + 1, start =>
    match findFrom tail 32 start with
    | none => none
    | some space => skipFields tail turns (skipSpaces tail space)

/-- `read_proc_start_time` on the contents of the stat file, if it opens. -/
def readProcStartTime (stat : Option (List UInt8)) : Option UInt64 := do
  let line := getline (← stat)
  let closeParen ← rfind line 41
  if closeParen + 2 ≥ line.length then none
  else
    let tail := line.drop (closeParen + 2)
    let start ← skipFields tail (22 - 3) 0
    stoull (tail.drop start)

/-- Fields with one space and a number of further ones behind each of them but the last. -/
def joinFields : List (List UInt8 × Nat) → List UInt8
  | [] => []
  | [(field, _)] => field
  | (field, gap) :: next :: rest =>
    field ++ (List.replicate (gap + 1) 32 ++ joinFields (next :: rest))

/-- `<pid> (<comm>) <f3> <f4> ... <fn>`; the fields start with number 3. -/
def statLine (pid comm : List UInt8) (fields : List (List UInt8 × Nat)) : List UInt8 :=
  pid ++ asciiBytes [' ', '('] ++ comm ++ asciiBytes [')', ' '] ++ joinFields fields

def IsField (field : List UInt8) : Prop := field ≠ [] ∧ 32 ∉ field ∧ 41 ∉ field

def IsNumeral (field : List UInt8) : Prop :=
  field ≠ [] ∧ ∀ c ∈ field, Decimal.isDigit c = true

section Search

variable {before behind line : List UInt8} {c : UInt8}

/-- The last occurrence is the one with none behind it. -/
theorem rfind_append_cons (h : c ∉ behind) :
    rfind (before ++ c :: behind) c = some before.length := by
  have hreverse : (before ++ c :: behind).reverse = behind.reverse ++ c :: before.reverse := by
    rw [List.reverse_append, List.reverse_cons, List.append_assoc]
    rfl
  have hlast : c ∉ behind.reverse := by rwa [List.mem_reverse]
  rw [rfind, hreverse, findIdx?_append_cons hlast, Option.map_some, List.length_reverse,
    List.length_append, List.length_cons]
  congr 1
  omega

theorem getline_append {rest : List UInt8} (hline : 10 ∉ line)
    (hrest : rest = [] ∨ ∃ more, rest = 10 :: more) : getline (line ++ rest) = line := by
  have hall : ∀ d ∈ line, (d != 10) = true := by
    intro d hd
    rw [bne_iff_ne]
    rintro rfl
    exact hline hd
  rw [getline, List.takeWhile_append_of_pos hall]
  rcases hrest with rfl | ⟨more, rfl⟩
  · exact List.append_nil line
  · rw [List.takeWhile_cons_of_neg (by decide), List.append_nil]

end Search

section Fields

variable {field tail : List UInt8} {gap turns start : Nat} {fields rest : List (List UInt8 × Nat)}

/-- What is left begins with its first field, and then with a space or nothing. -/
theorem joinFields_cons (field : List UInt8) (gap : Nat) (rest : List (List UInt8 × Nat)) :
    ∃ behind, joinFields ((field, gap) :: rest) = field ++ behind ∧
      (behind = [] ∨ ∃ more, behind = 32 :: more) := by
  cases rest with
  | nil => exact ⟨[], (List.append_nil field).symm, .inl rfl⟩
  | cons next rest => exact ⟨_, rfl, .inr ⟨_, rfl⟩⟩

/-- No space stands before the fields that are left. -/
theorem takeWhile_joinFields (hfields : ∀ f ∈ fields, IsField f.1) :
    (joinFields fields).takeWhile (· == 32) = [] := by
  cases fields with
  | nil => rfl
  | cons f rest =>
    obtain ⟨field, gap⟩ := f
    obtain ⟨hnil, hspace, -⟩ := hfields (field, gap) List.mem_cons_self
    obtain ⟨behind, hjoin, -⟩ := joinFields_cons field gap rest
    rw [hjoin]
    cases field with
    | nil => exact absurd rfl hnil
    | cons c field =>
      have hc : ¬ (c == 32) = true := by
        rw [beq_iff_eq]
        rintro rfl
        exact hspace List.mem_cons_self
      exact List.takeWhile_cons_of_neg hc

theorem paren_notMem_joinFields (hfields : ∀ f ∈ fields, IsField f.1) :
    41 ∉ joinFields fields := by
  induction fields with
  | nil => exact List.not_mem_nil
  | cons f rest ih =>
    obtain ⟨field, gap⟩ := f
    obtain ⟨hfield, hrest⟩ := List.forall_mem_cons.mp hfields
    cases rest with
    | nil => exact hfield.2.2
    | cons next rest =>
      intro hmem
      rcases List.mem_append.mp hmem with hmem | hmem
      · exact hfield.2.2 hmem
      · rcases List.mem_append.mp hmem with hmem | hmem
        · exact absurd (List.eq_of_mem_replicate hmem) (by decide)
        · exact ih hrest hmem

/-- One turn of the loop moves the cursor from one field to the next. -/
theorem skip_field {next : List UInt8 × Nat}
    (hstart : tail.drop start = joinFields ((field, gap) :: next :: rest))
    (hfields : ∀ f ∈ (field, gap) :: next :: rest, IsField f.1) :
    ∃ space, findFrom tail 32 start = some space ∧
      tail.drop (skipSpaces tail space) = joinFields (next :: rest) := by
  obtain ⟨⟨-, hspace, -⟩, hrest⟩ := List.forall_mem_cons.mp hfields
  have hstart' : tail.drop start =
      field ++ (List.replicate (gap + 1) 32 ++ joinFields (next :: rest)) := hstart
  have hfind : findFrom tail 32 start = some (field.length + start) :=
    findFrom_append_cons hstart' hspace
  have hdrop : tail.drop (field.length + start) =
      List.replicate (gap + 1) 32 ++ joinFields (next :: rest) := by
    rw [Nat.add_comm, ← List.drop_drop, hstart', List.drop_left]
  have hskip : skipSpaces tail (field.length + start) = field.length + start + (gap + 1) := by
    have hspaces : ∀ c ∈ List.replicate (gap + 1) (32 : UInt8), (c == 32) = true := by
      intro c hc
      rw [List.eq_of_mem_replicate hc]
      rfl
    rw [skipSpaces, hdrop, List.takeWhile_append_of_pos hspaces, takeWhile_joinFields hrest,
      List.append_nil, List.length_replicate]
  refine ⟨_, hfind, ?_⟩
  have hbehind : (List.replicate (gap + 1) 32 ++ joinFields (next :: rest)).drop (gap + 1) =
      joinFields (next :: rest) :=
    List.drop_left' List.length_replicate
  rw [hskip, ← List.drop_drop, hdrop, hbehind]

/-- The loop stops at the field it counts to. -/
theorem skipFields_reaches (hstart : tail.drop start = joinFields fields)
    (hfields : ∀ f ∈ fields, IsField f.1) (hturns : turns < fields.length) :
    ∃ start', skipFields tail turns start = some start' ∧
      tail.drop start' = joinFields (fields.drop turns) := by
  induction turns generalizing start fields with
  | zero => exact ⟨start, rfl, hstart⟩
  | succ turns ih =>
    match fields, hturns with
    | (field, gap) :: next :: rest, hturns =>
      obtain ⟨space, hfind, hnext⟩ := skip_field hstart hfields
      obtain ⟨start', hskip, hdrop⟩ :=
        ih hnext (List.forall_mem_cons.mp hfields).2 (Nat.lt_of_succ_lt_succ hturns)
      refine ⟨start', ?_, hdrop⟩
      rw [skipFields, hfind]
      exact hskip

/-- With too few fields it runs out of spaces. -/
theorem skipFields_runs_out (hstart : tail.drop start = joinFields fields)
    (hfields : ∀ f ∈ fields, IsField f.1) (hnil : fields ≠ []) (hturns : fields.length ≤ turns) :
    skipFields tail turns start = none := by
  induction turns generalizing start fields with
  | zero => exact absurd (List.eq_nil_of_length_eq_zero (Nat.le_zero.mp hturns)) hnil
  | succ turns ih =>
    match fields, hnil with
    | [(field, gap)], _ =>
      obtain ⟨-, hspace, -⟩ := hfields (field, gap) List.mem_cons_self
      have hfind : findFrom tail 32 start = none := by
        rw [findFrom, hstart, joinFields, findIdx?_of_notMem hspace]
        rfl
      rw [skipFields, hfind]
    | (field, gap) :: next :: rest, _ =>
      obtain ⟨space, hfind, hnext⟩ := skip_field hstart hfields
      rw [skipFields, hfind]
      exact ih hnext (List.forall_mem_cons.mp hfields).2 (List.cons_ne_nil _ _)
        (Nat.le_of_succ_le_succ hturns)

end Fields

section Numbers

variable {field behind : List UInt8}

/-- `stoull` reads a numeral up to the space behind it. -/
theorem stoull_numeral (h : IsNumeral field) (hvalue : Decimal.value field < 2 ^ 64)
    (hbehind : behind = [] ∨ ∃ more, behind = 32 :: more) :
    stoull (field ++ behind) = some (UInt64.ofNat (Decimal.value field)) := by
  obtain ⟨hnil, hdigits⟩ := h
  have htake : (field ++ behind).takeWhile Decimal.isDigit = field := by
    rw [List.takeWhile_append_of_pos hdigits]
    rcases hbehind with rfl | ⟨more, rfl⟩
    · exact List.append_nil field
    · rw [List.takeWhile_cons_of_neg (by decide), List.append_nil]
  cases field with
  | nil => exact absurd rfl hnil
  | cons c field =>
    obtain ⟨hlo, hhi⟩ : 48 ≤ c.toNat ∧ c.toNat ≤ 57 := by
      simpa [Decimal.isDigit, UInt8.le_iff_toNat_le] using hdigits c List.mem_cons_self
    have hspace : ¬ isSpace c = true := by
      simp only [isSpace, Bool.or_eq_true, beq_iff_eq, ← UInt8.toNat_inj, Bool.and_eq_true,
        decide_eq_true_eq, UInt8.le_iff_toNat_le, UInt8.reduceToNat]
      omega
    have hdrop : ((c :: field) ++ behind).dropWhile isSpace = (c :: field) ++ behind :=
      List.dropWhile_cons_of_neg hspace
    have hsign : ∀ d : UInt8, d.toNat < 48 → (some c == some d) = false := by
      intro d hd
      rw [beq_eq_false_iff_ne, ne_eq, Option.some_inj]
      rintro rfl
      omega
    have hminus := hsign 45 (by decide)
    have hplus := hsign 43 (by decide)
    have hhead : ((c :: field) ++ behind).head? = some c := rfl
    simp only [stoull, hdrop, hhead, hminus, hplus, Bool.or_self, Bool.false_eq_true, if_false,
      htake]
    exact if_neg (not_or.mpr ⟨hnil, Nat.not_le.mpr hvalue⟩)

end Numbers

section StartTime

variable {pid comm rest : List UInt8} {fields : List (List UInt8 × Nat)}

/-- The search for the last parenthesis is not misled by the process name. -/
theorem readProcStartTime_eq (hline : 10 ∉ statLine pid comm fields)
    (hrest : rest = [] ∨ ∃ more, rest = 10 :: more) (hfields : ∀ f ∈ fields, IsField f.1) :
    readProcStartTime (some (statLine pid comm fields ++ rest)) =
      if joinFields fields = [] then none
      else (skipFields (joinFields fields) 19 0).bind fun start =>
        stoull ((joinFields fields).drop start) := by
  have hsplit : statLine pid comm fields =
      (pid ++ asciiBytes [' ', '('] ++ comm) ++ 41 :: 32 :: joinFields fields := by
    rw [statLine, List.append_assoc (pid ++ _ ++ comm)]
    rfl
  have hparen : 41 ∉ 32 :: joinFields fields := by
    intro hmem
    rcases List.mem_cons.mp hmem with hspace | hmem
    · exact absurd hspace (by decide)
    · exact paren_notMem_joinFields hfields hmem
  have hget := getline_append hline hrest
  generalize pid ++ asciiBytes [' ', '('] ++ comm = before at hsplit
  have hdrop : (statLine pid comm fields).drop (before.length + 2) = joinFields fields := by
    rw [hsplit, ← List.drop_drop, List.drop_left]
    rfl
  have hlen : before.length + 2 ≥ (statLine pid comm fields).length ↔ joinFields fields = [] := by
    rw [hsplit, List.length_append, List.length_cons, List.length_cons,
      ← List.length_eq_zero_iff]
    omega
  have hfind : rfind (statLine pid comm fields) 41 = some before.length := by
    rw [hsplit, rfind_append_cons hparen]
  unfold readProcStartTime
  simp only [Option.bind_eq_bind, Option.bind_some, hget, hfind, hlen, hdrop]

/-- Whatever the process name, `read_proc_start_time` returns field 22, or fails if there is
none. -/
theorem readProcStartTime_field (hline : 10 ∉ statLine pid comm fields)
    (hrest : rest = [] ∨ ∃ more, rest = 10 :: more) (hfields : ∀ f ∈ fields, IsField f.1) :
    (∀ field gap, fields[19]? = some (field, gap) → IsNumeral field →
      Decimal.value field < 2 ^ 64 →
      readProcStartTime (some (statLine pid comm fields ++ rest)) =
        some (UInt64.ofNat (Decimal.value field))) ∧
    (fields.length + 2 < 22 →
      readProcStartTime (some (statLine pid comm fields ++ rest)) = none) := by
  rw [readProcStartTime_eq hline hrest hfields]
  constructor
  · intro field gap hfield hnumeral hvalue
    obtain ⟨hlt, heq⟩ := List.getElem?_eq_some_iff.mp hfield
    have hzero : (joinFields fields).drop 0 = joinFields fields := rfl
    obtain ⟨start, hskip, hdrop⟩ := skipFields_reaches hzero hfields hlt
    obtain ⟨behind, hjoin, hbehind⟩ := joinFields_cons field gap (fields.drop 20)
    rw [List.drop_eq_getElem_cons hlt, heq, hjoin] at hdrop
    have hnil : joinFields fields ≠ [] := by
      intro hnil
      rw [hnil, List.drop_nil] at hdrop
      exact hnumeral.1 (List.append_eq_nil_iff.mp hdrop.symm).1
    rw [if_neg hnil, hskip, Option.bind_some, hdrop]
    exact stoull_numeral hnumeral hvalue hbehind
  · intro hlen
    split
    · rfl
    · rename_i hnil
      have hne : fields ≠ [] := by
        rintro rfl
        exact hnil rfl
      rw [skipFields_runs_out rfl hfields hne (by omega), Option.bind_none]

/-- A process called `a) b (c`, with two spaces before its start time. -/
theorem readProcStartTime_field_paren :
    readProcStartTime (some (statLine (Decimal.numeral 7)
      (asciiBytes ['a', ')', ' ', 'b', ' ', '(', 'c'])
      (List.replicate 18 (Decimal.numeral 1, 0) ++ [(Decimal.numeral 1, 1),
        (Decimal.numeral 4711, 0)]))) = some 4711 := by
  have hnumeral : IsNumeral (Decimal.numeral 4711) :=
    ⟨Decimal.numeral_ne_nil _, fun _ => Decimal.isDigit_of_mem_numeral⟩
  have hline : 10 ∉ statLine (Decimal.numeral 7) (asciiBytes ['a', ')', ' ', 'b', ' ', '(', 'c'])
      (List.replicate 18 (Decimal.numeral 1, 0) ++ [(Decimal.numeral 1, 1),
        (Decimal.numeral 4711, 0)]) := by
    decide
  have hfields : ∀ f ∈ List.replicate 18 (Decimal.numeral 1, 0) ++ [(Decimal.numeral 1, 1),
      (Decimal.numeral 4711, 0)], IsField f.1 := by
    simp only [IsField]
    decide
  have hfield := (readProcStartTime_field hline (.inl rfl) hfields).1 _ 0 rfl hnumeral (by decide)
  rw [List.append_nil, Decimal.value_numeral] at hfield
  exact hfield

end StartTime

end Shmfx
