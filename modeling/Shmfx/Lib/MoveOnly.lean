import Mathlib.Data.List.Basic

/-! Objects that own something and can only be moved, in a stretch of storage: `std::remove_if` and
`erase` on them, with what the destructors and assignments give back. -/
namespace MoveOnly

universe u v

variable {α : Type u} {σ : Type v}

/-- Giving back what an object owns, which is nothing after a move from it. -/
def release (drop : α → σ → σ) : Option α → σ → σ
  | some a => drop a
  | none => id

/-- Move assignment: the target gives back what it owns and takes over what the source owns. -/
def moveAssign (drop : α → σ → σ) (i j : Nat) (s : List (Option α) × σ) : List (Option α) × σ :=
  if i = j then s
  else ((s.1.set i (s.1.getD j none)).set j none, release drop (s.1.getD i none) s.2)

/-- The loop of `remove_if` over the `n` elements from `first` on; the next one that is kept goes to
`result`. -/
def removeLoop (drop : α → σ → σ) (p : α → Bool) :
    Nat → Nat → Nat → List (Option α) × σ → Nat × List (Option α) × σ
  | 0, result, _, s => (result, s)
  | n + 1, result, first, s =>
    if (s.1.getD first none).any p then removeLoop drop p n result (first + 1) s
    else removeLoop drop p n (result + 1) (first + 1) (moveAssign drop result first s)

/-- `remove_if`: where the kept elements end, and the storage after it. -/
def removeIf (drop : α → σ → σ) (p : α → Bool) (s : List (Option α) × σ) :
    Nat × List (Option α) × σ :=
  let first := s.1.findIdx (Option.any p)
  if first = s.1.length then (first, s)
  else removeLoop drop p (s.1.length - (first + 1)) first (first + 1) s

/-- `erase` up to the end: the destructors run from front to back. -/
def eraseFrom (drop : α → σ → σ) (k : Nat) (s : List (Option α) × σ) : List (Option α) × σ :=
  (s.1.take k, (s.1.drop k).foldl (fun w cell => release drop cell w) s.2)

def eraseRemoveIf (drop : α → σ → σ) (p : α → Bool) (s : List (Option α) × σ) :
    List (Option α) × σ :=
  eraseFrom drop (removeIf drop p s).1 (removeIf drop p s).2

variable {drop : α → σ → σ} {p : α → Bool}

theorem getD_between (xs ys : List (Option α)) (y : Option α) :
    (xs ++ y :: ys).getD xs.length none = y := by
  simp

/-- A kept element moves to the front of the gap, and leaves an empty cell at its end. -/
theorem moveAssign_gap (kept : List α) (cell : Option α) (gap : List (Option α)) (a : α)
    (rest : List (Option α)) (w : σ) :
    moveAssign drop kept.length (kept.length + (gap.length + 1))
        (kept.map some ++ cell :: gap ++ some a :: rest, w) =
      ((kept ++ [a]).map some ++ (gap ++ [none]) ++ rest, release drop cell w) := by
  have hsource : (kept.map some ++ cell :: gap ++ some a :: rest).getD
      (kept.length + (gap.length + 1)) none = some a := by
    have hlength : kept.length + (gap.length + 1) = (kept.map some ++ cell :: gap).length := by
      simp
    rw [hlength]
    exact getD_between ..
  have htarget : (kept.map some ++ cell :: gap ++ some a :: rest).getD kept.length none =
      cell := by
    rw [List.append_assoc, ← List.length_map some]
    exact getD_between ..
  rw [moveAssign, if_neg (by omega), hsource, htarget]
  refine Prod.ext ?_ rfl
  simp

/-- What the loop and the `erase` after it make of a gap between the elements kept so far and the
rest: the cells of the gap are given back from front to back, whoever does it. -/
theorem eraseFrom_removeLoop (rest kept : List α) (gap : List (Option α)) (hgap : gap ≠ [])
    (w : σ) (r : Nat × List (Option α) × σ)
    (hr : removeLoop drop p rest.length kept.length (kept.length + gap.length)
      (kept.map some ++ gap ++ rest.map some, w) = r) :
    eraseFrom drop r.1 r.2 =
      ((kept ++ rest.filter fun a => !p a).map some,
        (rest.filter p).foldl (fun w a => drop a w)
          (gap.foldl (fun w cell => release drop cell w) w)) := by
  induction rest generalizing kept gap w with
  | nil =>
    subst hr
    simp [removeLoop, eraseFrom]
  | cons a rest ih =>
    have hcell : (kept.map some ++ gap ++ (a :: rest).map some).getD
        (kept.length + gap.length) none = some a := by
      have hlength : kept.length + gap.length = (kept.map some ++ gap).length := by simp
      rw [hlength]
      exact getD_between ..
    rw [List.length_cons, removeLoop, hcell, Option.any_some] at hr
    cases hp : p a with
    | true =>
      rw [hp, if_pos rfl] at hr
      have hcells : kept.map some ++ gap ++ (a :: rest).map some =
          kept.map some ++ (gap ++ [some a]) ++ rest.map some := by simp
      rw [hcells] at hr
      rw [ih kept (gap ++ [some a]) (by simp) w (by simpa [Nat.add_assoc] using hr)]
      simp [hp, release]
    | false =>
      obtain ⟨cell, gap, rfl⟩ := List.exists_cons_of_ne_nil hgap
      rw [hp, if_neg Bool.false_ne_true, List.length_cons, List.map_cons, moveAssign_gap] at hr
      have hfirst : kept.length + (gap.length + 1) + 1 =
          (kept ++ [a]).length + (gap ++ [none]).length := by
        simp
        omega
      have hresult : kept.length + 1 = (kept ++ [a]).length := by simp
      rw [hfirst, hresult] at hr
      rw [ih (kept ++ [a]) (gap ++ [none]) (by simp) (release drop cell w) hr]
      simp [hp, release]

theorem findIdx_some (before : List α) (cells : List (Option α))
    (hbefore : ∀ b ∈ before, p b = false) :
    (before.map some ++ cells).findIdx (Option.any p) =
      before.length + cells.findIdx (Option.any p) := by
  induction before with
  | nil => simp
  | cons b before ih =>
    obtain ⟨hb, hbefore⟩ := List.forall_mem_cons.mp hbefore
    rw [List.map_cons, List.cons_append, List.findIdx_cons, Option.any_some, hb, cond_false,
      ih hbefore, List.length_cons]
    omega

/-- Erasing what `remove_if` leaves behind the kept elements: these stay in order, and what the
others own is given back in order, once. -/
theorem eraseRemoveIf_eq (xs : List α) (w : σ) :
    eraseRemoveIf drop p (xs.map some, w) =
      ((xs.filter fun a => !p a).map some, (xs.filter p).foldl (fun w a => drop a w) w) := by
  unfold eraseRemoveIf removeIf
  dsimp only
  cases hfind : xs.find? p with
  | none =>
    have hnone : ∀ a ∈ xs, p a = false := by simpa using hfind
    have hfirst : (xs.map some).findIdx (Option.any p) = (xs.map some).length := by
      have h := findIdx_some xs [] hnone
      simpa using h
    have hkept : (xs.filter fun a => !p a) = xs := by simpa using hnone
    have hremoved : xs.filter p = [] := by simpa using hnone
    rw [hfirst, if_pos rfl, hkept, hremoved, eraseFrom, List.take_length, List.drop_length]
    rfl
  | some a =>
    obtain ⟨ha, before, rest, rfl, hbefore⟩ := List.find?_eq_some_iff_append.mp hfind
    have hbefore : ∀ b ∈ before, p b = false := by simpa using hbefore
    have hfirst : ((before ++ a :: rest).map some).findIdx (Option.any p) = before.length := by
      rw [List.map_append, findIdx_some before _ hbefore, List.map_cons, List.findIdx_cons,
        Option.any_some, ha, cond_true, Nat.add_zero]
    have hkept : (before.filter fun a => !p a) = before := by simpa using hbefore
    have hremoved : before.filter p = [] := by simpa using hbefore
    have hlength : ((before ++ a :: rest).map some).length - (before.length + 1) = rest.length := by
      simp
      omega
    rw [hfirst, if_neg (by simp), hlength]
    have hcells : (before ++ a :: rest).map some =
        before.map some ++ [some a] ++ rest.map some := by simp
    rw [hcells]
    refine (eraseFrom_removeLoop rest before [some a] (List.cons_ne_nil _ _) w _ rfl).trans ?_
    simp [hkept, hremoved, ha, release]

end MoveOnly
