/-! Calls that can fail and then undo what they did, with rules for the state they leave. -/
namespace Rollback

/-- A call on a state of type `S` that can fail. -/
abbrev Call (S ε : Type) := ExceptT ε (StateM S)

variable {S ε α β : Type}

/-- A result that was computed without looking at the state. -/
def attempt (r : Except ε α) : Call S ε α := fun s => (r, s)

/-- An effect that cannot fail. -/
def act (f : S → S) : Call S ε Unit := fun s => (.ok (), f s)

/-- When the call fails, `undo` is run on the state it leaves. -/
def orUndo (p : Call S ε α) (undo : S → S) : Call S ε α := fun s =>
  match p s with
  | (.ok a, t) => (.ok a, t)
  | (.error e, t) => (.error e, undo t)

/-- From `s` the call succeeds as `Q` says or fails as `E` says. -/
structure Leaves (p : Call S ε α) (s : S) (Q : α → S → Prop) (E : ε → S → Prop) : Prop where
  ok : ∀ a t, p s = (.ok a, t) → Q a t
  error : ∀ e t, p s = (.error e, t) → E e t

/-- What a call leaves, once its result is known. -/
theorem outcome_eq {x : α × S} {a : α} (h : x.1 = a) : x = (a, x.2) := Prod.ext h rfl

section Rules

variable {p : Call S ε α} {f : α → Call S ε β} {s t : S} {Q R : α → S → Prop}
  {E F : ε → S → Prop} {Q' : β → S → Prop}

theorem bind_of_ok {a : α} (h : p s = (.ok a, t)) : (p >>= f) s = f a t := by
  show (ExceptT.bindCont f (p s).1 : StateM S _) (p s).2 = _
  rw [h]
  rfl

theorem bind_of_error {e : ε} (h : p s = (.error e, t)) : (p >>= f) s = (.error e, t) := by
  show (ExceptT.bindCont f (p s).1 : StateM S _) (p s).2 = _
  rw [h]
  rfl

theorem orUndo_of_ok {undo : S → S} {a : α} (h : p s = (.ok a, t)) :
    orUndo p undo s = (.ok a, t) := by
  rw [orUndo, h]

theorem orUndo_of_error {undo : S → S} {e : ε} (h : p s = (.error e, t)) :
    orUndo p undo s = (.error e, undo t) := by
  rw [orUndo, h]

theorem Leaves.mono (h : Leaves p s R F) (hQ : ∀ a t, R a t → Q a t)
    (hE : ∀ e t, F e t → E e t) : Leaves p s Q E :=
  ⟨fun a t ha => hQ a t (h.ok a t ha), fun e t he => hE e t (h.error e t he)⟩

theorem Leaves.congr {q : Call S ε α} (h : Leaves q t Q E) (heq : p s = q t) : Leaves p s Q E :=
  ⟨fun a t ha => h.ok a t (heq.symm.trans ha), fun e t he => h.error e t (heq.symm.trans he)⟩

theorem Leaves.of_ok {a : α} (h : p s = (.ok a, t)) (hQ : Q a t) : Leaves p s Q E := by
  constructor
  · intro _ _ ha
    cases h.symm.trans ha
    exact hQ
  · intro _ _ he
    cases h.symm.trans he

theorem Leaves.of_error {e : ε} (h : p s = (.error e, t)) (hE : E e t) : Leaves p s Q E := by
  constructor
  · intro _ _ ha
    cases h.symm.trans ha
  · intro _ _ he
    cases h.symm.trans he
    exact hE

theorem Leaves.pure {a : α} (h : Q a s) : Leaves (Pure.pure a) s Q E := .of_ok rfl h

theorem Leaves.act {f : S → S} {Q : Unit → S → Prop} (h : Q () (f s)) : Leaves (act f) s Q E :=
  .of_ok rfl h

theorem Leaves.attempt {r : Except ε α} (hQ : ∀ a, r = .ok a → Q a s)
    (hE : ∀ e, r = .error e → E e s) : Leaves (attempt r) s Q E := by
  cases r with
  | ok a => exact .of_ok rfl (hQ a rfl)
  | error e => exact .of_error rfl (hE e rfl)

/-- A failure of the first part is the failure of the whole. -/
theorem Leaves.bind (h : Leaves p s R E) (hf : ∀ a t, R a t → Leaves (f a) t Q' E) :
    Leaves (p >>= f) s Q' E := by
  cases hp : p s with
  | mk r t =>
    cases r with
    | error e => exact .of_error (bind_of_error hp) (h.error e t hp)
    | ok a => exact (hf a t (h.ok a t hp)).congr (bind_of_ok hp)

/-- A result may be needed before the call goes on. -/
theorem Leaves.attempt_bind {r : Except ε α} (hE : ∀ e, r = .error e → E e s)
    (hf : ∀ a, r = .ok a → Leaves (f a) s Q' E) : Leaves (Rollback.attempt r >>= f) s Q' E := by
  refine Leaves.bind (R := fun a t => r = .ok a ∧ t = s) (.attempt (fun a ha => ⟨ha, rfl⟩) hE) ?_
  rintro a t ⟨ha, rfl⟩
  exact hf a ha

theorem Leaves.act_bind {g : S → S} {f : Unit → Call S ε β} (h : Leaves (f ()) (g s) Q' E) :
    Leaves (Rollback.act g >>= f) s Q' E := by
  refine Leaves.bind (R := fun _ t => t = g s) (.act rfl) ?_
  rintro _ t rfl
  exact h

theorem Leaves.orUndo {undo : S → S} (h : Leaves p s Q fun e t => E e (undo t)) :
    Leaves (orUndo p undo) s Q E := by
  cases hp : p s with
  | mk r t =>
    cases r with
    | error e =>
      refine .of_error ?_ (h.error e t hp)
      rw [Rollback.orUndo, hp]
    | ok a =>
      refine .of_ok ?_ (h.ok a t hp)
      rw [Rollback.orUndo, hp]

theorem Leaves.bind_ok {a : α} (h : p s = (.ok a, t)) (hf : Leaves (f a) t Q' E) :
    Leaves (p >>= f) s Q' E :=
  hf.congr (bind_of_ok h)

/-- A call that ends as `r` does, when nobody asks for the state after a failure. -/
theorem Leaves.undo_bind {γ : Type} {r : Except ε γ} {p : Call S ε Unit} {f : Unit → Call S ε β}
    {undo : S → S} {next : γ → S} {P : ε → Prop}
    (hok : ∀ c, r = .ok c → p s = (.ok (), next c))
    (herror : ∀ e, r = .error e → p s = (.error e, s)) (hP : ∀ e, r = .error e → P e)
    (hf : ∀ c, r = .ok c → Leaves (f ()) (next c) Q' fun e _ => P e) :
    Leaves (Rollback.orUndo p undo >>= f) s Q' fun e _ => P e := by
  cases r with
  | error e =>
    refine .of_error (bind_of_error (t := undo s) (e := e) ?_) (hP e rfl)
    rw [Rollback.orUndo, herror e rfl]
  | ok c =>
    refine .bind_ok (t := next c) (a := ()) ?_ (hf c rfl)
    rw [Rollback.orUndo, hok c rfl]

end Rules

end Rollback
