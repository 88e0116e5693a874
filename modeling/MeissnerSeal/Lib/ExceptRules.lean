/-
Inversion and execution rules for straight-line `Except` programs: what
a successful bind, guard or option conversion tells, and how each runs
on a success. A parser is specified by rewriting with these rules once,
from `= .ok v` to the conjunction of what its steps established. The same
goes for the errors a program never ends in (`Avoids.bind`).
-/

namespace ExceptRules

variable {ε α β : Type _}

/-- A bind succeeds iff its first half does and its second half does on
that result. -/
theorem bind_eq_ok {x : Except ε α} {f : α → Except ε β} {b : β} :
    (x >>= f) = .ok b ↔ ∃ a, x = .ok a ∧ f a = .ok b := by
  cases x with
  | error e =>
      constructor
      · intro h
        cases h
      · rintro ⟨a, h, -⟩
        cases h
  | ok a =>
      constructor
      · intro h
        exact ⟨a, rfl, h⟩
      · rintro ⟨a', h, h'⟩
        cases h
        exact h'

@[simp] theorem ok_bind (a : α) (f : α → Except ε β) : (Except.ok a >>= f) = f a := rfl

@[simp] theorem error_bind (e : ε) (f : α → Except ε β) :
    ((Except.error e : Except ε α) >>= f) = .error e := rfl

@[simp] theorem pure_eq_ok (a : α) : (pure a : Except ε α) = .ok a := rfl

@[simp] theorem throw_eq_error (e : ε) : (throw e : Except ε α) = .error e := rfl

/-- `if bad { return Err(e) }`. -/
def rejectIf (bad : Prop) [Decidable bad] (e : ε) : Except ε Unit :=
  if bad then .error e else .ok ()

@[simp] theorem rejectIf_eq_ok {bad : Prop} [Decidable bad] {e : ε} {u : Unit} :
    rejectIf bad e = .ok u ↔ ¬ bad := by
  unfold rejectIf
  split
  case isTrue h => simp [h]
  case isFalse h => simp [h]

theorem rejectIf_pos {bad : Prop} [Decidable bad] (e : ε) (h : bad) :
    rejectIf bad e = .error e := if_pos h

theorem rejectIf_neg {bad : Prop} [Decidable bad] (e : ε) (h : ¬ bad) :
    rejectIf bad e = .ok () := if_neg h

/-- `option.ok_or(e)`. -/
def okOr (o : Option α) (e : ε) : Except ε α :=
  match o with
  | some a => .ok a
  | none => .error e

@[simp] theorem okOr_eq_ok {o : Option α} {e : ε} {a : α} : okOr o e = .ok a ↔ o = some a := by
  cases o with
  | none => simp [okOr]
  | some b => simp [okOr]

@[simp] theorem okOr_some (a : α) (e : ε) : okOr (some a) e = .ok a := rfl

@[simp] theorem okOr_none (e : ε) : okOr (none : Option α) e = .error e := rfl

/-- `result.map_err(|_| e)`. -/
def orErr {ε' : Type _} (x : Except ε' α) (e : ε) : Except ε α :=
  match x with
  | .ok a => .ok a
  | .error _ => .error e

@[simp] theorem orErr_eq_ok {ε' : Type _} {x : Except ε' α} {e : ε} {a : α} :
    orErr x e = .ok a ↔ x = .ok a := by
  cases x with
  | error e' => simp [orErr]
  | ok b => simp [orErr]

@[simp] theorem orErr_ok {ε' : Type _} (a : α) (e : ε) :
    orErr (.ok a : Except ε' α) e = .ok a := rfl

/-- Errors one of which is no value of the program but its panic. -/
class Panics (ε : Type _) where
  panic : ε

/-- `result.map_err(|_| e)` after a call that may panic: the panic
unwinds past it. -/
def orErrUnwind {ε' : Type _} [DecidableEq ε'] [Panics ε'] [Panics ε] (x : Except ε' α) (e : ε) :
    Except ε α :=
  match x with
  | .ok a => .ok a
  | .error e' => .error (if e' = Panics.panic then Panics.panic else e)

@[simp] theorem orErrUnwind_eq_ok {ε' : Type _} [DecidableEq ε'] [Panics ε'] [Panics ε]
    {x : Except ε' α} {e : ε} {a : α} : orErrUnwind x e = .ok a ↔ x = .ok a := by
  cases x with
  | error e' => simp [orErrUnwind]
  | ok b => simp [orErrUnwind]

@[simp] theorem orErrUnwind_ok {ε' : Type _} [DecidableEq ε'] [Panics ε'] [Panics ε]
    (a : α) (e : ε) :
    orErrUnwind (.ok a : Except ε' α) e = .ok a := rfl

-- ============================================================ avoidance

/-- `x` does not end in the error `e`. -/
def Avoids (e : ε) (x : Except ε α) : Prop := x ≠ .error e

variable {e e' : ε} {x : Except ε α} {f : α → Except ε β}

theorem avoids_ok (e : ε) (a : α) : Avoids e (.ok a) := by
  intro h
  cases h

theorem avoids_error_iff : Avoids e (.error e' : Except ε α) ↔ e' ≠ e := by
  rw [Avoids, ne_eq, Except.error.injEq]

theorem avoids_error (h : e' ≠ e) : Avoids e (.error e' : Except ε α) := avoids_error_iff.mpr h

/-- A bind avoids an error if its first half does and its second half does
on what the first returns. -/
theorem Avoids.bind (hx : Avoids e x) (hf : ∀ a, x = .ok a → Avoids e (f a)) :
    Avoids e (x >>= f) := by
  cases x with
  | error e' =>
      intro h
      rw [error_bind] at h
      injection h with h
      exact hx (congrArg Except.error h)
  | ok a => exact hf a rfl

theorem avoids_rejectIf {bad : Prop} [Decidable bad] (h : e' ≠ e) : Avoids e (rejectIf bad e') := by
  unfold rejectIf
  split
  · exact avoids_error h
  · exact avoids_ok e ()

theorem avoids_okOr {o : Option α} (h : e' ≠ e) : Avoids e (okOr o e') := by
  cases o with
  | none => exact avoids_error h
  | some a => exact avoids_ok e a

theorem avoids_orErr {ε' : Type _} {x : Except ε' α} (h : e' ≠ e) : Avoids e (orErr x e') := by
  cases x with
  | error _ => exact avoids_error h
  | ok a => exact avoids_ok e a

theorem avoids_orErrUnwind {ε' : Type _} [DecidableEq ε'] [Panics ε'] [Panics ε] {x : Except ε' α}
    (h : e' ≠ e) (hpanic : Panics.panic ≠ e) : Avoids e (orErrUnwind x e') := by
  cases x with
  | error d =>
      unfold orErrUnwind
      dsimp only
      split
      · exact avoids_error hpanic
      · exact avoids_error h
  | ok a => exact avoids_ok e a

end ExceptRules
