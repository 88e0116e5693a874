/-
Programs on a state that may be cut off after any of their steps.

# Programs

A program takes a state to a result, the state it ends in and the states
it passed on its way, one for each step. A cut may leave any of the
states passed, or the one the program started in.

# Rules

`Meets crash post m s` says that from `s` every state the program passes
is a `crash` state and that it ends in `post`. There is one rule for each
way a program is put together. `Shows` says that what a program does,
seen through a view of its states, is what a plain state transformer
does.
-/
import Mathlib.Logic.Basic

universe u v w

/-- What a program did. -/
structure CrashRun (σ : Type u) (ε : Type v) (α : Type w) where
  result : Except ε α
  state : σ
  passed : List σ

/-- A program. -/
def CrashM (σ : Type u) (ε : Type v) (α : Type w) := σ → CrashRun σ ε α

namespace CrashM

variable {σ : Type u} {ε : Type v} {α β : Type w}

/-- A computation that takes no step. -/
def lift (x : Except ε α) : CrashM σ ε α := fun s => ⟨x, s, []⟩

/-- One step. -/
def step (f : σ → Except ε α × σ) : CrashM σ ε α := fun s => ⟨(f s).1, (f s).2, [(f s).2]⟩

def bind (m : CrashM σ ε α) (f : α → CrashM σ ε β) : CrashM σ ε β := fun s =>
  match (m s).result with
  | .ok a =>
      let rest := f a (m s).state
      ⟨rest.result, rest.state, (m s).passed ++ rest.passed⟩
  | .error e => ⟨.error e, (m s).state, (m s).passed⟩

instance : Monad (CrashM σ ε) where
  pure a := lift (.ok a)
  bind := bind

/-- The program, and where it fails a cleanup whose own result is dropped. -/
def onError (m : CrashM σ ε α) (cleanup : CrashM σ ε β) : CrashM σ ε α := fun s =>
  match (m s).result with
  | .ok _ => m s
  | .error e =>
      let rest := cleanup (m s).state
      ⟨.error e, rest.state, (m s).passed ++ rest.passed⟩

/-- A program that goes on from whatever the first one returned. -/
def andThen (m : CrashM σ ε α) (f : Except ε α → CrashM σ ε β) : CrashM σ ε β := fun s =>
  let rest := f (m s).result (m s).state
  ⟨rest.result, rest.state, (m s).passed ++ rest.passed⟩

theorem step_result (f : σ → Except ε α × σ) (s : σ) : (step f s).result = (f s).1 := rfl

theorem step_state (f : σ → Except ε α × σ) (s : σ) : (step f s).state = (f s).2 := rfl

theorem bind_eq (m : CrashM σ ε α) (f : α → CrashM σ ε β) : m >>= f = m.bind f := rfl

-- ================================================================ rules

/-- Every state passed is a crash state, and the program ends as told. -/
structure Meets (crash : σ → Prop) (post : Except ε α → σ → Prop) (m : CrashM σ ε α) (s : σ) :
    Prop where
  passed : ∀ t ∈ (m s).passed, crash t
  ends : post (m s).result (m s).state

variable {crash crash' : σ → Prop} {post post' : Except ε α → σ → Prop} {m : CrashM σ ε α} {s : σ}

theorem Meets.mono (h : Meets crash post m s) (hcrash : ∀ t, crash t → crash' t)
    (hpost : ∀ r t, post r t → post' r t) : Meets crash' post' m s where
  passed t ht := hcrash t (h.passed t ht)
  ends := hpost _ _ h.ends

theorem meets_lift {x : Except ε α} (h : post x s) : Meets crash post (lift x) s where
  passed t ht := by cases ht
  ends := h

theorem meets_pure {a : α} (h : post (.ok a) s) : Meets crash post (pure a) s :=
  meets_lift h

theorem meets_step {f : σ → Except ε α × σ} (hcrash : crash (f s).2)
    (hpost : post (f s).1 (f s).2) : Meets crash post (step f) s where
  passed t ht := by
    rw [List.mem_singleton.mp ht]
    exact hcrash
  ends := hpost

theorem meets_bind {f : α → CrashM σ ε β} {post : Except ε β → σ → Prop}
    (h : Meets crash (fun r t => match r with
      | .ok a => Meets crash post (f a) t
      | .error e => post (.error e) t) m s) : Meets crash post (m >>= f) s := by
  obtain ⟨hpassed, hends⟩ := h
  rw [bind_eq]
  unfold bind
  constructor
  · intro t ht
    cases hr : (m s).result with
    | error e =>
        rw [hr] at ht
        exact hpassed t ht
    | ok a =>
        rw [hr] at ht hends
        rcases List.mem_append.mp ht with hfirst | hrest
        · exact hpassed t hfirst
        · exact hends.passed t hrest
  · cases hr : (m s).result with
    | error e =>
        rw [hr] at hends
        exact hends
    | ok a =>
        rw [hr] at hends
        exact hends.ends

theorem meets_andThen {f : Except ε α → CrashM σ ε β} {post : Except ε β → σ → Prop}
    (h : Meets crash (fun r t => Meets crash post (f r) t) m s) :
    Meets crash post (m.andThen f) s := by
  obtain ⟨hpassed, hends⟩ := h
  unfold andThen
  constructor
  · intro t ht
    rcases List.mem_append.mp ht with hfirst | hrest
    · exact hpassed t hfirst
    · exact hends.passed t hrest
  · exact hends.ends

theorem meets_onError {cleanup : CrashM σ ε β}
    (h : Meets crash (fun r t => match r with
      | .ok a => post (.ok a) t
      | .error e => Meets crash (fun _ u => post (.error e) u) cleanup t) m s) :
    Meets crash post (m.onError cleanup) s := by
  obtain ⟨hpassed, hends⟩ := h
  unfold onError
  constructor
  · intro t ht
    cases hr : (m s).result with
    | ok a =>
        rw [hr] at ht
        exact hpassed t ht
    | error e =>
        rw [hr] at ht hends
        rcases List.mem_append.mp ht with hfirst | hrest
        · exact hpassed t hfirst
        · exact hends.passed t hrest
  · cases hr : (m s).result with
    | ok a =>
        rw [hr] at hends
        show post (m s).result (m s).state
        rw [hr]
        exact hends
    | error e =>
        rw [hr] at hends
        exact hends.ends

-- ================================================================= views

/-- Seen through `view`, the program does what `spec` does. -/
def Shows {τ : Type u} (view : σ → τ) (spec : τ → Except ε α × τ) (m : CrashM σ ε α) (s : σ) :
    Prop :=
  spec (view s) = ((m s).result, view (m s).state)

variable {τ : Type u} {view : σ → τ} {spec : τ → Except ε α × τ}

/-- One state transformer after another. -/
def follow {γ : Type w} (spec : τ → Except ε γ × τ) (rest : γ → τ → Except ε β × τ) :
    τ → Except ε β × τ := fun t =>
  match spec t with
  | (.ok a, t) => rest a t
  | (.error e, t) => (.error e, t)

/-- A state transformer, and where it fails another for its state. -/
def recover (spec : τ → Except ε α × τ) (after : τ → Except ε β × τ) : τ → Except ε α × τ :=
  fun t =>
    match spec t with
    | (.ok a, t) => (.ok a, t)
    | (.error e, t) => (.error e, (after t).2)

/-- A program followed by another, where the two results are
not of one type. -/
theorem shows_bind_map {γ : Type w} {g : α → γ} {f : α → CrashM σ ε β}
    {spec : τ → Except ε γ × τ} {rest : γ → τ → Except ε β × τ}
    (h : spec (view s) = ((m s).result.map g, view (m s).state))
    (hrest : ∀ a, (m s).result = .ok a → Shows view (rest (g a)) (f a) (m s).state) :
    Shows view (follow spec rest) (m >>= f) s := by
  rw [bind_eq]
  unfold Shows bind follow at *
  rw [h]
  cases hr : (m s).result with
  | error e => rfl
  | ok a => exact hrest a hr

theorem shows_bind {f : α → CrashM σ ε β} {rest : α → τ → Except ε β × τ}
    (h : Shows view spec m s)
    (hrest : ∀ a, (m s).result = .ok a → Shows view (rest a) (f a) (m s).state) :
    Shows view (follow spec rest) (m >>= f) s := by
  unfold Shows at h
  refine @shows_bind_map _ _ _ _ m s _ view _ id f spec rest ?_ hrest
  rw [Except.map_id]
  exact h

theorem shows_onError {cleanup : CrashM σ ε β} {after : τ → Except ε β × τ}
    (h : Shows view spec m s)
    (hcleanup : ∀ e, (m s).result = .error e → Shows view after cleanup (m s).state) :
    Shows view (recover spec after) (m.onError cleanup) s := by
  unfold Shows onError recover at *
  rw [h]
  cases hr : (m s).result with
  | ok a =>
      show (Except.ok a, view (m s).state) = ((m s).result, view (m s).state)
      rw [hr]
  | error e =>
      show (Except.error e, (after (view (m s).state)).2) = _
      rw [hcleanup e hr]

end CrashM
