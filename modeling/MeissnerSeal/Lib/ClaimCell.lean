/-
A cell that processes fill by claiming it first, with no lock but the
claim.

# The claim

A process claims the cell while it is empty, may then put values into it,
and ends by keeping its last value there (`won`) or by giving the claim up
(`out`), with the cell emptied or not. Nothing else touches the cell.

# What it gives

While a process holds the cell or has won it, the cell holds what that
process put there, and no other process holds or has won it
(`ClaimCell.Exclusive`). A value from before the run stays.
-/
import Mathlib.Logic.Function.Basic
import Mathlib.Data.List.Basic

universe u w

/-- Where a process stands. -/
inductive ClaimStage (σ : Type u) where
  | outside
  | holding (x : σ)
  | won (x : σ)
  | out

/-- The process has the cell. -/
def ClaimStage.Has {σ : Type u} (stage : ClaimStage σ) (x : σ) : Prop :=
  stage = .holding x ∨ stage = .won x

/-- The cell and its processes. -/
structure ClaimCell (κ : Type w) (σ : Type u) where
  value : Option σ
  stage : κ → ClaimStage σ

namespace ClaimCell

variable {κ : Type w} {σ : Type u} [DecidableEq κ] {c c' : ClaimCell κ σ} {start : Option σ}

/-- Before any process. -/
def init (start : Option σ) : ClaimCell κ σ where
  value := start
  stage _ := .outside

/-- The cell with one process moved on and a value put into it. -/
def move (c : ClaimCell κ σ) (k : κ) (stage : ClaimStage σ) (value : Option σ) : ClaimCell κ σ where
  value := value
  stage := Function.update c.stage k stage

@[simp] theorem move_self (c : ClaimCell κ σ) (k : κ) (stage : ClaimStage σ) (value : Option σ) :
    (c.move k stage value).stage k = stage := Function.update_self ..

@[simp] theorem move_of_ne (c : ClaimCell κ σ) {k j : κ} (stage : ClaimStage σ) (value : Option σ)
    (h : j ≠ k) : (c.move k stage value).stage j = c.stage j := Function.update_of_ne h ..

theorem move_eq {k : κ} {stage : ClaimStage σ} {value : Option σ} (hstage : c.stage k = stage)
    (hvalue : value = c.value) : c.move k stage value = c := by
  rw [move, ← hstage, Function.update_eq_self, hvalue]

/-- One step of process `k`. -/
inductive Step (c : ClaimCell κ σ) (k : κ) : ClaimCell κ σ → Prop where
  | idle : Step c k c
  | claim (x : σ) (hstage : c.stage k = .outside) (hempty : c.value = none) :
      Step c k (c.move k (.holding x) (some x))
  | put {x : σ} (y : σ) (hstage : c.stage k = .holding x) : Step c k
        (c.move k (.holding y) (some y))
  | win {x : σ} (hstage : c.stage k = .holding x) : Step c k (c.move k (.won x) c.value)
  | leave (hstage : c.stage k = .outside) : Step c k (c.move k .out c.value)
  | giveUp {x : σ} (hstage : c.stage k = .holding x) (value : Option σ)
      (hvalue : value = none ∨ value = c.value) : Step c k (c.move k .out value)

/-- A process that stays where it is. -/
theorem Step.stay {k : κ} {stage : ClaimStage σ} {value : Option σ} (hstage : c.stage k = stage)
    (hvalue : value = c.value) : Step c k (c.move k stage value) := by
  rw [move_eq hstage hvalue]
  exact .idle

/-- Whoever has the cell has it alone, and the cell holds its value. -/
structure Exclusive (start : Option σ) (c : ClaimCell κ σ) : Prop where
  value : ∀ k x, (c.stage k).Has x → c.value = some x ∧ start = none
  unique : ∀ j k x y, (c.stage j).Has x → (c.stage k).Has y → j = k
  kept : ∀ x, start = some x → c.value = some x

omit [DecidableEq κ] in
theorem exclusive_init (start : Option σ) : (init start : ClaimCell κ σ).Exclusive start where
  value k x h := by
    rcases h with h | h
    · cases h
    · cases h
  unique j k x y h := by
    rcases h with h | h
    · cases h
    · cases h
  kept x h := h

/-- A process that takes the cell, when no other has it, has it alone. -/
theorem exclusive_of_take {k : κ} {stage : ClaimStage σ} {x : σ} (hstart : start = none)
    (hstage : ∀ y, stage.Has y → y = x)
    (halone : ∀ j y, (c.stage j).Has y → j = k) : (c.move k stage (some x)).Exclusive start := by
  have hothers : ∀ j y, ((c.move k stage (some x)).stage j).Has y → j = k := by
    intro j y hj
    by_cases hjk : j = k
    · exact hjk
    · rw [move_of_ne _ _ _ hjk] at hj
      exact halone j y hj
  refine ⟨fun j y hj => ?_, fun i j y z hi hj => ?_, fun y hy => ?_⟩
  · obtain rfl := hothers j y hj
    rw [move_self] at hj
    exact ⟨congrArg some (hstage y hj).symm, hstart⟩
  · rw [hothers i y hi, hothers j z hj]
  · rw [hstart] at hy
    cases hy

/-- A process that gives the cell up leaves it to nobody. -/
theorem Exclusive.drop {k : κ} {value : Option σ} (h : c.Exclusive start)
    (hvalue : ∀ j x, j ≠ k → (c.stage j).Has x → value = some x)
    (hkept : ∀ x, start = some x → value = some x) : (c.move k .out value).Exclusive start := by
  have hothers : ∀ j y, ((c.move k .out value).stage j).Has y → j ≠ k ∧ (c.stage j).Has y := by
    intro j y hj
    by_cases hjk : j = k
    · subst hjk
      rw [move_self] at hj
      rcases hj with hj | hj
      · cases hj
      · cases hj
    · rw [move_of_ne _ _ _ hjk] at hj
      exact ⟨hjk, hj⟩
  refine ⟨fun j y hj => ?_, fun i j y z hi hj => ?_, hkept⟩
  · obtain ⟨hjk, hhas⟩ := hothers j y hj
    exact ⟨hvalue j y hjk hhas, (h.value j y hhas).2⟩
  · exact h.unique i j y z (hothers i y hi).2 (hothers j z hj).2

theorem Step.exclusive {k : κ} (h : Step c k c') (hinv : c.Exclusive start) :
    c'.Exclusive start := by
  have halone : ∀ {x : σ}, c.stage k = .holding x → ∀ j y, (c.stage j).Has y → j = k :=
    fun hstage j y hj => hinv.unique j k y _ hj (.inl hstage)
  cases h with
  | idle => exact hinv
  | claim x hstage hempty =>
      refine exclusive_of_take ?_ (fun y hy => ?_) (fun j y hj => ?_)
      · cases hstart : start with
        | none => rfl
        | some y =>
            have hkept := hinv.kept y hstart
            rw [hempty] at hkept
            cases hkept
      · rcases hy with hy | hy
        · exact (ClaimStage.holding.inj hy).symm
        · cases hy
      · have hvalue := (hinv.value j y hj).1
        rw [hempty] at hvalue
        cases hvalue
  | put y hstage =>
      refine exclusive_of_take (hinv.value k _ (.inl hstage)).2 (fun z hz => ?_) (halone hstage)
      rcases hz with hz | hz
      · exact (ClaimStage.holding.inj hz).symm
      · cases hz
  | @win x hstage =>
      obtain ⟨hvalue, hstart⟩ := hinv.value k x (.inl hstage)
      rw [hvalue]
      refine exclusive_of_take hstart (fun z hz => ?_) (halone hstage)
      rcases hz with hz | hz
      · cases hz
      · exact (ClaimStage.won.inj hz).symm
  | leave hstage => exact hinv.drop (fun j x _ hj => (hinv.value j x hj).1) hinv.kept
  | giveUp hstage value hvalue =>
      refine hinv.drop (fun j x hjk hj => absurd (halone hstage j x hj) hjk) fun x hx => ?_
      rw [(hinv.value k _ (.inl hstage)).2] at hx
      cases hx

/-- A step that changes what the cell holds is of the process that has it. -/
theorem Step.holding_of_change {k : κ} {x : σ} (h : Step c k c') (hvalue : c.value = some x)
    (hchange : c'.value ≠ some x) : ∃ y, c.stage k = .holding y := by
  cases h with
  | idle => exact absurd hvalue hchange
  | claim y hstage hempty =>
      rw [hempty] at hvalue
      cases hvalue
  | put y hstage => exact ⟨_, hstage⟩
  | win hstage => exact ⟨_, hstage⟩
  | leave hstage => exact absurd hvalue hchange
  | giveUp hstage value hvalue => exact ⟨_, hstage⟩

end ClaimCell
