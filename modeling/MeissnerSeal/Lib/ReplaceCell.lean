/-
A shared cell that processes update by read, modify, replace, with no
lock: each loads the value, computes its own, and later stores it over
whatever the cell then holds.

# What survives

A store does not see the stores made since its load. So a property of
the cell's value survives a run when every process that stores in it
also loads in it, and preserves the property from what it loaded to what
it stores (`Cell.Run.preserved`). Nothing is said of a process that
loaded before and stores after: it may undo anything.
-/
import Mathlib.Logic.Function.Basic
import Mathlib.Data.List.Basic

universe u w

/-- Where a process stands: it has not loaded, holds what it
loaded, or is done. -/
inductive CellStage (σ : Type u) where
  | ready
  | holding (x : σ)
  | finished

/-- The cell, its processes, and those that have stored, oldest first. -/
structure Cell (κ : Type w) (σ : Type u) where
  value : σ
  stage : κ → CellStage σ
  commits : List κ

namespace Cell

variable {κ : Type w} {σ : Type u} [DecidableEq κ] {op : κ → σ → σ → Prop} {c c' : Cell κ σ}
  {P : σ → Prop}

/-- The cell with one process moved on. -/
def setStage (c : Cell κ σ) (k : κ) (stage : CellStage σ) : Cell κ σ :=
  { c with stage := Function.update c.stage k stage }

@[simp] theorem setStage_self (c : Cell κ σ) (k : κ) (stage : CellStage σ) :
    (c.setStage k stage).stage k = stage := Function.update_self ..

@[simp] theorem setStage_of_ne (c : Cell κ σ) {k j : κ} (stage : CellStage σ) (h : j ≠ k) :
    (c.setStage k stage).stage j = c.stage j := Function.update_of_ne h ..

theorem setStage_eq {k : κ} {stage : CellStage σ} (h : c.stage k = stage) :
    c.setStage k stage = c := by
  rw [setStage, ← h, Function.update_eq_self]

/-- One step of process `k`; `op k x y` is that it may store `y` after
loading `x`. -/
inductive Step (op : κ → σ → σ → Prop) (c : Cell κ σ) (k : κ) : Cell κ σ → Prop where
  | idle : Step op c k c
  | load (hstage : c.stage k = .ready) : Step op c k (c.setStage k (.holding c.value))
  | quit : Step op c k (c.setStage k .finished)
  | store {x y : σ} (hstage : c.stage k = .holding x) (hop : op k x y) :
      Step op c k { c.setStage k .finished with value := y, commits := c.commits ++ [k] }

/-- A run of the processes a schedule names, in order. -/
inductive Run (op : κ → σ → σ → Prop) : Cell κ σ → List κ → Cell κ σ → Prop where
  | nil (c : Cell κ σ) : Run op c [] c
  | cons {c c₁ c' : Cell κ σ} {k : κ} {ks : List κ} (hstep : Step op c k c₁)
      (hrest : Run op c₁ ks c') : Run op c (k :: ks) c'

/-- Commits are only added. -/
theorem Step.commits_grow {k : κ} (h : Step op c k c') :
    ∃ new, c'.commits = c.commits ++ new ∧ ∀ j ∈ new, j = k := by
  cases h with
  | idle => exact ⟨[], (List.append_nil _).symm, fun j hj => nomatch hj⟩
  | load _ => exact ⟨[], (List.append_nil _).symm, fun j hj => nomatch hj⟩
  | quit => exact ⟨[], (List.append_nil _).symm, fun j hj => nomatch hj⟩
  | store _ _ => exact ⟨[k], rfl, fun j hj => List.mem_singleton.mp hj⟩

theorem Run.commits_grow {ks : List κ} (h : Run op c ks c') :
    ∃ new, c'.commits = c.commits ++ new := by
  induction h with
  | nil c => exact ⟨[], (List.append_nil _).symm⟩
  | cons hstep _ ih =>
      obtain ⟨new, hnew, -⟩ := hstep.commits_grow
      obtain ⟨rest, hrest⟩ := ih
      exact ⟨new ++ rest, by rw [hrest, hnew, List.append_assoc]⟩

/-- A process that is done stays done. -/
theorem Step.finished {k j : κ} (h : Step op c k c') (hj : c.stage j = .finished) :
    c'.stage j = .finished := by
  have hset : ∀ {stage : CellStage σ}, (j = k → stage = .finished) →
      (c.setStage k stage).stage j = .finished := by
    intro stage hstage
    by_cases hjk : j = k
    · subst hjk
      rw [setStage_self, hstage rfl]
    · rw [setStage_of_ne c stage hjk, hj]
  cases h with
  | idle => exact hj
  | load hstage =>
      refine hset fun hjk => ?_
      subst hjk
      rw [hj] at hstage
      cases hstage
  | quit => exact hset fun _ => rfl
  | store _ _ => exact hset fun _ => rfl

/-- A process that stores in a run was not done before it. -/
theorem Run.not_finished {ks new : List κ} {j : κ} (h : Run op c ks c')
    (hnew : c'.commits = c.commits ++ new) (hj : j ∈ new) : c.stage j ≠ .finished := by
  induction h generalizing new with
  | nil c =>
      rw [List.self_eq_append_right.mp hnew] at hj
      cases hj
  | @cons c c₁ c' k ks hstep hrest ih =>
      intro hdone
      obtain ⟨rest, hrest'⟩ := hrest.commits_grow
      obtain ⟨first, hfirst, hk⟩ := hstep.commits_grow
      rw [hrest', hfirst, List.append_assoc] at hnew
      rw [← List.append_cancel_left hnew] at hj
      rcases List.mem_append.mp hj with hj | hj
      · obtain rfl := hk j hj
        cases hstep with
        | idle => exact absurd hfirst (by simpa using List.ne_nil_of_mem hj)
        | load _ => exact absurd hfirst (by simpa [setStage] using List.ne_nil_of_mem hj)
        | quit => exact absurd hfirst (by simpa [setStage] using List.ne_nil_of_mem hj)
        | store hstage _ =>
            rw [hdone] at hstage
            cases hstage
      · exact ih hrest' hj (hstep.finished hdone)

/-- The property holds of the cell and of what the processes hold, except
those of `stale`, which are not to store. -/
structure Fresh (P : σ → Prop) (stale : κ → Prop) (c : Cell κ σ) : Prop where
  value : P c.value
  held : ∀ k x, c.stage k = .holding x → ¬ stale k → P x

theorem Step.fresh {stale : κ → Prop} {k : κ} (h : Step op c k c') (hfresh : Fresh P stale c)
    (hop : ∀ new, c'.commits = c.commits ++ new → ∀ j ∈ new, ¬ stale j
      ∧ ∀ x y, op j x y → P x → P y) : Fresh P stale c' := by
  have hstages : ∀ {stage : CellStage σ} {v : σ} {log : List κ},
      (∀ x, stage = .holding x → P x) → P v →
      Fresh P stale { c.setStage k stage with value := v, commits := log } := by
    intro stage v log hstage hv
    refine ⟨hv, fun j x hj hstale => ?_⟩
    by_cases hjk : j = k
    · subst hjk
      exact hstage x ((c.setStage_self j stage).symm.trans hj)
    · exact hfresh.held j x ((c.setStage_of_ne stage hjk).symm.trans hj) hstale
  cases h with
  | idle => exact hfresh
  | load _ =>
      refine hstages (fun x hx => ?_) hfresh.value
      cases hx
      exact hfresh.value
  | quit => exact hstages (fun x hx => nomatch hx) hfresh.value
  | store hstage hstore =>
      obtain ⟨hstale, hpreserves⟩ := hop [k] rfl k (List.mem_singleton_self k)
      have hnew := hpreserves _ _ hstore (hfresh.held k _ hstage hstale)
      exact hstages (fun x hx => nomatch hx) hnew

theorem Run.fresh {stale : κ → Prop} {ks : List κ} (h : Run op c ks c') (hfresh : Fresh P stale c)
    (hop : ∀ new, c'.commits = c.commits ++ new → ∀ j ∈ new, ¬ stale j
      ∧ ∀ x y, op j x y → P x → P y) : Fresh P stale c' := by
  induction h with
  | nil c => exact hfresh
  | @cons c c₁ c' k ks hstep hrest ih =>
      obtain ⟨rest, hrest'⟩ := hrest.commits_grow
      have hfirst : Fresh P stale c₁ := by
        refine hstep.fresh hfresh fun new hnew j hj => ?_
        rw [hnew, List.append_assoc] at hrest'
        exact hop _ hrest' j (List.mem_append_left _ hj)
      refine ih hfirst fun new hnew j hj => ?_
      obtain ⟨first, hfirst', -⟩ := hstep.commits_grow
      rw [hfirst', List.append_assoc] at hnew
      exact hop _ hnew j (List.mem_append_right _ hj)

/-- A property survives a run in which no process stores what it loaded
before it, and every store of the run preserves it. -/
theorem Run.preserved {ks : List κ} (h : Run op c ks c') (hP : P c.value)
    (hop : ∀ new, c'.commits = c.commits ++ new → ∀ j ∈ new, (∀ x, c.stage j ≠ .holding x)
      ∧ ∀ x y, op j x y → P x → P y) : P c'.value := by
  have hfresh : Fresh P (fun k => ∃ x, c.stage k = .holding x) c :=
    ⟨hP, fun k x hk hnot => absurd ⟨x, hk⟩ hnot⟩
  refine (h.fresh hfresh fun new hnew j hj => ?_).value
  obtain ⟨hnot, hpreserves⟩ := hop new hnew j hj
  exact ⟨fun ⟨x, hx⟩ => hnot x hx, hpreserves⟩

end Cell
