/-
Tilings of an initial segment.

A list of half-open sections tiles `[0, n)` when each lies within it, no
two overlap, and no position is left out (`Tiles`). Sections laid one
after the other do (`Abut.tiles`), and their lengths add up
(`Abut.sum_eq`).
-/
import Mathlib.Algebra.GroupWithZero.Nat
import Mathlib.Data.List.Basic

namespace Tiling

/-- The sections `[lo, hi)` account for every position below `n` once. -/
structure Tiles (sections : List (Nat × Nat)) (n : Nat) : Prop where
  within : ∀ s ∈ sections, s.1 ≤ s.2 ∧ s.2 ≤ n
  disjoint : sections.Pairwise fun s t => s.2 ≤ t.1 ∨ t.2 ≤ s.1
  covered : ∀ i < n, ∃ s ∈ sections, s.1 ≤ i ∧ i < s.2

/-- The sections follow one another from `start` to `stop`. -/
def Abut : Nat → List (Nat × Nat) → Nat → Prop
  | start, [], stop => start = stop
  | start, s :: sections, stop => s.1 = start ∧ start ≤ s.2 ∧ Abut s.2 sections stop

theorem Abut.le {start stop : Nat} {sections : List (Nat × Nat)} (h : Abut start sections stop) :
    start ≤ stop := by
  induction sections generalizing start with
  | nil => exact Nat.le_of_eq h
  | cons s sections ih => exact Nat.le_trans h.2.1 (ih h.2.2)

theorem Abut.append {start mid stop : Nat} {left right : List (Nat × Nat)}
    (hleft : Abut start left mid) (hright : Abut mid right stop) :
    Abut start (left ++ right) stop := by
  induction left generalizing start with
  | nil =>
      obtain rfl : start = mid := hleft
      exact hright
  | cons s left ih => exact ⟨hleft.1, hleft.2.1, ih hleft.2.2⟩

theorem Abut.bounds {start stop : Nat} {sections : List (Nat × Nat)}
    (h : Abut start sections stop) : ∀ s ∈ sections, start ≤ s.1 ∧ s.1 ≤ s.2 ∧ s.2 ≤ stop := by
  induction sections generalizing start with
  | nil => simp
  | cons s sections ih =>
      obtain ⟨rfl, hle, hrest⟩ := h
      refine List.forall_mem_cons.mpr ⟨⟨Nat.le_refl _, hle, hrest.le⟩, fun t ht => ?_⟩
      obtain ⟨hlo, hbounds⟩ := ih hrest t ht
      exact ⟨Nat.le_trans hle hlo, hbounds⟩

/-- The lengths of sections that abut add up. -/
theorem Abut.sum_eq {start stop : Nat} {sections : List (Nat × Nat)}
    (h : Abut start sections stop) : start + (sections.map fun s => s.2 - s.1).sum = stop := by
  induction sections generalizing start with
  | nil =>
      rw [List.map_nil, List.sum_nil, Nat.add_zero]
      exact h
  | cons s sections ih =>
      obtain ⟨rfl, hle, hrest⟩ := h
      have hsum := ih hrest
      rw [List.map_cons, List.sum_cons]
      omega

theorem Abut.disjoint {start stop : Nat} {sections : List (Nat × Nat)}
    (h : Abut start sections stop) :
    sections.Pairwise fun s t => s.2 ≤ t.1 ∨ t.2 ≤ s.1 := by
  induction sections generalizing start with
  | nil => exact List.Pairwise.nil
  | cons s sections ih =>
      exact List.pairwise_cons.mpr ⟨fun t ht => .inl (h.2.2.bounds t ht).1, ih h.2.2⟩

theorem Abut.covered {start stop : Nat} {sections : List (Nat × Nat)}
    (h : Abut start sections stop) {i : Nat} (hlo : start ≤ i) (hhi : i < stop) :
    ∃ s ∈ sections, s.1 ≤ i ∧ i < s.2 := by
  induction sections generalizing start with
  | nil =>
      obtain rfl : start = stop := h
      omega
  | cons s sections ih =>
      obtain ⟨rfl, -, hrest⟩ := h
      by_cases hin : i < s.2
      · exact ⟨s, List.mem_cons_self .., hlo, hin⟩
      · obtain ⟨t, ht, hcover⟩ := ih hrest (Nat.le_of_not_lt hin)
        exact ⟨t, List.mem_cons_of_mem _ ht, hcover⟩

/-- Sections laid one after the other from the first position tile. -/
theorem Abut.tiles {n : Nat} {sections : List (Nat × Nat)} (h : Abut 0 sections n) :
    Tiles sections n where
  within := fun s hs => (h.bounds s hs).2
  disjoint := h.disjoint
  covered := fun _ hi => h.covered (Nat.zero_le _) hi

/-- Where every section lies apart from a stretch of positions, a tiling
leaves no such stretch. -/
theorem Tiles.no_gap {n lo hi : Nat} {sections : List (Nat × Nat)} (h : Tiles sections n)
    (hapart : ∀ s ∈ sections, s.2 ≤ lo ∨ hi ≤ s.1) (hn : hi ≤ n) : hi ≤ lo := by
  by_contra hlt
  obtain ⟨s, hs, hlo, hhi⟩ := h.covered lo (by omega)
  have hs' := hapart s hs
  omega

end Tiling
