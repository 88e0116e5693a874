/-
Half-open spans that share no position, found by a pass over neighbours.

A pass that compares each span with the next sees only neighbours. After a
sort by where the spans start that is enough: if each ends before the next
starts, any two are apart (`SortsByStart.pairwise_apart`). For spans that
are not empty the converse holds, whichever way the sort left those that
start together (`SortsByStart.isChain_iff`).
-/
import Mathlib.Data.List.Chain
import Mathlib.Order.Lattice

namespace DisjointSpans

variable {α : Type _}

/-- The first span ends before the second starts. -/
def Before [LE α] (s t : α × α) : Prop := s.2 ≤ t.1

/-- One of the two spans ends before the other starts. -/
def Apart [LE α] (s t : α × α) : Prop := Before s t ∨ Before t s

instance [LE α] [DecidableLE α] (s t : α × α) : Decidable (Before s t) :=
  inferInstanceAs (Decidable (s.2 ≤ t.1))

instance [LE α] [DecidableLE α] (s t : α × α) : Decidable (Apart s t) :=
  inferInstanceAs (Decidable (Before s t ∨ Before t s))

theorem Apart.symm [LE α] {s t : α × α} (h : Apart s t) : Apart t s := Or.symm h

-- ========================================================= neighbours

section

variable [Preorder α] {spans : List (α × α)}

theorem pairwise_before (hspan : ∀ s ∈ spans, s.1 ≤ s.2) (h : spans.IsChain Before) :
    spans.Pairwise Before := by
  induction spans with
  | nil => exact List.Pairwise.nil
  | cons s spans ih =>
      cases spans with
      | nil => exact List.pairwise_singleton _ _
      | cons t spans =>
          obtain ⟨hst, hrest⟩ := List.isChain_cons_cons.mp h
          have hpairs := ih (fun u hu => hspan u (List.mem_cons_of_mem _ hu)) hrest
          have ht : t.1 ≤ t.2 := hspan t (by simp)
          refine List.pairwise_cons.mpr ⟨fun u hu => ?_, hpairs⟩
          rcases List.mem_cons.mp hu with rfl | hu
          · exact hst
          · have htu : t.2 ≤ u.1 := (List.pairwise_cons.mp hpairs).1 u hu
            exact le_trans (le_trans hst ht) htu

/-- Of two spans that are apart and not empty, the one that starts no later
ends first. -/
theorem Apart.before {s t : α × α} (h : Apart s t) (hstart : s.1 ≤ t.1) (ht : t.1 < t.2) :
    Before s t := by
  rcases h with h | h
  · exact h
  · exact absurd (lt_of_lt_of_le ht (le_trans h hstart)) (lt_irrefl _)

end

-- =============================================================== sorts

/-- A sort by where the spans start; those that start together come
in any order. -/
structure SortsByStart [LE α] (sort : List (α × α) → List (α × α)) : Prop where
  perm : ∀ spans, (sort spans).Perm spans
  sorted : ∀ spans, (sort spans).Pairwise fun s t => s.1 ≤ t.1

section

variable [Preorder α] {sort : List (α × α) → List (α × α)} {spans : List (α × α)}

/-- Where neighbours follow one another, no two spans overlap. -/
theorem SortsByStart.pairwise_apart (hsort : SortsByStart sort) (hspan : ∀ s ∈ spans, s.1 ≤ s.2)
    (h : (sort spans).IsChain Before) : spans.Pairwise Apart := by
  have hperm := hsort.perm spans
  have hpairs := pairwise_before (fun s hs => hspan s (hperm.mem_iff.mp hs)) h
  exact (hperm.pairwise_iff Apart.symm).mp (hpairs.imp Or.inl)

/-- Of spans that are not empty, neighbours follow one another exactly when
no two overlap. -/
theorem SortsByStart.isChain_iff (hsort : SortsByStart sort) (hspan : ∀ s ∈ spans, s.1 < s.2) :
    (sort spans).IsChain Before ↔ spans.Pairwise Apart := by
  have hperm := hsort.perm spans
  constructor
  · exact hsort.pairwise_apart fun s hs => le_of_lt (hspan s hs)
  · intro h
    have hapart := (hperm.pairwise_iff Apart.symm).mpr h
    refine List.Pairwise.isChain ?_
    refine List.Pairwise.imp_of_mem ?_ (hapart.and (hsort.sorted spans))
    intro s t _ ht ⟨hst, hstart⟩
    exact hst.before hstart (hspan t (hperm.mem_iff.mp ht))

end

/-- A merge sort by the starts. -/
theorem sortsByStart_mergeSort [LinearOrder α] :
    SortsByStart (List.mergeSort · fun s t : α × α => decide (s.1 ≤ t.1)) where
  perm spans := List.mergeSort_perm spans _
  sorted spans := by
    have htrans : ∀ s t u : α × α, decide (s.1 ≤ t.1) = true → decide (t.1 ≤ u.1) = true →
        decide (s.1 ≤ u.1) = true := by
      intro s t u hst htu
      rw [decide_eq_true_eq] at hst htu ⊢
      exact le_trans hst htu
    have htotal : ∀ s t : α × α, (decide (s.1 ≤ t.1) || decide (t.1 ≤ s.1)) = true := by
      intro s t
      rw [Bool.or_eq_true, decide_eq_true_eq, decide_eq_true_eq]
      exact le_total s.1 t.1
    have hpairs := List.pairwise_mergeSort htrans htotal spans
    exact hpairs.imp fun h => decide_eq_true_eq.mp h

end DisjointSpans
