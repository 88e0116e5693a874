/-
Lists that only grow.

`Grows R before after` says that every element of `before` still stands
where it stood, as something `R` lets it become; behind them `after` may go
on. A replacement in place and an append are of this kind, and one growth
after another is a third (`Grows.trans`). Where `R` keeps a key, the keys of
`before` come first, in their order, among those of `after`
(`Grows.map_isPrefix`); where no key is there twice, an element of `before`
and one of `after` with its key are what `R` says of them
(`Grows.of_key_eq`).
-/
import Mathlib.Data.List.Nodup

namespace GrowingList

variable {α β : Type _} {R S T : α → α → Prop} {before between after : List α}

/-- Every element stays where it is, as something `R` allows. -/
def Grows (R : α → α → Prop) (before after : List α) : Prop :=
  ∀ (i : Nat) (a : α), before[i]? = some a → ∃ b, after[i]? = some b ∧ R a b

theorem Grows.refl (hR : ∀ a, R a a) (l : List α) : Grows R l l :=
  fun _ a ha => ⟨a, ha, hR a⟩

/-- One growth after another; only elements of the first list count. -/
theorem Grows.trans (h : Grows R before between) (h' : Grows S between after)
    (hcomp : ∀ a ∈ before, ∀ b c, R a b → S b c → T a c) : Grows T before after := by
  intro i a ha
  obtain ⟨b, hb, hab⟩ := h i a ha
  obtain ⟨c, hc, hbc⟩ := h' i b hb
  exact ⟨c, hc, hcomp a (List.mem_of_getElem? ha) b c hab hbc⟩

theorem Grows.imp (h : Grows R before after) (himp : ∀ a ∈ before, ∀ b, R a b → S a b) :
    Grows S before after := by
  intro i a ha
  obtain ⟨b, hb, hab⟩ := h i a ha
  exact ⟨b, hb, himp a (List.mem_of_getElem? ha) b hab⟩

theorem grows_append (hR : ∀ a, R a a) (l more : List α) : Grows R l (l ++ more) := by
  intro i a ha
  obtain ⟨hlt, -⟩ := List.getElem?_eq_some_iff.mp ha
  refine ⟨a, ?_, hR a⟩
  rw [List.getElem?_append_left hlt]
  exact ha

theorem grows_set (hR : ∀ a, R a a) {l : List α} {position : Nat} {b : α}
    (hb : ∀ a, l[position]? = some a → R a b) : Grows R l (l.set position b) := by
  intro i a ha
  obtain ⟨hlt, -⟩ := List.getElem?_eq_some_iff.mp ha
  rw [List.getElem?_set]
  by_cases hi : position = i
  · subst hi
    rw [if_pos rfl, if_pos hlt]
    exact ⟨b, rfl, hb a ha⟩
  · rw [if_neg hi]
    exact ⟨a, ha, hR a⟩

theorem Grows.exists_of_mem (h : Grows R before after) {a : α} (ha : a ∈ before) :
    ∃ b ∈ after, R a b := by
  obtain ⟨i, hi⟩ := List.getElem?_of_mem ha
  obtain ⟨b, hb, hab⟩ := h i a hi
  exact ⟨b, List.mem_of_getElem? hb, hab⟩

-- ================================================================ keys

variable {key : α → β}

/-- The old keys come first, in their order. -/
theorem Grows.map_isPrefix (h : Grows R before after) (hkey : ∀ a b, R a b → key b = key a) :
    before.map key <+: after.map key := by
  rw [List.prefix_iff_getElem?]
  intro i hi
  rw [List.length_map] at hi
  obtain ⟨b, hb, hab⟩ := h i before[i] (List.getElem?_eq_getElem hi)
  rw [List.getElem?_map, hb, List.getElem_map, Option.map_some, hkey _ _ hab]

/-- Among distinct keys, what has the key of an old element is what
became of it. -/
theorem Grows.of_key_eq (h : Grows R before after) (hkey : ∀ a b, R a b → key b = key a)
    (hnodup : (after.map key).Nodup) {a b : α} (ha : a ∈ before) (hb : b ∈ after)
    (heq : key b = key a) : R a b := by
  obtain ⟨c, hc, hac⟩ := h.exists_of_mem ha
  obtain rfl : b = c := List.inj_on_of_nodup_map hnodup hb hc (heq.trans (hkey a c hac).symm)
  exact hac

end GrowingList
