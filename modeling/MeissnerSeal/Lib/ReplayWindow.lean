/-
Replay protection by remembered identifiers: a window of the identifiers
accepted so far, each with the time from which it may be forgotten.

# The rule

A window may drop an entry once it has expired, and must hold every
other one (`Remembers`). An identifier the window does not hold is then
free: whatever was accepted under it has expired (`NoReplay.accept`). If
nothing is accepted after its own expiry, no pair of identifier and
expiry is accepted twice (`NoReplay.nodup`).
-/
import Mathlib.Order.Basic
import Mathlib.Data.List.Basic

universe u w

namespace ReplayWindow

/-- Something accepted: its identifier, its expiry (`none` is never) and
when it was accepted. -/
structure Acceptance (κ : Type u) (τ : Type w) where
  id : κ
  expiry : Option τ
  time : τ

variable {κ : Type u} {τ : Type w} [Preorder τ]

/-- The expiry is reached. -/
def Expired (now : τ) (expiry : Option τ) : Prop := ∃ limit, expiry = some limit ∧ limit ≤ now

/-- The window holds what was accepted and has not expired. -/
def Remembers (log : List (Acceptance κ τ)) (now : τ) (window : List (κ × Option τ)) : Prop :=
  ∀ a ∈ log, Expired now a.expiry ∨ (a.id, a.expiry) ∈ window

/-- Nothing was accepted under an identifier still in use. -/
def NoReplay (log : List (Acceptance κ τ)) : Prop :=
  log.Pairwise fun first second => first.id = second.id → Expired second.time first.expiry

variable {log : List (Acceptance κ τ)} {now later : τ} {window window' : List (κ × Option τ)}
  {a : Acceptance κ τ}

theorem Expired.mono {expiry : Option τ} (h : Expired now expiry) (hle : now ≤ later) :
    Expired later expiry := by
  obtain ⟨limit, hlimit, hpast⟩ := h
  exact ⟨limit, hlimit, le_trans hpast hle⟩

/-- A window that drops only what has expired still remembers. -/
theorem Remembers.evict (h : Remembers log now window) (hle : now ≤ later)
    (hkeep : ∀ entry ∈ window, ¬ Expired later entry.2 → entry ∈ window') :
    Remembers log later window' := by
  intro a ha
  rcases h a ha with hexpired | hmem
  · exact .inl (hexpired.mono hle)
  · by_cases hexpired : Expired later a.expiry
    · exact .inl hexpired
    · exact .inr (hkeep _ hmem hexpired)

theorem Remembers.mono (h : Remembers log now window) (hle : now ≤ later) :
    Remembers log later window :=
  h.evict hle fun _ hmem _ => hmem

theorem Remembers.accept (h : Remembers log now window) (a : Acceptance κ τ) :
    Remembers (log ++ [a]) now (window ++ [(a.id, a.expiry)]) := by
  intro b hb
  rcases List.mem_append.mp hb with hb | hb
  · exact (h b hb).imp_right fun hmem => List.mem_append_left _ hmem
  · rw [List.mem_singleton.mp hb]
    exact .inr (List.mem_append_right _ (List.mem_singleton_self _))

/-- Accepting an identifier the window does not hold is no replay. -/
theorem NoReplay.accept (h : NoReplay log) (hwindow : Remembers log now window)
    (hnew : a.id ∉ window.map Prod.fst) (hle : now ≤ a.time) : NoReplay (log ++ [a]) := by
  refine List.pairwise_append.mpr ⟨h, List.pairwise_singleton .., fun b hb c hc hid => ?_⟩
  rw [List.mem_singleton.mp hc] at hid ⊢
  rcases hwindow b hb with hexpired | hmem
  · exact hexpired.mono hle
  · rw [← hid] at hnew
    exact absurd (List.mem_map_of_mem hmem) hnew

/-- No pair is accepted twice, if nothing is accepted after its expiry. -/
theorem NoReplay.nodup (h : NoReplay log) (hlive : ∀ a ∈ log, ¬ Expired a.time a.expiry) :
    (log.map fun a => (a.id, a.expiry)).Nodup := by
  rw [List.nodup_iff_pairwise_ne, List.pairwise_map]
  refine h.imp_of_mem fun {first second} _ hsecond hexpired heq => ?_
  obtain ⟨hid, hexpiry⟩ := Prod.mk.inj heq
  rw [hexpiry] at hexpired
  exact hlive second hsecond (hexpired hid)

end ReplayWindow
