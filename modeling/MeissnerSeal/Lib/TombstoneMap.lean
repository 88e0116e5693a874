/-
Insertion-ordered maps with tombstones: what an append-only table with
in-place replacement stores. A key is never forgotten — deleting it
leaves its place, empty — so a key has three conditions: absent, live,
dead.

# Laws

`status` is the observation everything else is stated through:
`status_push` and `status_assign` say how the two mutations move it, at
the key they name and at every other key, and `mem_live` ties the
ordered listing to it. A mutation that keeps the number of keys keeps
their order (`keys_assign`).
-/
import Mathlib.Data.List.Nodup

universe u w

/-- Keys in insertion order, each with its live value or a tombstone. -/
structure TombstoneMap (κ : Type u) (α : Type w) where
  entries : List (κ × Option α)
  nodup : (entries.map Prod.fst).Nodup

namespace TombstoneMap

variable {κ : Type u} {α : Type w}

def empty : TombstoneMap κ α := ⟨[], List.nodup_nil⟩

def keys (m : TombstoneMap κ α) : List κ := m.entries.map Prod.fst

/-- Live and dead keys alike. -/
def size (m : TombstoneMap κ α) : Nat := m.entries.length

/-- The live pairs, in insertion order. -/
def live (m : TombstoneMap κ α) : List (κ × α) :=
  m.entries.filterMap fun entry => entry.2.map fun a => (entry.1, a)

/-- A new live key, last in order. -/
def push (m : TombstoneMap κ α) (k : κ) (a : α) (h : k ∉ m.keys) : TombstoneMap κ α where
  entries := m.entries ++ [(k, some a)]
  nodup := by
    rw [List.map_append, List.nodup_append]
    refine ⟨m.nodup, List.nodup_singleton k, ?_⟩
    intro j hj j' hj' heq
    have hk : j' = k := List.mem_singleton.mp hj'
    rw [heq, hk] at hj
    exact h hj

@[simp] theorem keys_push (m : TombstoneMap κ α) (k : κ) (a : α) (h : k ∉ m.keys) :
    (m.push k a h).keys = m.keys ++ [k] := by
  simp [push, keys]

theorem live_push (m : TombstoneMap κ α) (k : κ) (a : α) (h : k ∉ m.keys) :
    (m.push k a h).live = m.live ++ [(k, a)] := by
  simp [push, live]

@[simp] theorem size_push (m : TombstoneMap κ α) (k : κ) (a : α) (h : k ∉ m.keys) :
    (m.push k a h).size = m.size + 1 := by
  simp [push, size]

variable [DecidableEq κ]

/-- The condition of a key: `none` absent, `some none` dead, `some (some
a)` live with value `a`. -/
def status (m : TombstoneMap κ α) (k : κ) : Option (Option α) :=
  (m.entries.find? fun entry => entry.1 = k).map Prod.snd

/-- `push`, when the key is new. -/
def insert (m : TombstoneMap κ α) (k : κ) (a : α) : TombstoneMap κ α :=
  if h : k ∉ m.keys then m.push k a h else m

theorem insert_of_not_mem {m : TombstoneMap κ α} {k : κ} (a : α) (h : k ∉ m.keys) :
    m.insert k a = m.push k a h := dif_pos h

/-- One entry after `assign`. -/
def assignEntry (k : κ) (content : Option α) (entry : κ × Option α) : κ × Option α :=
  if entry.1 = k then (k, content) else entry

theorem fst_assignEntry (k : κ) (content : Option α) (entry : κ × Option α) :
    (assignEntry k content entry).1 = entry.1 := by
  unfold assignEntry
  split
  case isTrue h => exact h.symm
  case isFalse => rfl

/-- Replace what a key holds, in place: a value for an update, nothing
for a deletion. -/
def assign (m : TombstoneMap κ α) (k : κ) (content : Option α) : TombstoneMap κ α where
  entries := m.entries.map (assignEntry k content)
  nodup := by
    have hkeys : (m.entries.map (assignEntry k content)).map Prod.fst = m.keys := by
      rw [List.map_map]
      exact List.map_congr_left fun entry _ => fst_assignEntry k content entry
    rw [hkeys]
    exact m.nodup

@[simp] theorem keys_assign (m : TombstoneMap κ α) (k : κ) (content : Option α) :
    (m.assign k content).keys = m.keys := by
  rw [keys, assign, List.map_map]
  exact List.map_congr_left fun entry _ => fst_assignEntry k content entry

theorem status_eq_none {m : TombstoneMap κ α} {k : κ} : m.status k = none ↔ k ∉ m.keys := by
  rw [status, Option.map_eq_none_iff, List.find?_eq_none, keys]
  constructor
  · intro h hmem
    obtain ⟨entry, hentry, rfl⟩ := List.mem_map.mp hmem
    exact h entry hentry (by simp)
  · intro h entry hentry heq
    exact h (List.mem_map.mpr ⟨entry, hentry, by simpa using heq⟩)

/-- Keys being distinct, an entry is found under its key. -/
theorem status_eq_some {m : TombstoneMap κ α} {k : κ} {content : Option α} :
    m.status k = some content ↔ (k, content) ∈ m.entries := by
  obtain ⟨entries, hnodup⟩ := m
  simp only [status]
  induction entries with
  | nil => simp
  | cons entry entries ih =>
      obtain ⟨j, c⟩ := entry
      rw [List.map_cons, List.nodup_cons] at hnodup
      rw [List.find?_cons, List.mem_cons]
      by_cases hj : j = k
      · subst hj
        have hnot : (j, content) ∉ entries := fun hmem =>
          hnodup.1 (List.mem_map.mpr ⟨_, hmem, rfl⟩)
        simp [hnot, eq_comm]
      · have hne : (k, content) ≠ (j, c) := fun heq => hj (congrArg Prod.fst heq).symm
        simp only [decide_eq_false hj, hne, false_or]
        exact ih hnodup.2

theorem mem_live {m : TombstoneMap κ α} {k : κ} {a : α} :
    (k, a) ∈ m.live ↔ m.status k = some (some a) := by
  rw [status_eq_some, live, List.mem_filterMap]
  constructor
  · rintro ⟨⟨j, c⟩, hmem, heq⟩
    rw [Option.map_eq_some_iff] at heq
    obtain ⟨b, hb, hpair⟩ := heq
    simp only at hb hpair
    cases hpair
    subst hb
    exact hmem
  · intro hmem
    exact ⟨(k, some a), hmem, rfl⟩

theorem status_push (m : TombstoneMap κ α) (k j : κ) (a : α) (h : k ∉ m.keys) :
    (m.push k a h).status j = if j = k then some (some a) else m.status j := by
  rw [status, push, List.find?_append, Option.map_or]
  by_cases hj : j = k
  · subst hj
    rw [if_pos rfl]
    have hnone : (m.entries.find? fun entry => entry.1 = j).map Prod.snd = none :=
      status_eq_none.mpr h
    rw [hnone]
    simp
  · rw [if_neg hj]
    simp [Ne.symm hj, status]

theorem status_assign (m : TombstoneMap κ α) (k j : κ) (content : Option α) :
    (m.assign k content).status j
      = if j = k then (m.status k).map fun _ => content else m.status j := by
  obtain ⟨entries, hnodup⟩ := m
  simp only [status, assign]
  clear hnodup
  induction entries with
  | nil => simp
  | cons entry entries ih =>
      rw [List.map_cons, List.find?_cons, List.find?_cons, List.find?_cons, fst_assignEntry]
      by_cases hentry : entry.1 = j
      · by_cases hj : j = k
        · subst hj
          simp [hentry, assignEntry]
        · simp [hentry, hj, assignEntry]
      · simp only [decide_eq_false hentry]
        rw [ih]
        by_cases hj : j = k
        · subst hj
          simp [hentry]
        · simp [hj]

/-- No insertion brings a key back, or buries one. -/
theorem status_insert_eq_dead (m : TombstoneMap κ α) (k j : κ) (a : α) :
    (m.insert k a).status j = some none ↔ m.status j = some none := by
  unfold insert
  split
  case isFalse => rfl
  case isTrue h =>
    rw [status_push]
    by_cases hj : j = k
    · subst hj
      rw [if_pos rfl, status_eq_none.mpr h]
      simp
    · rw [if_neg hj]

/-- No insertion changes what a key holds. -/
theorem status_insert_of_some {m : TombstoneMap κ α} {k j : κ} {a : α} {content : Option α}
    (h : m.status j = some content) : (m.insert k a).status j = some content := by
  unfold insert
  split
  case isFalse => exact h
  case isTrue hk =>
    have hne : j ≠ k := fun heq => by
      rw [heq, status_eq_none.mpr hk] at h
      cases h
    rw [status_push, if_neg hne, h]

/-- Writing at the place of a key is assigning it. -/
theorem entries_assign {m : TombstoneMap κ α} {k : κ} {content old : Option α} {position : Nat}
    (h : m.entries[position]? = some (k, old)) :
    (m.assign k content).entries = m.entries.set position (k, content) := by
  obtain ⟨entries, hnodup⟩ := m
  simp only [assign] at h ⊢
  induction entries generalizing position with
  | nil => simp at h
  | cons entry entries ih =>
      rw [List.map_cons, List.nodup_cons] at hnodup
      cases position with
      | zero =>
          rw [List.getElem?_cons_zero, Option.some.injEq] at h
          subst h
          have hrest : entries.map (assignEntry k content) = entries.map id := by
            refine List.map_congr_left fun e he => if_neg ?_
            rintro rfl
            exact hnodup.1 (List.mem_map.mpr ⟨e, he, rfl⟩)
          rw [List.map_id] at hrest
          simp [assignEntry, hrest]
      | succ position =>
          rw [List.getElem?_cons_succ] at h
          have hne : entry.1 ≠ k := by
            intro heq
            have hmem := List.mem_of_getElem? h
            exact hnodup.1 (List.mem_map.mpr ⟨_, hmem, heq.symm⟩)
          rw [List.map_cons, List.set_cons_succ, ih hnodup.2 h, assignEntry, if_neg hne]

/-- Deleting removes the pair from the listing, and no other. -/
theorem live_assign_none (m : TombstoneMap κ α) (k : κ) :
    (m.assign k none).live = m.live.filter fun pair => pair.1 ≠ k := by
  obtain ⟨entries, hnodup⟩ := m
  simp only [live, assign]
  clear hnodup
  induction entries with
  | nil => rfl
  | cons entry entries ih =>
      obtain ⟨j, c⟩ := entry
      rw [List.map_cons, List.filterMap_cons, List.filterMap_cons, ih]
      by_cases hj : j = k
      · subst hj
        cases c with
        | none => simp [assignEntry]
        | some a => simp [assignEntry]
      · cases c with
        | none => simp [assignEntry, hj]
        | some a => simp [assignEntry, hj]

/-- A mutation at one key leaves the rest of the listing. -/
theorem live_filter_assign (m : TombstoneMap κ α) (k : κ) (content : Option α) :
    ((m.assign k content).live.filter fun pair => pair.1 ≠ k)
      = m.live.filter fun pair => pair.1 ≠ k := by
  obtain ⟨entries, hnodup⟩ := m
  simp only [live, assign]
  clear hnodup
  induction entries with
  | nil => rfl
  | cons entry entries ih =>
      obtain ⟨j, c⟩ := entry
      rw [List.map_cons, List.filterMap_cons, List.filterMap_cons]
      by_cases hj : j = k
      · subst hj
        cases content with
        | none => cases c <;> simpa [assignEntry] using ih
        | some b => cases c <;> simpa [assignEntry] using ih
      · cases c with
        | none => simpa [assignEntry, hj] using ih
        | some a => simpa [assignEntry, hj] using ih

/-- A live key stands once in the listing. -/
theorem live_filter_key {m : TombstoneMap κ α} {k : κ} {a : α}
    (h : m.status k = some (some a)) : (m.live.filter fun pair => pair.1 = k) = [(k, a)] := by
  have hmem := status_eq_some.mp h
  obtain ⟨entries, hnodup⟩ := m
  simp only [live] at hmem ⊢
  clear h
  induction entries with
  | nil => cases hmem
  | cons entry entries ih =>
      obtain ⟨j, c⟩ := entry
      rw [List.map_cons, List.nodup_cons] at hnodup
      rw [List.filterMap_cons]
      rcases List.mem_cons.mp hmem with heq | hrest
      · cases heq
        have hnone : ((entries.filterMap fun entry => entry.2.map fun a => (entry.1, a)).filter
            fun pair => pair.1 = k) = [] := by
          rw [List.filter_eq_nil_iff]
          rintro ⟨j, b⟩ hpair
          obtain ⟨⟨i, c⟩, hentry, heq⟩ := List.mem_filterMap.mp hpair
          obtain ⟨d, rfl, hd⟩ := Option.map_eq_some_iff.mp heq
          cases hd
          simp only [decide_eq_true_eq]
          rintro rfl
          exact hnodup.1 (List.mem_map.mpr ⟨_, hentry, rfl⟩)
        simp [hnone]
      · have hj : j ≠ k := by
          rintro rfl
          exact hnodup.1 (List.mem_map.mpr ⟨_, hrest, rfl⟩)
        cases c with
        | none => exact ih hnodup.2 hrest
        | some b => simpa [hj] using ih hnodup.2 hrest

/-- Updating a live key replaces its pair, in the listing as a bag. -/
theorem live_assign_perm {m : TombstoneMap κ α} {k : κ} {a old : α}
    (h : m.status k = some (some old)) :
    (m.assign k (some a)).live.Perm ((m.live.filter fun pair => pair.1 ≠ k) ++ [(k, a)]) := by
  have hstatus : (m.assign k (some a)).status k = some (some a) := by
    rw [status_assign, if_pos rfl, h]
    rfl
  have hkey := live_filter_key hstatus
  have hsplit := List.filter_append_perm (fun pair : κ × α => pair.1 ≠ k) (m.assign k (some a)).live
  rw [live_filter_assign] at hsplit
  have hnot : ((m.assign k (some a)).live.filter fun pair : κ × α => !decide (pair.1 ≠ k))
      = [(k, a)] := by
    rw [← hkey]
    refine List.filter_congr fun pair _ => ?_
    simp
  rw [hnot] at hsplit
  exact hsplit.symm

/-- Assigning what a key already holds changes nothing. -/
theorem assign_of_status {m : TombstoneMap κ α} {k : κ} {content : Option α}
    (h : m.status k = some content) : m.assign k content = m := by
  have hsame : m.entries.map (assignEntry k content) = m.entries.map id := by
    refine List.map_congr_left fun entry hmem => ?_
    obtain ⟨j, c⟩ := entry
    by_cases hj : j = k
    · subst hj
      have hc : m.status j = some c := status_eq_some.mpr hmem
      rw [h, Option.some.injEq] at hc
      rw [assignEntry, if_pos rfl, hc]
      rfl
    · exact if_neg hj
  rw [List.map_id] at hsame
  obtain ⟨entries, hnodup⟩ := m
  simp only [assign, hsame]

/-- `m'` is `m` with these live pairs behind. -/
def Extends (m : TombstoneMap κ α) (pairs : List (κ × α)) (m' : TombstoneMap κ α) : Prop :=
  m'.entries = m.entries ++ pairs.map fun pair => (pair.1, some pair.2)

omit [DecidableEq κ] in
theorem Extends.refl (m : TombstoneMap κ α) : m.Extends [] m := (List.append_nil _).symm

omit [DecidableEq κ] in
theorem Extends.push {m m' : TombstoneMap κ α} {pairs : List (κ × α)} (h : m.Extends pairs m')
    (k : κ) (a : α) (hk : k ∉ m'.keys) : m.Extends (pairs ++ [(k, a)]) (m'.push k a hk) := by
  show m'.entries ++ [(k, some a)] = _
  rw [h, List.map_append, List.append_assoc]
  rfl

omit [DecidableEq κ] in
theorem Extends.live_eq {m m' : TombstoneMap κ α} {pairs : List (κ × α)}
    (h : m.Extends pairs m') : m'.live = m.live ++ pairs := by
  rw [live, h, List.filterMap_append, List.filterMap_map]
  congr 1
  exact List.filterMap_some

omit [DecidableEq κ] in
theorem Extends.keys_eq {m m' : TombstoneMap κ α} {pairs : List (κ × α)}
    (h : m.Extends pairs m') : m'.keys = m.keys ++ pairs.map Prod.fst := by
  rw [keys, h, List.map_append, List.map_map]
  rfl

omit [DecidableEq κ] in
theorem Extends.size_eq {m m' : TombstoneMap κ α} {pairs : List (κ × α)}
    (h : m.Extends pairs m') : m'.size = m.size + pairs.length := by
  rw [size, h, List.length_append, List.length_map]
  rfl

omit [DecidableEq κ] in
/-- Nothing behind is nothing changed. -/
theorem Extends.eq_of_nil {m m' : TombstoneMap κ α} (h : m.Extends [] m') : m' = m := by
  obtain ⟨entries, hnodup⟩ := m
  obtain ⟨entries', hnodup'⟩ := m'
  have heq : entries' = entries ++ [] := h
  rw [List.append_nil] at heq
  subst heq
  rfl

omit [DecidableEq κ] in
/-- The first pair behind is a push. -/
theorem Extends.of_cons {m m' : TombstoneMap κ α} {k : κ} {a : α} {pairs : List (κ × α)}
    (h : m.Extends ((k, a) :: pairs) m') : ∃ hk : k ∉ m.keys, (m.push k a hk).Extends pairs m' := by
  have hnodup : m'.keys.Nodup := m'.nodup
  rw [h.keys_eq, List.map_cons, List.nodup_append] at hnodup
  refine ⟨fun hk => hnodup.2.2 k hk k List.mem_cons_self rfl, ?_⟩
  show m'.entries = (m.entries ++ [(k, some a)]) ++ _
  rw [h, List.append_assoc]
  rfl

-- ===================================================== pairs taken back

/-- `m'` is `m` with these pairs behind, the first of them dead again. -/
def Retracts (m : TombstoneMap κ α) (pairs : List (κ × α)) (m' : TombstoneMap κ α) : Prop :=
  ∃ j ≤ pairs.length, m'.entries = m.entries ++ (pairs.take j).map (fun pair => (pair.1, none))
    ++ (pairs.drop j).map fun pair => (pair.1, some pair.2)

omit [DecidableEq κ] in
/-- None of the pairs is taken back. -/
theorem Extends.retracts {m m' : TombstoneMap κ α} {pairs : List (κ × α)}
    (h : m.Extends pairs m') : m.Retracts pairs m' :=
  ⟨0, Nat.zero_le _, by rw [List.take_zero, List.map_nil, List.append_nil, List.drop_zero]; exact h⟩

omit [DecidableEq κ] in
theorem Retracts.keys_eq {m m' : TombstoneMap κ α} {pairs : List (κ × α)}
    (h : m.Retracts pairs m') : m'.keys = m.keys ++ pairs.map Prod.fst := by
  obtain ⟨j, -, hentries⟩ := h
  rw [keys, hentries, List.map_append, List.map_append, List.map_map, List.map_map,
    List.append_assoc]
  congr 1
  show (pairs.take j).map Prod.fst ++ (pairs.drop j).map Prod.fst = _
  rw [← List.map_append, List.take_append_drop]

/-- A retracted extension leaves every old key as it was. -/
theorem Retracts.status_of_mem {m m' : TombstoneMap κ α} {pairs : List (κ × α)} {k : κ}
    {content : Option α} (h : m.Retracts pairs m') (hk : m.status k = some content) :
    m'.status k = some content := by
  obtain ⟨j, -, hentries⟩ := h
  rw [status_eq_some, hentries, List.append_assoc]
  exact List.mem_append_left _ (status_eq_some.mp hk)

/-- Deleting a live key that is between others. -/
theorem entries_assign_none {m : TombstoneMap κ α} {k : κ} {a : α}
    {before after : List (κ × Option α)}
    (h : m.entries = before ++ (k, some a) :: after) :
    (m.assign k none).entries = before ++ (k, none) :: after := by
  have hat : m.entries[before.length]? = some (k, some a) := by
    rw [h, List.getElem?_append_right (Nat.le_refl _), Nat.sub_self]
    rfl
  rw [entries_assign hat, h, List.set_append_right _ _ (Nat.le_refl _), Nat.sub_self]
  rfl

-- ================================================== searching the entries

/-- The predicate a search for a live key runs. -/
def isLive (k : κ) (entry : κ × Option α) : Bool := entry.1 = k ∧ entry.2.isSome

theorem findIdx?_isLive_of_live {m : TombstoneMap κ α} {k : κ} {a : α}
    (h : m.status k = some (some a)) :
    ∃ position, m.entries.findIdx? (isLive k) = some position
      ∧ m.entries[position]? = some (k, some a) := by
  have hmem := status_eq_some.mp h
  cases hfind : m.entries.findIdx? (isLive k) with
  | none =>
      rw [List.findIdx?_eq_none_iff] at hfind
      have hnot := hfind _ hmem
      simp [isLive] at hnot
  | some position =>
      obtain ⟨hlt, hlive, -⟩ := List.findIdx?_eq_some_iff_getElem.mp hfind
      refine ⟨position, rfl, ?_⟩
      rw [List.getElem?_eq_getElem hlt, Option.some.injEq]
      have hat : m.entries[position] ∈ m.entries := List.getElem_mem hlt
      generalize m.entries[position] = entry at hat hlive
      obtain ⟨j, c⟩ := entry
      simp only [isLive, decide_eq_true_eq] at hlive
      obtain ⟨rfl, -⟩ := hlive
      have hstatus := status_eq_some.mpr hat
      rw [h, Option.some.injEq] at hstatus
      rw [hstatus]

theorem findIdx?_isLive_of_not_live {m : TombstoneMap κ α} {k : κ}
    (h : ∀ a, m.status k ≠ some (some a)) : m.entries.findIdx? (isLive k) = none := by
  rw [List.findIdx?_eq_none_iff]
  rintro ⟨j, c⟩ hmem
  cases c with
  | none => simp [isLive]
  | some a =>
      by_cases hj : j = k
      · subst hj
        exact absurd (status_eq_some.mpr hmem) (h a)
      · simp [isLive, hj]

-- =========================================================== mapped values

/-- The map with its values mapped; what is dead stays dead. -/
def mapValues {β : Type w} (f : α → β) (m : TombstoneMap κ α) : TombstoneMap κ β where
  entries := m.entries.map fun entry => (entry.1, entry.2.map f)
  nodup := by
    rw [List.map_map]
    exact m.nodup

section MapValues

variable {β : Type w} (f : α → β)

omit [DecidableEq κ] in
@[simp] theorem keys_mapValues (m : TombstoneMap κ α) : (m.mapValues f).keys = m.keys := by
  rw [keys, mapValues, List.map_map]
  rfl

omit [DecidableEq κ] in
theorem live_mapValues (m : TombstoneMap κ α) :
    (m.mapValues f).live = m.live.map fun pair => (pair.1, f pair.2) := by
  rw [live, live, mapValues, List.filterMap_map, List.map_filterMap]
  congr 1
  funext ⟨k, content⟩
  cases content <;> rfl

theorem status_mapValues (m : TombstoneMap κ α) (k : κ) :
    (m.mapValues f).status k = (m.status k).map (Option.map f) := by
  rw [status, status, mapValues, List.find?_map, Option.map_map, Option.map_map]
  rfl

theorem insert_mapValues (m : TombstoneMap κ α) (k : κ) (a : α) :
    (m.insert k a).mapValues f = (m.mapValues f).insert k (f a) := by
  unfold insert
  by_cases hk : k ∉ m.keys
  · rw [dif_pos hk, dif_pos (by rwa [keys_mapValues])]
    unfold push mapValues
    simp only [List.map_append, List.map_cons, List.map_nil, Option.map_some]
  · rw [dif_neg hk, dif_neg (by rwa [keys_mapValues])]

end MapValues

end TombstoneMap

namespace List

variable {α β : Type _} {R : α → β → Prop} {p : α → Bool} {q : β → Bool}

/-- Related lists are searched alike by predicates that agree on
related elements. -/
theorem Forall₂.findIdx?_eq {l₁ : List α} {l₂ : List β} (h : Forall₂ R l₁ l₂)
    (hpq : ∀ a b, R a b → p a = q b) : l₁.findIdx? p = l₂.findIdx? q := by
  induction h with
  | nil => rfl
  | cons hab _ ih => rw [findIdx?_cons, findIdx?_cons, hpq _ _ hab, ih]

theorem Forall₂.any_eq {l₁ : List α} {l₂ : List β} (h : Forall₂ R l₁ l₂)
    (hpq : ∀ a b, R a b → p a = q b) : l₁.any p = l₂.any q := by
  induction h with
  | nil => rfl
  | cons hab _ ih => rw [any_cons, any_cons, hpq _ _ hab, ih]

/-- Relating through a middle list. -/
theorem Forall₂.comp {γ : Type _} {S : β → γ → Prop} {l₁ : List α} {l₂ : List β} {l₃ : List γ}
    (h : Forall₂ R l₁ l₂) (h' : Forall₂ S l₂ l₃) :
    Forall₂ (fun a c => ∃ b, R a b ∧ S b c) l₁ l₃ := by
  induction h generalizing l₃ with
  | nil =>
      cases h'
      exact Forall₂.nil
  | cons hab _ ih =>
      cases h' with
      | cons hbc hrest => exact Forall₂.cons ⟨_, hab, hbc⟩ (ih hrest)

/-- Every element is related to one of the other list. -/
theorem Forall₂.exists_of_mem {l₁ : List α} {l₂ : List β} {a : α} (h : Forall₂ R l₁ l₂)
    (ha : a ∈ l₁) : ∃ b ∈ l₂, R a b := by
  induction h with
  | nil => cases ha
  | @cons c d _ _ hcd _ ih =>
      rcases List.mem_cons.mp ha with rfl | hrest
      · exact ⟨d, List.mem_cons_self .., hcd⟩
      · obtain ⟨b, hb, hab⟩ := ih hrest
        exact ⟨b, List.mem_cons_of_mem _ hb, hab⟩

/-- Replacing related elements at one index. -/
theorem Forall₂.set {l₁ : List α} {l₂ : List β} {a : α} {b : β} (h : Forall₂ R l₁ l₂)
    (hab : R a b) (i : Nat) : Forall₂ R (l₁.set i a) (l₂.set i b) := by
  induction h generalizing i with
  | nil => exact Forall₂.nil
  | cons hcd hrest ih =>
      cases i with
      | zero => exact Forall₂.cons hab hrest
      | succ i => exact Forall₂.cons hcd (ih i)

/-- The elements at one index are related. -/
theorem Forall₂.exists_of_getElem? {l₁ : List α} {l₂ : List β} {b : β} {i : Nat}
    (h : Forall₂ R l₁ l₂) (hb : l₂[i]? = some b) : ∃ a, l₁[i]? = some a ∧ R a b := by
  obtain ⟨hlt, rfl⟩ := getElem?_eq_some_iff.mp hb
  have hlt' : i < l₁.length := h.length_eq ▸ hlt
  exact ⟨l₁[i], getElem?_eq_getElem hlt', h.get hlt' hlt⟩

/-- Where the images are distinct, an image has one origin. -/
theorem Nodup.eq_of_filterMap {f : α → Option β} {l : List α} {a b : α} {c : β}
    (h : (l.filterMap f).Nodup) (ha : a ∈ l) (hb : b ∈ l) (hfa : f a = some c)
    (hfb : f b = some c) : a = b := by
  induction l with
  | nil => cases ha
  | cons x l ih =>
      have hrest : (l.filterMap f).Nodup := h.sublist ((sublist_cons_self x l).filterMap f)
      -- nothing behind `x` has its image
      have hnot : ∀ y ∈ l, f x = some c → f y ≠ some c := by
        intro y hy hx hfy
        rw [filterMap_cons, hx, nodup_cons] at h
        exact h.1 (mem_filterMap.mpr ⟨y, hy, hfy⟩)
      rcases mem_cons.mp ha with rfl | hal
      · rcases mem_cons.mp hb with rfl | hbl
        · rfl
        · exact absurd hfb (hnot b hbl hfa)
      · rcases mem_cons.mp hb with rfl | hbl
        · exact absurd hfa (hnot a hal hfb)
        · exact ih hrest hal hbl

/-- A search that finds an index finds the element there. -/
theorem find?_of_findIdx? {l : List α} {i : Nat} (h : l.findIdx? p = some i) :
    l.find? p = l[i]? := by
  rw [find?_eq_bind_findIdx?_getElem?, h]
  rfl

end List
