/-
Sequences of tagged values, and the byte strings they stand in one after
the other.

# One sequence

An element is written by a fallible `write`. Where a written element shows
its own end (`SelfDelimiting`), bytes are the writing of at most one
sequence (`writeList_injective`).

# Values by tag

`valuesOf` collects what a sequence says at one tag. A sequence without
repeated tags is determined by its heads, in order, and by what it says at
each tag (`eq_of_values`).
-/
import MeissnerSeal.Lib.ByteCodec
import MeissnerSeal.Lib.ExceptRules

namespace TlvList

open ByteCodec ExceptRules

variable {ε τ : Type}

-- =========================================================== one sequence

/-- The elements, written one after the other. -/
def writeList (write : τ → Except ε Bytes) : List τ → Except ε Bytes
  | [] => .ok []
  | t :: ts => do
      let x ← write t
      let rest ← writeList write ts
      return x ++ rest

/-- A written element is not empty, and what follows it cannot be taken for
a part of it. -/
structure SelfDelimiting (write : τ → Except ε Bytes) : Prop where
  ne_nil : ∀ {t}, write t ≠ .ok []
  cut : ∀ {t t' x x' rest rest'}, write t = .ok x → write t' = .ok x' →
    x ++ rest = x' ++ rest' → t = t' ∧ rest = rest'

variable {write : τ → Except ε Bytes}

theorem writeList_cons_eq_ok {t : τ} {ts : List τ} {y : Bytes} :
    writeList write (t :: ts) = .ok y
      ↔ ∃ x rest, write t = .ok x ∧ writeList write ts = .ok rest ∧ x ++ rest = y := by
  simp only [writeList, bind_eq_ok, pure_eq_ok, Except.ok.injEq]
  constructor
  · rintro ⟨x, hx, rest, hrest, hy⟩
    exact ⟨x, rest, hx, hrest, hy⟩
  · rintro ⟨x, rest, hx, hrest, hy⟩
    exact ⟨x, hx, rest, hrest, hy⟩

/-- A sequence is written where each of its elements is. -/
theorem exists_writeList {ts : List τ} :
    (∃ x, writeList write ts = .ok x) ↔ ∀ t ∈ ts, ∃ x, write t = .ok x := by
  induction ts with
  | nil => simp [writeList]
  | cons t ts ih =>
      rw [List.forall_mem_cons, ← ih]
      constructor
      · rintro ⟨y, hy⟩
        obtain ⟨x, rest, hx, hrest, -⟩ := writeList_cons_eq_ok.mp hy
        exact ⟨⟨x, hx⟩, rest, hrest⟩
      · rintro ⟨⟨x, hx⟩, rest, hrest⟩
        exact ⟨x ++ rest, writeList_cons_eq_ok.mpr ⟨x, rest, hx, hrest, rfl⟩⟩

/-- Element by element: the first ones are equal, and so is what follows. -/
theorem writeList_injective (hwrite : SelfDelimiting write) {ts ts' : List τ} {x : Bytes}
    (h : writeList write ts = .ok x) (h' : writeList write ts' = .ok x) : ts = ts' := by
  have hempty : ∀ {t : τ} {ts : List τ}, writeList write (t :: ts) ≠ .ok [] := by
    intro t ts hnil
    obtain ⟨y, rest, hy, -, happend⟩ := writeList_cons_eq_ok.mp hnil
    rw [(List.append_eq_nil_iff.mp happend).1] at hy
    exact hwrite.ne_nil hy
  induction ts generalizing ts' x with
  | nil =>
      rw [writeList, Except.ok.injEq] at h
      subst h
      cases ts' with
      | nil => rfl
      | cons t' ts' => exact absurd h' hempty
  | cons t ts ih =>
      cases ts' with
      | nil =>
          rw [writeList, Except.ok.injEq] at h'
          subst h'
          exact absurd h hempty
      | cons t' ts' =>
          obtain ⟨y, rest, hy, hrest, rfl⟩ := writeList_cons_eq_ok.mp h
          obtain ⟨y', rest', hy', hrest', hsame⟩ := writeList_cons_eq_ok.mp h'
          obtain ⟨htag, htail⟩ := hwrite.cut hy hy' hsame.symm
          subst htail
          rw [htag, ih hrest hrest']

-- ========================================================== values by tag

variable {κ ι ν : Type} [DecidableEq ι]

/-- What a sequence says at a tag, in order. -/
def valuesOf (tag : τ → ι) (value : τ → ν) (i : ι) (ts : List τ) : List ν :=
  (ts.filter fun t => tag t = i).map value

variable {tag : τ → ι} {value : τ → ν} {i : ι}

theorem valuesOf_nil : valuesOf tag value i [] = [] := rfl

theorem valuesOf_append (ts ts' : List τ) :
    valuesOf tag value i (ts ++ ts') = valuesOf tag value i ts ++ valuesOf tag value i ts' := by
  rw [valuesOf, List.filter_append, List.map_append]
  rfl

theorem valuesOf_cons_self {t : τ} {ts : List τ} (h : tag t = i) :
    valuesOf tag value i (t :: ts) = value t :: valuesOf tag value i ts := by
  rw [valuesOf, List.filter_cons_of_pos (by simpa using h), List.map_cons]
  rfl

theorem valuesOf_cons_of_ne {t : τ} {ts : List τ} (h : tag t ≠ i) :
    valuesOf tag value i (t :: ts) = valuesOf tag value i ts := by
  rw [valuesOf, List.filter_cons_of_neg (by simpa using h)]
  rfl

theorem valuesOf_eq_nil {ts : List τ} : valuesOf tag value i ts = [] ↔ i ∉ ts.map tag := by
  rw [valuesOf, List.map_eq_nil_iff, List.filter_eq_nil_iff, List.mem_map]
  constructor
  · rintro h ⟨t, ht, htag⟩
    exact h t ht (by simpa using htag)
  · intro h t ht htag
    exact h ⟨t, ht, by simpa using htag⟩

theorem mem_valuesOf {v : ν} {ts : List τ} :
    v ∈ valuesOf tag value i ts ↔ ∃ t ∈ ts, tag t = i ∧ value t = v := by
  simp only [valuesOf, List.mem_map, List.mem_filter, decide_eq_true_eq]
  constructor
  · rintro ⟨t, ⟨ht, htag⟩, hv⟩
    exact ⟨t, ht, htag, hv⟩
  · rintro ⟨t, ht, htag, hv⟩
    exact ⟨t, ⟨ht, htag⟩, hv⟩

/-- What was said, and one value more at a tag that said nothing. -/
def sayMore (said : ι → List ν) (i : ι) (v : ν) : ι → List ν :=
  fun j => if j = i then [v] else said j

theorem valuesOf_snoc {t : τ} {ts : List τ} (hfresh : valuesOf tag value (tag t) ts = []) (i : ι) :
    valuesOf tag value i (ts ++ [t])
      = sayMore (fun i => valuesOf tag value i ts) (tag t) (value t) i := by
  rw [valuesOf_append, sayMore]
  by_cases h : i = tag t
  · rw [if_pos h, h, hfresh, valuesOf_cons_self rfl, valuesOf_nil, List.nil_append]
  · rw [if_neg h, valuesOf_cons_of_ne fun heq => h heq.symm, valuesOf_nil, List.append_nil]

/-- The values at a tag count how often it occurs. -/
theorem count_eq_length_valuesOf (ts : List τ) :
    (ts.map tag).count i = (valuesOf tag value i ts).length := by
  induction ts with
  | nil => rfl
  | cons t ts ih =>
      rw [List.map_cons]
      by_cases h : tag t = i
      · rw [valuesOf_cons_self h, List.length_cons, ← ih, h, List.count_cons_self]
      · rw [valuesOf_cons_of_ne h, ← ih, List.count_cons_of_ne h]

/-- Sequences with the same heads and no tag twice that say the same at
every tag are equal. -/
theorem eq_of_values {head : τ → κ} (hext : ∀ {t t'}, head t = head t' →
    value t = value t' → t = t')
    (htag : ∀ {t t'}, head t = head t' → tag t = tag t') {ts ts' : List τ}
    (hheads : ts.map head = ts'.map head) (hnodup : (ts.map tag).Nodup)
    (hvalues : ∀ i ∈ ts.map tag, valuesOf tag value i ts = valuesOf tag value i ts') :
    ts = ts' := by
  induction ts generalizing ts' with
  | nil =>
      rw [List.map_nil] at hheads
      exact (List.map_eq_nil_iff.mp hheads.symm).symm
  | cons t ts ih =>
      cases ts' with
      | nil => cases hheads
      | cons t' ts' =>
          rw [List.map_cons, List.map_cons, List.cons.injEq] at hheads
          obtain ⟨hhead, htails⟩ := hheads
          rw [List.map_cons, List.nodup_cons] at hnodup
          obtain ⟨hfresh, hnodup⟩ := hnodup
          have hsame := hvalues (tag t) List.mem_cons_self
          rw [valuesOf_cons_self rfl, valuesOf_cons_self (htag hhead).symm,
            List.cons.injEq] at hsame
          rw [hext hhead hsame.1]
          refine congrArg _ (ih htails hnodup fun i hi => ?_)
          have hne : tag t ≠ i := fun h => hfresh (h ▸ hi)
          have hvalue := hvalues i (List.mem_cons_of_mem _ hi)
          rwa [valuesOf_cons_of_ne hne, valuesOf_cons_of_ne fun h => hne ((htag hhead).trans h)]
            at hvalue

end TlvList
