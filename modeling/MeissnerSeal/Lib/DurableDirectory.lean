/-
A directory of files on a medium that may lose what was not synced.

# The medium

The directory on the medium (`durable`) lags behind the changes made to
it (`pending`, oldest first) until it is synced, and the data of a file
until the file is. A name is changed, and a file renamed over another, in
one piece.

# A crash

A crash keeps any of the pending changes, in their order, and loses the
others; a file whose data was not synced then holds anything at all
(`Disk.Crash`). `Disk.Keeps` says what a name holds whatever a crash
keeps; each operation has a lemma that says how far it keeps that.
-/
import Mathlib.Logic.Function.Basic
import Mathlib.Data.List.Sublists

universe u v

/-- A file: its data, and whether the medium has it. -/
structure Inode (β : Type v) where
  data : β
  synced : Bool

/-- A change to the directory, with the number of the file it puts
under a name. -/
inductive DirChange (N : Type u) where
  | link (name : N) (inode : Nat)
  | rename (source target : N) (inode : Nat)
  | unlink (name : N)

namespace DirChange

variable {N : Type u} [DecidableEq N]

/-- The file the change puts under a name. -/
def inode? : DirChange N → Option Nat
  | .link _ inode => some inode
  | .rename _ _ inode => some inode
  | .unlink _ => none

/-- The change alters the entry of the name. -/
def Touches (name : N) : DirChange N → Prop
  | .link other _ => other = name
  | .rename source target _ => source = name ∨ target = name
  | .unlink other => other = name

/-- The directory after the change. -/
def apply (dir : N → Option Nat) : DirChange N → N → Option Nat
  | .link name inode => Function.update dir name (some inode)
  | .rename source target inode =>
      Function.update (Function.update dir source none) target (some inode)
  | .unlink name => Function.update dir name none

/-- The directory after a list of changes. -/
def applyAll (dir : N → Option Nat) (changes : List (DirChange N)) : N → Option Nat :=
  changes.foldl apply dir

theorem applyAll_append (dir : N → Option Nat) (before after : List (DirChange N)) :
    applyAll dir (before ++ after) = applyAll (applyAll dir before) after := by
  unfold applyAll
  rw [List.foldl_append]

theorem apply_of_not_touches {dir : N → Option Nat} {c : DirChange N} {name : N}
    (h : ¬ c.Touches name) : c.apply dir name = dir name := by
  cases c with
  | link other inode =>
      show Function.update dir other (some inode) name = dir name
      rw [Function.update_of_ne (Ne.symm h)]
  | unlink other =>
      show Function.update dir other none name = dir name
      rw [Function.update_of_ne (Ne.symm h)]
  | rename source target inode =>
      obtain ⟨hsource, htarget⟩ := not_or.mp h
      show Function.update (Function.update dir source none) target (some inode) name = dir name
      rw [Function.update_of_ne (Ne.symm htarget), Function.update_of_ne (Ne.symm hsource)]

theorem applyAll_of_not_touches {dir : N → Option Nat} {changes : List (DirChange N)} {name : N}
    (h : ∀ c ∈ changes, ¬ c.Touches name) : applyAll dir changes name = dir name := by
  induction changes generalizing dir with
  | nil => rfl
  | cons c changes ih =>
      obtain ⟨hc, hrest⟩ := List.forall_mem_cons.mp h
      show applyAll (apply dir c) changes name = dir name
      rw [ih hrest, apply_of_not_touches hc]

/-- Where an entry comes from. -/
theorem apply_eq_some {dir : N → Option Nat} {c : DirChange N} {name : N} {i : Nat}
    (h : c.apply dir name = some i) : dir name = some i ∨ c.inode? = some i := by
  cases c with
  | link other inode =>
      by_cases hname : name = other
      · subst hname
        right
        rw [apply, Function.update_self] at h
        exact h
      · left
        rw [apply, Function.update_of_ne hname] at h
        exact h
  | unlink other =>
      by_cases hname : name = other
      · subst hname
        rw [apply, Function.update_self] at h
        cases h
      · left
        rw [apply, Function.update_of_ne hname] at h
        exact h
  | rename source target inode =>
      by_cases htarget : name = target
      · subst htarget
        right
        rw [apply, Function.update_self] at h
        exact h
      · by_cases hsource : name = source
        · subst hsource
          rw [apply, Function.update_of_ne htarget, Function.update_self] at h
          cases h
        · left
          rw [apply, Function.update_of_ne htarget, Function.update_of_ne hsource] at h
          exact h

theorem applyAll_eq_some {dir : N → Option Nat} {changes : List (DirChange N)} {name : N} {i : Nat}
    (h : applyAll dir changes name = some i) :
    dir name = some i ∨ ∃ c ∈ changes, c.inode? = some i := by
  induction changes generalizing dir with
  | nil => exact .inl h
  | cons c changes ih =>
      rcases @ih (c.apply dir) h with hdir | ⟨c', hmem, hc'⟩
      · rcases apply_eq_some hdir with hold | hnew
        · exact .inl hold
        · exact .inr ⟨c, List.mem_cons_self, hnew⟩
      · exact .inr ⟨c', List.mem_cons_of_mem _ hmem, hc'⟩

end DirChange

/-- The directory and its files. Numbers from `next` on are of no file yet. -/
structure Disk (N : Type u) (β : Type v) where
  inode : Nat → Inode β
  next : Nat
  durable : N → Option Nat
  pending : List (DirChange N)
  durable_lt : ∀ name i, durable name = some i → i < next
  pending_lt : ∀ c ∈ pending, ∀ i, c.inode? = some i → i < next

namespace Disk

variable {N : Type u} {β : Type v} [DecidableEq N]

/-- The entries of the directory, its pending changes made. -/
def entry (d : Disk N β) : N → Option Nat := DirChange.applyAll d.durable d.pending

/-- The files by name. -/
def files (d : Disk N β) (name : N) : Option β := (d.entry name).map fun i => (d.inode i).data

/-- What a crash may leave. -/
def Crash (d : Disk N β) (files : N → Option β) : Prop :=
  ∃ kept : List (DirChange N), kept.Sublist d.pending ∧ ∀ name,
    match DirChange.applyAll d.durable kept name with
    | none => files name = none
    | some i => ∃ b, files name = some b ∧ ((d.inode i).synced = true → b = (d.inode i).data)

theorem applyAll_lt {d : Disk N β} {kept : List (DirChange N)} (hkept : kept.Sublist d.pending)
    {name : N} {i : Nat} (h : DirChange.applyAll d.durable kept name = some i) : i < d.next := by
  rcases DirChange.applyAll_eq_some h with hold | ⟨c, hc, hnew⟩
  · exact d.durable_lt name i hold
  · exact d.pending_lt c (hkept.subset hc) i hnew

-- =========================================================== operations

/-- One more pending change. -/
def push (d : Disk N β) (c : DirChange N) (hc : ∀ i, c.inode? = some i → i < d.next) :
    Disk N β where
  inode := d.inode
  next := d.next
  durable := d.durable
  pending := d.pending ++ [c]
  durable_lt := d.durable_lt
  pending_lt c' hc' i hi := by
    rcases List.mem_append.mp hc' with hold | hnew
    · exact d.pending_lt c' hold i hi
    · rw [List.mem_singleton.mp hnew] at hi
      exact hc i hi

/-- A file that has no name yet. -/
def allocate (d : Disk N β) (b : β) : Disk N β where
  inode := Function.update d.inode d.next ⟨b, false⟩
  next := d.next + 1
  durable := d.durable
  pending := d.pending
  durable_lt name i h := Nat.lt_succ_of_lt (d.durable_lt name i h)
  pending_lt c hc i h := Nat.lt_succ_of_lt (d.pending_lt c hc i h)

/-- A new file under a name; its number is `d.next`. -/
def create (d : Disk N β) (name : N) (b : β) : Disk N β :=
  (d.allocate b).push (.link name d.next) fun i hi => by
    cases hi
    exact Nat.lt_succ_self _

/-- The data of a file, replaced. -/
def write (d : Disk N β) (i : Nat) (b : β) : Disk N β :=
  { d with inode := Function.update d.inode i ⟨b, false⟩ }

/-- A file's data, brought to the medium. -/
def sync (d : Disk N β) (i : Nat) : Disk N β :=
  { d with inode := Function.update d.inode i ⟨(d.inode i).data, true⟩ }

/-- A file moved to another name, if the first one has a file. -/
def rename (d : Disk N β) (source target : N) : Option (Disk N β) :=
  match h : d.entry source with
  | none => none
  | some i => some (d.push (.rename source target i) fun j hj => by
      cases hj
      exact applyAll_lt (List.Sublist.refl _) h)

/-- A name removed, if it has a file. -/
def unlink (d : Disk N β) (name : N) : Option (Disk N β) :=
  match d.entry name with
  | none => none
  | some _ => some (d.push (.unlink name) fun i hi => by cases hi)

/-- The directory, brought to the medium. -/
def syncDir (d : Disk N β) : Disk N β where
  inode := d.inode
  next := d.next
  durable := d.entry
  pending := []
  durable_lt _ _ h := applyAll_lt (List.Sublist.refl _) h
  pending_lt c hc := by cases hc

variable {d d' : Disk N β} {name other source target : N} {b : β} {i : Nat}

theorem rename_eq_some (h : d.rename source target = some d') :
    ∃ i hi, d.entry source = some i ∧ d' = d.push (.rename source target i) hi := by
  unfold rename at h
  split at h
  · cases h
  · cases h
    exact ⟨_, _, by assumption, rfl⟩

theorem rename_eq_none : d.rename source target = none ↔ d.entry source = none := by
  unfold rename
  split
  · simp [*]
  · simp [*]

theorem unlink_eq_some (h : d.unlink name = some d') :
    ∃ i hi, d.entry name = some i ∧ d' = d.push (.unlink name) hi := by
  unfold unlink at h
  split at h
  · cases h
  · cases h
    exact ⟨_, _, by assumption, rfl⟩

theorem unlink_eq_none : d.unlink name = none ↔ d.entry name = none := by
  unfold unlink
  split
  · simp [*]
  · simp [*]

theorem entry_push {c : DirChange N} {hc : ∀ i, c.inode? = some i → i < d.next} :
    (d.push c hc).entry = c.apply d.entry :=
  DirChange.applyAll_append d.durable d.pending [c]

theorem entry_create : (d.create name b).entry = Function.update d.entry name (some d.next) :=
  DirChange.applyAll_append d.durable d.pending [.link name d.next]

theorem entry_lt (h : d.entry name = some i) : i < d.next := applyAll_lt (List.Sublist.refl _) h

-- ======================================================== files by name

theorem files_eq_none : d.files name = none ↔ d.entry name = none := by
  unfold files
  rw [Option.map_eq_none_iff]

theorem files_create : (d.create name b).files = Function.update d.files name (some b) := by
  funext n
  unfold files
  rw [entry_create]
  by_cases hn : n = name
  · subst hn
    rw [Function.update_self, Function.update_self]
    show some (Function.update d.inode d.next ⟨b, false⟩ d.next).data = some b
    rw [Function.update_self]
  · rw [Function.update_of_ne hn, Function.update_of_ne hn]
    cases hentry : d.entry n with
    | none => rfl
    | some i =>
        show some (Function.update d.inode d.next ⟨b, false⟩ i).data = some (d.inode i).data
        rw [Function.update_of_ne (Nat.ne_of_lt (entry_lt hentry))]

theorem files_sync : (d.sync i).files = d.files := by
  funext n
  show (d.entry n).map (fun j => (Function.update d.inode i ⟨(d.inode i).data, true⟩ j).data)
    = (d.entry n).map fun j => (d.inode j).data
  congr 1
  funext j
  by_cases hj : j = i
  · rw [hj, Function.update_self]
  · rw [Function.update_of_ne hj]

theorem files_rename (h : d.rename source target = some d') {b : β}
    (hb : d.files source = some b) :
    d'.files = Function.update (Function.update d.files source none) target (some b) := by
  obtain ⟨i, hi, hentry, rfl⟩ := rename_eq_some h
  funext n
  show ((d.push _ hi).entry n).map (fun j => (d.inode j).data) = _
  rw [entry_push]
  have hdata : (d.inode i).data = b := by
    rw [files, hentry] at hb
    exact Option.some.inj hb
  by_cases htarget : n = target
  · subst htarget
    rw [DirChange.apply, Function.update_self, Function.update_self, Option.map_some, hdata]
  · rw [DirChange.apply, Function.update_of_ne htarget, Function.update_of_ne htarget]
    by_cases hsource : n = source
    · subst hsource
      rw [Function.update_self, Function.update_self, Option.map_none]
    · rw [Function.update_of_ne hsource, Function.update_of_ne hsource, files]

theorem files_unlink (h : d.unlink name = some d') :
    d'.files = Function.update d.files name none := by
  obtain ⟨i, hi, -, rfl⟩ := unlink_eq_some h
  funext n
  show ((d.push _ hi).entry n).map (fun j => (d.inode j).data) = _
  rw [entry_push]
  by_cases hn : n = name
  · subst hn
    rw [DirChange.apply, Function.update_self, Function.update_self, Option.map_none]
  · rw [DirChange.apply, Function.update_of_ne hn, Function.update_of_ne hn, files]

-- ================================================== what a crash leaves

/-- Whatever a crash keeps, the name has a synced file of good data. -/
def Keeps (d : Disk N β) (name : N) (good : β → Prop) : Prop :=
  ∀ kept : List (DirChange N), kept.Sublist d.pending →
    ∃ i b, DirChange.applyAll d.durable kept name = some i ∧ d.inode i = ⟨b, true⟩ ∧ good b

/-- No pending change touches the name. -/
def Settled (d : Disk N β) (name : N) : Prop := ∀ c ∈ d.pending, ¬ c.Touches name

/-- The medium has the file of that name and its data. -/
structure Durable (d : Disk N β) (name : N) (b : β) : Prop where
  settled : d.Settled name
  held : ∃ i, d.durable name = some i ∧ d.inode i = ⟨b, true⟩

/-- The name leads to the file, and no crash puts it under another. -/
structure OpenAt (d : Disk N β) (name : N) (i : Nat) : Prop where
  entry : d.entry name = some i
  alone : ∀ kept : List (DirChange N), kept.Sublist d.pending → ∀ other, other ≠ name →
    DirChange.applyAll d.durable kept other ≠ some i

variable {good good' : β → Prop}

theorem Keeps.mono (h : d.Keeps name good) (himp : ∀ b, good b → good' b) :
    d.Keeps name good' := by
  intro kept hkept
  obtain ⟨i, b, hentry, hinode, hb⟩ := h kept hkept
  exact ⟨i, b, hentry, hinode, himp b hb⟩

/-- What a crash leaves under the name. -/
theorem Keeps.of_crash (h : d.Keeps name good) {files : N → Option β} (hcrash : d.Crash files) :
    ∃ b, good b ∧ files name = some b := by
  obtain ⟨kept, hkept, hfiles⟩ := hcrash
  obtain ⟨i, b, hentry, hinode, hb⟩ := h kept hkept
  have hname := hfiles name
  rw [hentry] at hname
  obtain ⟨b', hb', hsynced⟩ := hname
  rw [hinode] at hsynced
  rw [hsynced rfl] at hb'
  exact ⟨b, hb, hb'⟩

theorem Durable.keeps (h : d.Durable name b) : d.Keeps name (· = b) := by
  intro kept hkept
  obtain ⟨i, hi, hinode⟩ := h.held
  refine ⟨i, b, ?_, hinode, rfl⟩
  rw [DirChange.applyAll_of_not_touches fun c hc => h.settled c (hkept.subset hc), hi]

theorem Durable.files (h : d.Durable name b) : d.files name = some b := by
  obtain ⟨i, hi, hinode⟩ := h.held
  rw [Disk.files, entry, DirChange.applyAll_of_not_touches h.settled, hi, Option.map_some, hinode]

/-- A crash that keeps some of the pending changes and loses nothing
of the files. -/
theorem crash_of_kept {kept : List (DirChange N)} (hkept : kept.Sublist d.pending) :
    d.Crash fun name => (DirChange.applyAll d.durable kept name).map fun i => (d.inode i).data := by
  refine ⟨kept, hkept, fun name => ?_⟩
  show match DirChange.applyAll d.durable kept name with
    | none => (DirChange.applyAll d.durable kept name).map (fun i => (d.inode i).data) = none
    | some i => ∃ b, (DirChange.applyAll d.durable kept name).map
          (fun i => (d.inode i).data) = some b
        ∧ ((d.inode i).synced = true → b = (d.inode i).data)
  cases DirChange.applyAll d.durable kept name with
  | none => rfl
  | some i => exact ⟨(d.inode i).data, rfl, fun _ => rfl⟩

/-- A settled name keeps what it shows. -/
theorem Keeps.of_settled (h : d.Keeps name good) (hsettled : d.Settled name) :
    ∃ b, d.files name = some b ∧ d.Durable name b := by
  obtain ⟨i, b, hentry, hinode, -⟩ := h [] (List.nil_sublist _)
  have hdurable : d.Durable name b := ⟨hsettled, i, hentry, hinode⟩
  exact ⟨b, hdurable.files, hdurable⟩

/-- What a name keeps, it also shows. -/
theorem Keeps.files (h : d.Keeps name good) : ∃ b, good b ∧ d.files name = some b := by
  obtain ⟨i, b, hentry, hinode, hb⟩ := h d.pending (List.Sublist.refl _)
  refine ⟨b, hb, ?_⟩
  rw [Disk.files, entry, hentry, Option.map_some, hinode]

/-- A change to other names. -/
theorem Keeps.push {c : DirChange N} {hc : ∀ i, c.inode? = some i → i < d.next}
    (h : d.Keeps name good) (htouches : ¬ c.Touches name) : (d.push c hc).Keeps name good := by
  intro kept hkept
  obtain ⟨before, after, rfl, hbefore, hafter⟩ := List.sublist_append_iff.mp hkept
  obtain ⟨i, b, hentry, hinode, hb⟩ := h before hbefore
  refine ⟨i, b, ?_, hinode, hb⟩
  show DirChange.applyAll d.durable (before ++ after) name = some i
  rw [DirChange.applyAll_append, DirChange.applyAll_of_not_touches, hentry]
  intro c' hc'
  rw [List.mem_singleton.mp (hafter.subset hc')]
  exact htouches

/-- A new file under another name. -/
theorem Keeps.create (h : d.Keeps name good) (hne : other ≠ name) :
    (d.create other b).Keeps name good := by
  refine Keeps.push ?_ hne
  intro kept hkept
  obtain ⟨i, b', hentry, hinode, hb'⟩ := h kept hkept
  refine ⟨i, b', hentry, ?_, hb'⟩
  have hlt : i < d.next := @applyAll_lt N β _ d _ hkept _ _ hentry
  show Function.update d.inode d.next ⟨b, false⟩ i = _
  rw [Function.update_of_ne (Nat.ne_of_lt hlt), hinode]

theorem openAt_create : (d.create name b).OpenAt name d.next where
  entry := by rw [entry_create, Function.update_self]
  alone kept hkept other hother hentry := by
    obtain ⟨before, after, rfl, hbefore, hafter⟩ := List.sublist_append_iff.mp hkept
    have htouches : ∀ c ∈ after, ¬ c.Touches other := by
      intro c hc
      rw [List.mem_singleton.mp (hafter.subset hc)]
      exact hother.symm
    rw [DirChange.applyAll_append, DirChange.applyAll_of_not_touches htouches] at hentry
    exact Nat.lt_irrefl _ (@applyAll_lt N β _ d _ hbefore _ _ hentry)

theorem OpenAt.write (h : d.OpenAt name i) : (d.write i b).OpenAt name i := ⟨h.entry, h.alone⟩

/-- The data of an open file is of no other name. -/
theorem OpenAt.keeps_withInode (h : d.OpenAt name i) (hne : other ≠ name)
    (hkeeps : d.Keeps other good) (node : Inode β) :
    Keeps { d with inode := Function.update d.inode i node } other good := by
  intro kept hkept
  obtain ⟨j, b, hentry, hinode, hb⟩ := hkeeps kept hkept
  refine ⟨j, b, hentry, ?_, hb⟩
  have hj : j ≠ i := by
    rintro rfl
    exact h.alone kept hkept other hne hentry
  show Function.update d.inode i node j = _
  rw [Function.update_of_ne hj, hinode]

theorem OpenAt.keeps_write (h : d.OpenAt name i) (hne : other ≠ name)
    (hkeeps : d.Keeps other good) : (d.write i b).Keeps other good :=
  h.keeps_withInode hne hkeeps ⟨b, false⟩

theorem OpenAt.keeps_sync (h : d.OpenAt name i) (hne : other ≠ name)
    (hkeeps : d.Keeps other good) : (d.sync i).Keeps other good :=
  h.keeps_withInode hne hkeeps ⟨(d.inode i).data, true⟩

omit [DecidableEq N] in
theorem inode_sync_write : ((d.write i b).sync i).inode i = ⟨b, true⟩ := by
  unfold sync write
  simp only [Function.update_self]

theorem OpenAt.files_write (h : d.OpenAt name i) :
    (d.write i b).files = Function.update d.files name (some b) := by
  funext n
  show (d.entry n).map (fun j => (Function.update d.inode i ⟨b, false⟩ j).data) = _
  by_cases hn : n = name
  · subst hn
    rw [h.entry, Option.map_some, Function.update_self, Function.update_self]
  · rw [Function.update_of_ne hn, Disk.files]
    cases hentry : d.entry n with
    | none => rfl
    | some j =>
        have hj : j ≠ i := by
          rintro rfl
          exact h.alone d.pending (List.Sublist.refl _) n hn hentry
        rw [Option.map_some, Option.map_some, Function.update_of_ne hj]

/-- A synced file renamed over a name: whatever a crash keeps, the name
has its old file or the new one. -/
theorem Keeps.rename (h : d.Keeps target good) (hsource : d.entry source = some i)
    (hsynced : d.inode i = ⟨b, true⟩) (hrename : d.rename source target = some d') :
    d'.Keeps target (fun b' => good b' ∨ b' = b) ∧ d'.entry target = some i := by
  obtain ⟨j, hj, hentry, rfl⟩ := rename_eq_some hrename
  rw [hsource] at hentry
  cases hentry
  constructor
  · intro kept hkept
    obtain ⟨before, after, rfl, hbefore, hafter⟩ := List.sublist_append_iff.mp hkept
    show ∃ i' b', DirChange.applyAll d.durable (before ++ after) target = some i'
      ∧ d.inode i' = ⟨b', true⟩ ∧ (good b' ∨ b' = b)
    rw [DirChange.applyAll_append]
    rcases List.sublist_singleton.mp hafter with hnil | hkeep
    · obtain ⟨i', b', hentry', hinode, hb'⟩ := h before hbefore
      rw [hnil]
      exact ⟨i', b', hentry', hinode, .inl hb'⟩
    · rw [hkeep]
      exact ⟨i, b, Function.update_self .., hsynced, .inr rfl⟩
  · rw [entry_push]
    exact Function.update_self ..

/-- A name removed. -/
theorem Keeps.unlink (h : d.Keeps name good) (hne : other ≠ name)
    (hunlink : d.unlink other = some d') : d'.Keeps name good := by
  obtain ⟨i, hi, -, rfl⟩ := unlink_eq_some hunlink
  exact h.push hne

/-- A synced directory keeps what it shows. -/
theorem durable_syncDir (hentry : d.entry name = some i) (hinode : d.inode i = ⟨b, true⟩) :
    d.syncDir.Durable name b where
  settled c hc := by cases hc
  held := ⟨i, hentry, hinode⟩

end Disk
