/-
The vault file on a medium that may lose what was not synced.

# Two readings of one program

`Fs` holds what a process sees of the files. Here the same system calls
act on a directory whose medium lags behind it, and pass every state in
which the machine may stop. Seen through `Disk.files` a mutation on the
disk is the mutation on `Fs` (`OnDisk.run_shows`).

# One rewrite

Whatever a crash keeps, the vault path has the file it had or the new one
whole, from the first system call of a persist to its last; when the
persist returns, the medium has the new one (`OnDisk.persist_meets`).
-/
import MeissnerSeal.Item.Plans
import MeissnerSeal.Lib.CrashProgram
import MeissnerSeal.Lib.DurableDirectory

namespace MeissnerSeal

open ByteCodec ExceptRules CrashM

/-- The directory of the vault and the files in it. A persist touches no
other: its temporary file is a sibling of the vault. -/
abbrev VaultDisk := Disk Path Bytes

/-- A program over the disk. -/
abbrev DiskM (α : Type) := CrashM VaultDisk CoreError α

theorem Fs.set_eq_update (fs : Fs) (path : Path) (contents : Option Bytes) :
    fs.set path contents = Function.update fs path contents := by
  funext p
  by_cases hp : p = path
  · rw [hp, Fs.set_self, Function.update_self]
  · rw [Fs.set_of_ne _ _ hp, Function.update_of_ne hp]

namespace OnDisk

-- =========================================================== primitives

/-- `std::fs::read`. -/
def readFile (fault : Bool) (path : Path) : DiskM Bytes :=
  CrashM.step fun d => if fault then (.error .io, d) else (okOr (d.files path) .io, d)

/-- `OpenOptions::create_new(true).open`: the number of the new file. -/
def createNewFile (fault : Bool) (path : Path) : DiskM Nat :=
  CrashM.step fun d =>
    if fault ∨ ¬ path.NamesFile ∨ (d.entry path).isSome then (.error .io, d)
    else (.ok d.next, d.create path [])

/-- `write_all`. -/
def writeAll (fault : Option Nat) (file : Nat) (bytes : Bytes) : DiskM Unit :=
  CrashM.step fun d =>
    match fault with
    | none => (.ok (), d.write file bytes)
    | some written => (.error .io, d.write file (bytes.take written))

/-- `File::sync_all` on a file. -/
def syncAll (fault : Bool) (file : Nat) : DiskM Unit :=
  CrashM.step fun d => if fault then (.error .io, d) else (.ok (), d.sync file)

/-- `std::fs::rename`. -/
def renameFile (fault : Bool) (source target : Path) : DiskM Unit :=
  CrashM.step fun d =>
    match fault, d.rename source target with
    | false, some d' => (.ok (), d')
    | _, _ => (.error .io, d)

/-- `std::fs::remove_file`. -/
def removeFile (fault : Bool) (path : Path) : DiskM Unit :=
  CrashM.step fun d =>
    match decide (fault ∨ ¬ path.NamesFile), d.unlink path with
    | false, some d' => (.ok (), d')
    | _, _ => (.error .io, d)

/-- `File::open` on the directory. -/
def openParent (fault : Bool) : DiskM Unit :=
  CrashM.step fun d => if fault then (.error .io, d) else (.ok (), d)

/-- `File::sync_all` on the directory. -/
def syncParent (fault : Bool) : DiskM Unit :=
  CrashM.step fun d => if fault then (.error .io, d) else (.ok (), d.syncDir)

/-- `fsync_parent`. -/
def fsyncParent (io : IoFaults) : DiskM Unit := do
  openParent io.parentOpen
  syncParent io.parentSync

/-- The part of a persist up to and including the sync of the
temporary file. -/
def writeTmp (io : IoFaults) (tmpPath : Path) (vaultBytes : Bytes) : DiskM Unit := do
  let tmpFile ← createNewFile io.tmpCreate tmpPath
  writeAll io.tmpWrite tmpFile vaultBytes
  syncAll io.tmpSync tmpFile

/-- `persist_vault_mutation_v2`. -/
def persistVaultMutationV2 (io : IoFaults) (path : Path) (vaultBytes : Bytes)
    (uniqueSeed : U8Array 16) : DiskM Unit :=
  let tmpPath := uniqueTmpPath path uniqueSeed
  let steps : DiskM Unit := do
    writeTmp io tmpPath vaultBytes
    renameFile io.rename tmpPath path
    fsyncParent io
  steps.onError (removeFile io.tmpRemove tmpPath)

/-- Read, plan, persist. -/
def mutate {α : Type} (io : IoFaults) (path : Path) (plan : Bytes → Res (Plan α)) : DiskM α := do
  let bytes ← readFile io.read path
  let planned ← CrashM.lift (plan bytes)
  match planned.write with
  | none => return planned.value
  | some (vaultBytes, uniqueSeed) =>
      persistVaultMutationV2 io path vaultBytes uniqueSeed
      return planned.value

/-- The call on the disk. -/
def run (platform : Platform) (env : Env) (session : UnlockedVault) (call : Mutation) :
    DiskM (Option ItemId) :=
  mutate env.io session.path (call.plan platform env.draws session)

-- ==================================================== as a process sees it

section Views

/-- Programs over the files are put together as those of the library. -/
theorem bind_eq_follow {α β : Type} (m : FsM α) (f : α → FsM β) : m >>= f = follow m f := by
  funext fs
  rw [FsM.bind_apply]
  unfold follow
  rcases m fs with ⟨r, fs'⟩
  cases r with
  | error e => rfl
  | ok a => rfl

theorem onError_eq_recover {α : Type} (m : FsM α) (cleanup : FsM Unit) :
    m.onError cleanup = recover m cleanup := by
  funext fs
  unfold FsM.onError recover
  rcases m fs with ⟨r, fs'⟩
  cases r with
  | error e => rfl
  | ok a => rfl

variable {α : Type} {d : VaultDisk} {path tmpPath : Path} {bytes vaultBytes : Bytes}
  {io : IoFaults} {fault : Bool}

/-- Each primitive over the disk does to the files what its namesake over
the plain file system does. -/
theorem readFile_shows :
    Shows Disk.files (MeissnerSeal.readFile fault path) (readFile fault path) d := by
  unfold Shows readFile MeissnerSeal.readFile
  rw [step_result, step_state]
  cases fault with
  | true => rfl
  | false => rfl

theorem createNewFile_shows :
    (MeissnerSeal.createNewFile fault path d.files)
      = ((createNewFile fault path d).result.map fun _ => (),
          (createNewFile fault path d).state.files) := by
  have hiff : (fault ∨ ¬ path.NamesFile ∨ (d.files path).isSome)
      ↔ (fault ∨ ¬ path.NamesFile ∨ (d.entry path).isSome) := by
    rw [Disk.files, Option.isSome_map]
  unfold createNewFile MeissnerSeal.createNewFile
  rw [step_result, step_state]
  by_cases h : fault = true ∨ ¬ path.NamesFile ∨ (d.entry path).isSome = true
  · simp only [if_pos h, if_pos (hiff.mpr h)]
    rfl
  · simp only [if_neg h, if_neg (mt hiff.mp h), Fs.set_eq_update, Disk.files_create]
    rfl

/-- A file just created is open under its name. -/
theorem openAt_of_createNewFile {file : Nat} (h : (createNewFile fault path d).result = .ok file) :
    (createNewFile fault path d).state = d.create path [] ∧ file = d.next
      ∧ (d.create path []).OpenAt path file := by
  unfold createNewFile at h ⊢
  rw [step_result] at h
  rw [step_state]
  by_cases hfault : fault = true ∨ ¬ path.NamesFile ∨ (d.entry path).isSome = true
  · simp only [if_pos hfault] at h
    cases h
  · simp only [if_neg hfault] at h ⊢
    cases h
    exact ⟨trivial, rfl, Disk.openAt_create⟩

theorem writeAll_shows {written : Option Nat} {file : Nat} (h : d.OpenAt path file) :
    Shows Disk.files (MeissnerSeal.writeAll written path bytes)
      (writeAll written file bytes) d := by
  unfold Shows writeAll MeissnerSeal.writeAll
  rw [step_result, step_state]
  cases written with
  | none => simp only [Fs.set_eq_update, h.files_write]
  | some n => simp only [Fs.set_eq_update, h.files_write]

theorem renameFile_shows {source target : Path} :
    Shows Disk.files (MeissnerSeal.renameFile fault source target)
      (renameFile fault source target) d := by
  unfold Shows renameFile MeissnerSeal.renameFile
  rw [step_result, step_state]
  cases fault with
  | true => rfl
  | false =>
      cases hrename : d.rename source target with
      | none =>
          simp only [Disk.files_eq_none.mpr (Disk.rename_eq_none.mp hrename)]
      | some d' =>
          obtain ⟨i, -, hentry, -⟩ := Disk.rename_eq_some hrename
          have hfile : d.files source = some (d.inode i).data := by
            rw [Disk.files, hentry, Option.map_some]
          simp only [hfile, Disk.files_rename hrename hfile, Fs.set_eq_update]

theorem removeFile_shows :
    Shows Disk.files (MeissnerSeal.removeFile fault path) (removeFile fault path) d := by
  unfold Shows removeFile MeissnerSeal.removeFile
  rw [step_result, step_state]
  by_cases hblocked : fault = true ∨ ¬ path.NamesFile
  · rw [decide_eq_true hblocked, if_pos (or_assoc.mp (.inl hblocked))]
  · rw [decide_eq_false hblocked]
    cases hunlink : d.unlink path with
    | none =>
        have hnone := Disk.files_eq_none.mpr (Disk.unlink_eq_none.mp hunlink)
        rw [if_pos (.inr (.inr (by rw [hnone]; rfl)))]
    | some d' =>
        obtain ⟨i, -, hentry, -⟩ := Disk.unlink_eq_some hunlink
        have hfile : d.files path = some (d.inode i).data := by
          rw [Disk.files, hentry, Option.map_some]
        have hfree : ¬ (fault = true ∨ ¬ path.NamesFile ∨ (d.files path).isNone = true) := by
          rw [← or_assoc, hfile]
          exact fun h => h.elim hblocked Bool.false_ne_true
        rw [if_neg hfree]
        simp only [Disk.files_unlink hunlink, Fs.set_eq_update]

theorem fsyncParent_shows :
    Shows Disk.files (MeissnerSeal.fsyncParent io) (fsyncParent io) d := by
  rw [MeissnerSeal.fsyncParent, bind_eq_follow]
  refine shows_bind ?_ fun _ _ => ?_
  · unfold Shows openParent syncCall
    rw [step_result, step_state]
    cases io.parentOpen with
    | true => rfl
    | false => rfl
  · unfold Shows syncParent syncCall
    rw [step_result, step_state]
    cases io.parentSync with
    | true => rfl
    | false => rfl

/-- And so do the programs made of them. -/
theorem writeTmp_shows :
    Shows Disk.files (MeissnerSeal.writeTmp io tmpPath vaultBytes)
      (writeTmp io tmpPath vaultBytes) d := by
  rw [MeissnerSeal.writeTmp, bind_eq_follow]
  refine shows_bind_map createNewFile_shows fun file hfile => ?_
  obtain ⟨hstate, -, hopen⟩ := openAt_of_createNewFile hfile
  rw [hstate]
  rw [bind_eq_follow]
  refine shows_bind (writeAll_shows hopen) fun _ _ => ?_
  unfold Shows syncAll syncCall
  rw [step_result, step_state]
  cases io.tmpSync with
  | true => rfl
  | false => simp only [Bool.false_eq_true, if_false, Disk.files_sync]

/-- A persist on the disk is the persist on the files it shows. -/
theorem persist_shows {seed : U8Array 16} :
    Shows Disk.files (MeissnerSeal.persistVaultMutationV2 io path vaultBytes seed)
      (persistVaultMutationV2 io path vaultBytes seed) d := by
  rw [MeissnerSeal.persistVaultMutationV2, onError_eq_recover, bind_eq_follow]
  refine shows_onError ?_ fun _ _ => removeFile_shows
  refine shows_bind writeTmp_shows fun _ _ => ?_
  rw [bind_eq_follow]
  exact shows_bind renameFile_shows fun _ _ => fsyncParent_shows

theorem mutate_shows {plan : Bytes → Res (Plan α)} :
    Shows Disk.files (MeissnerSeal.mutate io path plan) (mutate io path plan) d := by
  rw [MeissnerSeal.mutate, bind_eq_follow]
  refine shows_bind readFile_shows fun bytes _ => ?_
  rw [bind_eq_follow]
  refine shows_bind rfl fun planned _ => ?_
  rcases planned with ⟨value, write⟩
  cases write with
  | none => rfl
  | some write =>
      show Shows Disk.files (MeissnerSeal.persistVaultMutationV2 io path write.1 write.2 >>= _) _ _
      rw [bind_eq_follow]
      exact shows_bind persist_shows fun _ _ => rfl

/-- A call on the disk is the call on the files it shows. -/
theorem run_shows (platform : Platform) (env : Env) (session : UnlockedVault) (call : Mutation)
    (d : VaultDisk) :
    Shows Disk.files (call.run platform env session) (run platform env session call) d := by
  unfold Shows
  rw [Mutation.run_eq_mutate]
  exact mutate_shows

end Views

-- ================================================== what a crash leaves

section Keeps

variable {d : VaultDisk} {path tmpPath : Path} {vaultBytes : Bytes} {good : Bytes → Prop}

/-- The old file of the path or the new bytes, whatever a crash keeps. -/
def KeepsOr (path : Path) (good : Bytes → Prop) (vaultBytes : Bytes) (d : VaultDisk) : Prop :=
  d.Keeps path fun b => good b ∨ b = vaultBytes

/-- While the temporary file is written the path keeps its bytes, at every
crash point. Where the write succeeds the bytes are on disk, though the name
may not be. -/
theorem writeTmp_meets (io : IoFaults) (h : d.Keeps path good) (hapart : tmpPath.Apart path) :
    Meets (Disk.Keeps · path good)
      (fun r t => t.Keeps path good ∧ ∀ u, r = .ok u → tmpPath ≠ path
        ∧ ∃ i, t.entry tmpPath = some i ∧ t.inode i = ⟨vaultBytes, true⟩)
      (writeTmp io tmpPath vaultBytes) d := by
  have hfails : ∀ {t : VaultDisk} {e : CoreError}, t.Keeps path good →
      t.Keeps path good ∧ ∀ u : Unit, (Except.error e : Res Unit) = .ok u → tmpPath ≠ path
        ∧ ∃ i, t.entry tmpPath = some i ∧ t.inode i = ⟨vaultBytes, true⟩ := by
    intro t e ht
    exact ⟨ht, fun u hu => by cases hu⟩
  refine meets_bind ?_
  by_cases hcreate : io.tmpCreate = true ∨ ¬ tmpPath.NamesFile ∨ (d.entry tmpPath).isSome = true
  · refine meets_step ?_ ?_
    · simp only [if_pos hcreate]
      exact h
    · simp only [if_pos hcreate]
      exact hfails h
  have hne : tmpPath ≠ path := by
    have hfile : tmpPath.NamesFile := by
      by_contra hdir
      exact hcreate (.inr (.inl hdir))
    exact (hapart hfile).symm
  have hopen : (d.create tmpPath []).OpenAt tmpPath d.next := Disk.openAt_create
  have hcreated : (d.create tmpPath ([] : Bytes)).Keeps path good := h.create hne
  refine meets_step ?_ ?_
  · simp only [if_neg hcreate]
    exact hcreated
  simp only [if_neg hcreate]
  have hwritten : ∀ b, ((d.create tmpPath []).write d.next b).Keeps path good :=
    fun _ => hopen.keeps_write hne.symm hcreated
  refine meets_bind ?_
  cases hwrite : io.tmpWrite with
  | some n => exact meets_step (hwritten _) (hfails (hwritten _))
  | none =>
      refine meets_step (hwritten vaultBytes) ?_
      cases hsync : io.tmpSync with
      | true => exact meets_step (hwritten _) (hfails (hwritten _))
      | false =>
          have hsynced := hopen.write.keeps_sync hne.symm (hwritten vaultBytes)
          refine meets_step hsynced (And.intro hsynced fun _ _ => ?_)
          exact ⟨hne, d.next, hopen.entry, Disk.inode_sync_write⟩

/-- Removing the temporary file touches no other name. -/
theorem removeFile_meets {fault : Bool} (h : KeepsOr path good vaultBytes d)
    (hapart : tmpPath.Apart path) :
    Meets (KeepsOr path good vaultBytes) (fun _ => KeepsOr path good vaultBytes)
      (removeFile fault tmpPath) d := by
  have hkeeps : KeepsOr path good vaultBytes (removeFile fault tmpPath d).state := by
    unfold removeFile
    rw [step_state]
    by_cases hblocked : fault = true ∨ ¬ tmpPath.NamesFile
    · rw [decide_eq_true hblocked]
      exact h
    · rw [decide_eq_false hblocked]
      have hne := (hapart (Decidable.not_not.mp (not_or.mp hblocked).2)).symm
      cases hunlink : d.unlink tmpPath with
      | none => exact h
      | some d' => exact h.unlink hne hunlink
  exact meets_step hkeeps hkeeps

/-- A sync of the directory that succeeds brings to the medium what the
path shows. -/
theorem fsyncParent_meets (io : IoFaults) (h : KeepsOr path good vaultBytes d)
    (hsynced : d.syncDir.Durable path vaultBytes) (hapart : tmpPath.Apart path) :
    Meets (KeepsOr path good vaultBytes)
      (fun r t => match r with
        | .ok _ => t.Durable path vaultBytes
        | .error _ => Meets (KeepsOr path good vaultBytes) (fun _ => KeepsOr path good vaultBytes)
            (removeFile io.tmpRemove tmpPath) t)
      (fsyncParent io) d := by
  have hafter : KeepsOr path good vaultBytes d.syncDir :=
    hsynced.keeps.mono fun b hb => .inr hb
  refine meets_bind ?_
  cases hopen : io.parentOpen with
  | true => exact meets_step h (removeFile_meets h hapart)
  | false =>
      refine meets_step h ?_
      cases hsync : io.parentSync with
      | true => exact meets_step h (removeFile_meets h hapart)
      | false => exact meets_step hafter hsynced

/-- From its first system call to its last a persist leaves, whatever a crash
keeps, the old file or the new bytes; once it has succeeded, the new ones. -/
theorem persist_meets (io : IoFaults) (seed : U8Array 16) (h : d.Keeps path good) :
    Meets (KeepsOr path good vaultBytes)
      (fun r t => match r with
        | .ok _ => t.Durable path vaultBytes
        | .error _ => KeepsOr path good vaultBytes t)
      (persistVaultMutationV2 io path vaultBytes seed) d := by
  have hapart := uniqueTmpPath_apart path seed
  have hweaken : ∀ t : VaultDisk, t.Keeps path good → KeepsOr path good vaultBytes t :=
    fun t ht => ht.mono fun b hb => .inl hb
  refine meets_onError ?_
  refine meets_bind ((writeTmp_meets io h hapart).mono hweaken fun r t ht => ?_)
  obtain ⟨hkeeps, hok⟩ := ht
  cases r with
  | error e => exact removeFile_meets (hweaken t hkeeps) hapart
  | ok u =>
      obtain ⟨-, i, hentry, hinode⟩ := hok u rfl
      refine meets_bind ?_
      cases hrename : io.rename with
      | true => exact meets_step (hweaken t hkeeps) (removeFile_meets (hweaken t hkeeps) hapart)
      -- the rename: from here on a crash may find either
      | false =>
          cases hrenamed : t.rename (uniqueTmpPath path seed) path with
          | none =>
              rw [Disk.rename_eq_none, hentry] at hrenamed
              cases hrenamed
          | some t' =>
              obtain ⟨hkeeps', hentry'⟩ := hkeeps.rename hentry hinode hrenamed
              have hinode' : t'.inode i = ⟨vaultBytes, true⟩ := by
                obtain ⟨_, _, -, rfl⟩ := Disk.rename_eq_some hrenamed
                exact hinode
              refine meets_step ?_ ?_
              · simp only [hrenamed]
                exact hkeeps'
              · simp only [hrenamed]
                have hsync := fsyncParent_meets io hkeeps'
                  (Disk.durable_syncDir hentry' hinode') hapart
                refine hsync.mono (fun _ ht => ht) fun r t ht => ?_
                cases r with
                | ok _ => exact ht
                | error _ => exact ht

end Keeps

-- ================================================= a sync that has failed

section Lags

variable {α : Type} {d t : VaultDisk} {path : Path} {vaultBytes : Bytes} {io : IoFaults}

/-- On the medium nothing has changed since `d`. -/
structure Lags (d t : VaultDisk) : Prop where
  durable : t.durable = d.durable
  next_le : d.next ≤ t.next
  inode : ∀ i < d.next, t.inode i = d.inode i

/-- Nothing has happened since. -/
theorem Lags.refl (d : VaultDisk) : Lags d d := ⟨rfl, Nat.le_refl _, fun _ _ => rfl⟩

/-- A change of the directory that is not synced may be lost. -/
theorem Lags.push (h : Lags d t) (c : DirChange Path) (hc : ∀ i, c.inode? = some i → i < t.next) :
    Lags d (t.push c hc) := ⟨h.durable, h.next_le, h.inode⟩

/-- A file that is made may be lost with its name. -/
theorem Lags.create (h : Lags d t) {name : Path} {b : Bytes} : Lags d (t.create name b) where
  durable := h.durable
  next_le := Nat.le_succ_of_le h.next_le
  inode i hi := by
    show Function.update t.inode t.next ⟨b, false⟩ i = d.inode i
    rw [Function.update_of_ne (Nat.ne_of_lt (Nat.lt_of_lt_of_le hi h.next_le)), h.inode i hi]

/-- What is done to the data of a newer file. -/
theorem Lags.withInode (h : Lags d t) {file : Nat} (hfile : d.next ≤ file) (node : Inode Bytes) :
    Lags d { t with inode := Function.update t.inode file node } where
  durable := h.durable
  next_le := h.next_le
  inode i hi := by
    show Function.update t.inode file node i = d.inode i
    rw [Function.update_of_ne (Nat.ne_of_lt (Nat.lt_of_lt_of_le hi hfile)), h.inode i hi]

/-- No step before the last sync forces the directory out. -/
theorem removeFile_lags {fault : Bool} (h : Lags d t) :
    Meets (fun _ => True) (fun _ u => Lags d u) (removeFile fault path) t := by
  refine meets_step trivial ?_
  cases decide (fault = true ∨ ¬ path.NamesFile) with
  | true => exact h
  | false =>
      cases hunlink : t.unlink path with
      | none => exact h
      | some t' =>
          obtain ⟨i, hi, -, rfl⟩ := Disk.unlink_eq_some hunlink
          exact h.push _ hi

theorem writeTmp_lags (h : Lags d t) :
    Meets (fun _ => True) (fun _ u => Lags d u) (writeTmp io path vaultBytes) t := by
  refine meets_bind ?_
  by_cases hcreate : io.tmpCreate = true ∨ ¬ path.NamesFile ∨ (t.entry path).isSome = true
  · refine meets_step trivial ?_
    simp only [if_pos hcreate]
    exact h
  · refine meets_step trivial ?_
    simp only [if_neg hcreate]
    have hwritten : ∀ b, Lags d ((t.create path []).write t.next b) :=
      fun b => h.create.withInode h.next_le ⟨b, false⟩
    refine meets_bind ?_
    cases io.tmpWrite with
    | some n => exact meets_step trivial (hwritten _)
    | none =>
        refine meets_step trivial ?_
        cases io.tmpSync with
        | true => exact meets_step trivial (hwritten _)
        | false => exact meets_step trivial ((hwritten vaultBytes).withInode h.next_le _)

/-- Nor does a last sync that fails. -/
theorem fsyncParent_lags (hafter : io.afterRename = true) (h : Lags d t) :
    Meets (fun _ => True)
      (fun r u => Lags d u ∧ ∃ e, r = .error e) (fsyncParent io) t := by
  refine meets_bind ?_
  cases hopen : io.parentOpen with
  | true => exact meets_step trivial ⟨h, _, rfl⟩
  | false =>
      refine meets_step trivial ?_
      have hsync : io.parentSync = true := by
        rw [IoFaults.afterRename, hopen, Bool.false_or] at hafter
        exact hafter
      rw [hsync]
      exact meets_step trivial ⟨h, _, rfl⟩

/-- A persist whose directory sync fails has changed nothing on the medium. -/
theorem persist_lags {seed : U8Array 16} (hafter : io.afterRename = true) (h : Lags d t) :
    Meets (fun _ => True) (fun _ u => Lags d u)
      (persistVaultMutationV2 io path vaultBytes seed) t := by
  refine meets_onError ?_
  refine meets_bind ((writeTmp_lags h).mono (fun _ _ => trivial) fun r t ht => ?_)
  cases r with
  | error e => exact removeFile_lags ht
  | ok _ =>
      refine meets_bind (meets_step trivial ?_)
      cases io.rename with
      | true => exact removeFile_lags ht
      | false =>
          cases hrenamed : t.rename (uniqueTmpPath path seed) path with
          | none => exact removeFile_lags ht
          | some t' =>
              obtain ⟨i, hi, -, rfl⟩ := Disk.rename_eq_some hrenamed
              refine (fsyncParent_lags hafter (ht.push _ hi)).mono (fun _ hu => hu) fun r u hu => ?_
              obtain ⟨hlags, e, rfl⟩ := hu
              exact removeFile_lags hlags

/-- A call whose directory sync fails has changed nothing on the medium. -/
theorem run_lags {platform : Platform} {env : Env} {session : UnlockedVault} {call : Mutation}
    (hafter : env.io.afterRename = true) (h : Lags d t) :
    Meets (fun _ => True) (fun _ u => Lags d u) (run platform env session call) t := by
  refine meets_bind (meets_step trivial ?_)
  cases env.io.read with
  | true => exact h
  | false =>
      cases hfile : t.files session.path with
      | none => exact h
      | some bytes =>
          refine meets_bind (meets_lift ?_)
          cases call.plan platform env.draws session bytes with
          | error e => exact h
          | ok planned =>
              rcases planned with ⟨value, write⟩
              cases write with
              | none => exact meets_pure h
              | some write =>
                  refine meets_bind ((persist_lags hafter h).mono (fun _ hu => hu) fun r u hu => ?_)
                  cases r with
                  | error _ => exact hu
                  | ok _ => exact meets_pure hu

/-- A plan that writes nothing. -/
theorem mutate_of_noop {plan : Bytes → Res (Plan α)} {value : α} {bytes : Bytes}
    (hfile : d.files path = some bytes) (hread : io.read = false)
    (hplan : plan bytes = .ok ⟨value, none⟩) : mutate io path plan d = ⟨.ok value, d, [d]⟩ := by
  have hreads : readFile io.read path d = ⟨.ok bytes, d, [d]⟩ := by
    unfold readFile CrashM.step
    simp only [hread, hfile, okOr_some, Bool.false_eq_true, if_false]
  unfold mutate
  rw [bind_eq]
  unfold CrashM.bind
  simp only [hreads, hplan, bind_eq, CrashM.bind, CrashM.lift]
  rfl

end Lags

end OnDisk

end MeissnerSeal
