/-
The file system the vault is persisted through, and the crash-safe
rewrite every mutation ends in.

# The file system

A file system maps resolved paths to file contents. An operation fails
when the environment says so (`IoFaults`, one switch for each system
call of a persist) or when the source's own open mode makes it fail:
reading or renaming a file that is not there, `create_new` over one that
is. A failing write leaves the bytes it wrote before it failed.

# Names

Of a few names `with_extension` makes `..`, which is a directory's: nothing
can be created there, and nothing is removed (`Path.NamesFile`). A call
whose temporary path is such a one fails without touching a file; its
temporary path is apart from every other (`Path.Apart`).

# Programs

`FsM` threads the file system through a program and keeps it when the
program fails: what an erring call leaves on disk is part of its
result.
-/
import MeissnerSeal.Item.Payload

namespace MeissnerSeal

open ByteCodec ExceptRules

-- =============================================================== paths

/-- A resolved path: the text up to and including the last separator, and
the name behind it. -/
structure Path where
  parent : String
  fileName : String
  deriving DecidableEq

/-- The name can be a file's. -/
def Path.NamesFile (path : Path) : Prop :=
  path.fileName ≠ "" ∧ path.fileName ≠ "." ∧ path.fileName ≠ ".."

instance (path : Path) : Decidable path.NamesFile :=
  inferInstanceAs (Decidable (path.fileName ≠ "" ∧ path.fileName ≠ "." ∧ path.fileName ≠ ".."))

/-- `Path::file_stem`: what stands before the last dot, unless
that is nothing. -/
def fileStem (name : List Char) : List Char :=
  match name.reverse.dropWhile (· ≠ '.') with
  | [] => name
  | _ :: before => if before = [] then name else before.reverse

/-- `Path::with_extension`. It cuts the name behind its last dot before
it sets the extension: of `..x` that leaves `..`, which has no stem and
stays as it is. -/
def Path.withExtension (path : Path) (extension : String) : Path :=
  if path.NamesFile then
    if fileStem path.fileName.toList = ['.'] then { path with fileName := ".." }
    else
      { path with
        fileName := String.ofList (fileStem path.fileName.toList ++ '.' :: extension.toList) }
  else path

/-- `unique_tmp_path`. -/
def uniqueTmpPath (path : Path) (seed : U8Array 16) : Path :=
  path.withExtension (hexBytes seed.toList ++ ".msv.tmp")

/-- What is done at `tmpPath` does not reach `path`: there is another
file, or none. -/
def Path.Apart (tmpPath path : Path) : Prop := tmpPath.NamesFile → path ≠ tmpPath

theorem Path.Apart.of_ne {tmpPath path : Path} (h : path ≠ tmpPath) : tmpPath.Apart path :=
  fun _ => h

/-- The stem of a name that ends in a dot and a dot-free extension. -/
theorem fileStem_append_dot (stem extension : List Char) (hstem : stem ≠ [])
    (hext : '.' ∉ extension) : fileStem (stem ++ '.' :: extension) = stem := by
  have hdrop : (stem ++ '.' :: extension).reverse.dropWhile (· ≠ '.') = '.' :: stem.reverse := by
    have hrev : (stem ++ '.' :: extension).reverse
        = extension.reverse ++ '.' :: stem.reverse := by simp
    rw [hrev, List.dropWhile_append_of_pos]
    · simp
    · intro c hc
      have hne : c ≠ '.' := by
        rintro rfl
        exact hext (List.mem_reverse.mp hc)
      simp [hne]
  rw [fileStem, hdrop]
  simp [hstem]

/-- The path has temporary paths that can be files: its name is a file's, and
not `..` with an extension. -/
def Path.HasTmp (path : Path) : Prop :=
  path.NamesFile ∧ fileStem path.fileName.toList ≠ ['.']

instance (path : Path) : Decidable path.HasTmp :=
  inferInstanceAs (Decidable (path.NamesFile ∧ fileStem path.fileName.toList ≠ ['.']))

/-- A temporary path is then the stem with its extension. -/
theorem Path.HasTmp.fileName {path : Path} (h : path.HasTmp) (seed : U8Array 16) :
    (uniqueTmpPath path seed).fileName.toList
      = fileStem path.fileName.toList ++ '.' :: (hexBytes seed.toList ++ ".msv.tmp").toList := by
  rw [uniqueTmpPath, Path.withExtension, if_pos h.1, if_neg h.2, String.toList_ofList]

theorem uniqueTmpPath_namesFile_iff {path : Path} {seed : U8Array 16} :
    (uniqueTmpPath path seed).NamesFile ↔ path.HasTmp := by
  constructor
  · intro h
    unfold uniqueTmpPath Path.withExtension at h
    by_cases hname : path.NamesFile
    · refine ⟨hname, fun hstem => ?_⟩
      rw [if_pos hname, if_pos hstem] at h
      exact h.2.2 rfl
    · rw [if_neg hname] at h
      exact absurd h hname
  · intro h
    -- longer than any name that is not a file's
    have hlen : 8 ≤ (uniqueTmpPath path seed).fileName.toList.length := by
      have hext : ".msv.tmp".toList.length = 8 := by decide
      rw [h.fileName, List.length_append, List.length_cons, String.toList_append,
        List.length_append]
      omega
    refine ⟨fun heq => ?_, fun heq => ?_, fun heq => ?_⟩
    · rw [heq] at hlen
      exact absurd hlen (by decide)
    · rw [heq] at hlen
      exact absurd hlen (by decide)
    · rw [heq] at hlen
      exact absurd hlen (by decide)

/-- A temporary path never is the path it is derived from. -/
theorem uniqueTmpPath_apart (path : Path) (seed : U8Array 16) :
    (uniqueTmpPath path seed).Apart path := by
  intro hfile h
  have hname := (uniqueTmpPath_namesFile_iff.mp hfile).fileName seed
  rw [← h] at hname
  have htmp : (hexBytes seed.toList ++ ".msv.tmp").toList
      = (hexBytes seed.toList).toList ++ ".msv".toList ++ '.' :: "tmp".toList := by
    simp [String.toList_append]
  rw [htmp] at hname
  generalize hstem : fileStem path.fileName.toList = stem at hname
  have hsplit : stem ++ '.' :: ((hexBytes seed.toList).toList ++ ".msv".toList
    ++ '.' :: "tmp".toList)
      = (stem ++ '.' :: ((hexBytes seed.toList).toList ++ ".msv".toList))
        ++ '.' :: "tmp".toList := by
    simp
  have hfix := fileStem_append_dot
    (stem ++ '.' :: ((hexBytes seed.toList).toList ++ ".msv".toList)) "tmp".toList (by simp)
    (by decide)
  rw [← hsplit, ← hname, hstem] at hfix
  have hlen := congrArg List.length hfix
  simp only [List.length_append, List.length_cons] at hlen
  omega

/-- Temporary paths of one file differ with their seeds. -/
theorem uniqueTmpPath_inj {path : Path} {seed seed' : U8Array 16}
    (hfile : (uniqueTmpPath path seed).NamesFile)
    (h : uniqueTmpPath path seed = uniqueTmpPath path seed') : seed = seed' := by
  have htmp := uniqueTmpPath_namesFile_iff.mp hfile
  have hname := htmp.fileName seed
  rw [h, htmp.fileName seed', List.append_cancel_left_eq, List.cons.injEq,
    String.toList_inj] at hname
  have hhex := congrArg String.toList hname.2
  rw [String.toList_append, String.toList_append, List.append_cancel_right_eq,
    String.toList_inj] at hhex
  exact List.Vector.toList_injective (hexBytes_inj hhex).symm

theorem uniqueTmpPath_apart_of_ne (path : Path) {seed seed' : U8Array 16} (h : seed' ≠ seed) :
    (uniqueTmpPath path seed).Apart (uniqueTmpPath path seed') :=
  fun hfile heq => h (uniqueTmpPath_inj (heq ▸ hfile) heq)

-- ========================================================= file system

/-- File contents by path. -/
abbrev Fs := Path → Option Bytes

/-- A file system with one entry replaced. -/
def Fs.set (fs : Fs) (path : Path) (contents : Option Bytes) : Fs :=
  fun p => if p = path then contents else fs p

@[simp] theorem Fs.set_self (fs : Fs) (path : Path) (contents : Option Bytes) :
    fs.set path contents path = contents := if_pos rfl

@[simp] theorem Fs.set_of_ne (fs : Fs) {path p : Path} (contents : Option Bytes) (h : p ≠ path) :
    fs.set path contents p = fs p := if_neg h

/-- Which system calls of one operation fail. `tmpWrite` holds how many
bytes reach the file before its write fails. -/
structure IoFaults where
  read : Bool := false
  claim : Bool := false
  tmpCreate : Bool := false
  tmpWrite : Option Nat := none
  tmpSync : Bool := false
  rename : Bool := false
  parentOpen : Bool := false
  parentSync : Bool := false
  tmpRemove : Bool := false
  targetRemove : Bool := false
  deriving DecidableEq

/-- No system call fails. -/
def IoFaults.none : IoFaults := {}

/-- A program over the file system. -/
def FsM (α : Type) := Fs → Res α × Fs

namespace FsM

variable {α β : Type}

def ok (a : α) : FsM α := fun fs => (.ok a, fs)

def error (e : CoreError) : FsM α := fun fs => (.error e, fs)

def bind (m : FsM α) (f : α → FsM β) : FsM β := fun fs =>
  match m fs with
  | (.ok a, fs) => f a fs
  | (.error e, fs) => (.error e, fs)

instance : Monad FsM where
  pure := ok
  bind := bind

/-- A computation that touches no file. -/
def lift (x : Res α) : FsM α := fun fs => (x, fs)

/-- A computation that reads files and changes none. -/
def reading (x : Fs → Res α) : FsM α := fun fs => (x fs, fs)

/-- `if result.is_err() { cleanup }`: the cleanup's own result is dropped. -/
def onError (m : FsM α) (cleanup : FsM Unit) : FsM α := fun fs =>
  match m fs with
  | (.ok a, fs) => (.ok a, fs)
  | (.error e, fs) => (.error e, (cleanup fs).2)

theorem bind_apply (m : FsM α) (f : α → FsM β) (fs : Fs) :
    (m >>= f) fs = match m fs with
      | (.ok a, fs) => f a fs
      | (.error e, fs) => (.error e, fs) := rfl

theorem pure_apply (a : α) (fs : Fs) : (pure a : FsM α) fs = (.ok a, fs) := rfl

theorem reading_bind {x : Fs → Res α} {f : α → FsM β} {fs : Fs} :
    (reading x >>= f) fs = match x fs with
      | .ok a => f a fs
      | .error e => (.error e, fs) := by
  rw [bind_apply, reading]
  cases x fs with
  | ok a => rfl
  | error e => rfl

/-- The program leaves the file alone. -/
def Leaves (m : FsM α) (path : Path) : Prop := ∀ fs, (m fs).2 path = fs path

theorem leaves_reading (x : Fs → Res α) (path : Path) : (reading x).Leaves path := fun _ => rfl

theorem leaves_pure (a : α) (path : Path) : Leaves (pure a : FsM α) path := fun _ => rfl

theorem Leaves.bind {m : FsM α} {f : α → FsM β} {path : Path} (hm : m.Leaves path)
    (hf : ∀ a, (f a).Leaves path) : (m >>= f).Leaves path := by
  intro fs
  have hfirst := hm fs
  rw [bind_apply]
  cases hrun : m fs with
  | mk result fs' =>
      rw [hrun] at hfirst
      cases result with
      | error e => exact hfirst
      | ok a => exact (hf a fs').trans hfirst

end FsM

-- =========================================================== primitives

/-- `std::fs::read`. -/
def readFile (fault : Bool) (path : Path) : FsM Bytes := fun fs =>
  if fault then (.error .io, fs) else (okOr (fs path) .io, fs)

/-- `OpenOptions::create_new(true).open`. -/
def createNewFile (fault : Bool) (path : Path) : FsM Unit := fun fs =>
  if fault ∨ ¬ path.NamesFile ∨ (fs path).isSome then (.error .io, fs)
  else (.ok (), fs.set path (some []))

/-- `write_all` to a file just created. -/
def writeAll (fault : Option Nat) (path : Path) (bytes : Bytes) : FsM Unit := fun fs =>
  match fault with
  | none => (.ok (), fs.set path (some bytes))
  | some written => (.error .io, fs.set path (some (bytes.take written)))

/-- A system call that changes no file's contents. -/
def syncCall (fault : Bool) : FsM Unit := fun fs =>
  if fault then (.error .io, fs) else (.ok (), fs)

theorem leaves_syncCall (fault : Bool) (path : Path) : (syncCall fault).Leaves path := by
  intro fs
  unfold syncCall
  split
  · rfl
  · rfl

/-- `std::fs::rename`. -/
def renameFile (fault : Bool) (source target : Path) : FsM Unit := fun fs =>
  match fault, fs source with
  | false, some bytes => (.ok (), (fs.set source none).set target (some bytes))
  | _, _ => (.error .io, fs)

/-- `std::fs::remove_file`. -/
def removeFile (fault : Bool) (path : Path) : FsM Unit := fun fs =>
  if fault ∨ ¬ path.NamesFile ∨ (fs path).isNone then (.error .io, fs)
  else (.ok (), fs.set path none)

/-- `fsync_parent`. -/
def fsyncParent (io : IoFaults) : FsM Unit := do
  syncCall io.parentOpen
  syncCall io.parentSync

-- ======================================================= crash-safe rewrite

/-- The part of a persist up to and including the sync of the
temporary file. -/
def writeTmp (io : IoFaults) (tmpPath : Path) (vaultBytes : Bytes) : FsM Unit := do
  createNewFile io.tmpCreate tmpPath
  writeAll io.tmpWrite tmpPath vaultBytes
  syncCall io.tmpSync

/-- `persist_vault_mutation_v2`. -/
def persistVaultMutationV2 (io : IoFaults) (path : Path) (vaultBytes : Bytes)
    (uniqueSeed : U8Array 16) : FsM Unit :=
  let tmpPath := uniqueTmpPath path uniqueSeed
  let steps : FsM Unit := do
    writeTmp io tmpPath vaultBytes
    renameFile io.rename tmpPath path
    fsyncParent io
  steps.onError (removeFile io.tmpRemove tmpPath)

/-- The environment lets a persist get as far as its rename. -/
def ReachesRename (io : IoFaults) (fs : Fs) (tmpPath : Path) : Prop :=
  io.tmpCreate = false ∧ tmpPath.NamesFile ∧ fs tmpPath = none ∧ io.tmpWrite = none
    ∧ io.tmpSync = false ∧ io.rename = false

/-- Writing the file itself takes no temporary name. -/
theorem reachesRename_set {io : IoFaults} {fs : Fs} {path : Path} {seed : U8Array 16}
    (contents : Option Bytes) :
    ReachesRename io (fs.set path contents) (uniqueTmpPath path seed)
      ↔ ReachesRename io fs (uniqueTmpPath path seed) := by
  unfold ReachesRename
  refine and_congr_right fun _ => and_congr_right fun hfile => ?_
  rw [Fs.set_of_ne _ _ (uniqueTmpPath_apart path seed hfile).symm]

/-- A step after the rename fails. -/
def IoFaults.afterRename (io : IoFaults) : Bool := io.parentOpen || io.parentSync

/-- A removal touches one path. -/
theorem removeFile_of_apart {fault : Bool} {path p : Path} (fs : Fs) (h : path.Apart p) :
    (removeFile fault path fs).2 p = fs p := by
  unfold removeFile
  split
  case isTrue => rfl
  case isFalse hfree =>
      have hfile : path.NamesFile := by
        by_contra hdir
        exact hfree (.inr (.inl hdir))
      exact Fs.set_of_ne _ _ (h hfile)

/-- A file is created where there is none and can be one. -/
theorem createNewFile_cases (fault : Bool) (p : Path) (fs : Fs) :
    (fault = false ∧ p.NamesFile ∧ fs p = none
        ∧ createNewFile fault p fs = (.ok (), fs.set p (some [])))
      ∨ (¬ (fault = false ∧ p.NamesFile ∧ fs p = none)
        ∧ createNewFile fault p fs = (.error .io, fs)) := by
  unfold createNewFile
  by_cases h : fault = true ∨ ¬ p.NamesFile ∨ (fs p).isSome
  · right
    rw [if_pos h]
    refine ⟨?_, rfl⟩
    rintro ⟨hfault, hfile, hnone⟩
    rcases h with h | h | h
    · rw [hfault] at h
      cases h
    · exact h hfile
    · rw [hnone] at h
      cases h
  · left
    rw [if_neg h]
    simp only [not_or, Bool.not_eq_true, Decidable.not_not, Option.isSome_eq_false_iff,
      Option.isNone_iff_eq_none] at h
    exact ⟨h.1, h.2.1, h.2.2, rfl⟩

/-- Syncing changes no contents. -/
theorem fsyncParent_eq (io : IoFaults) (fs : Fs) :
    fsyncParent io fs = (if io.afterRename then .error .io else .ok (), fs) := by
  by_cases hopen : io.parentOpen = true
  · simp [fsyncParent, FsM.bind_apply, syncCall, IoFaults.afterRename, hopen]
  · by_cases hsync : io.parentSync = true
    · simp [fsyncParent, FsM.bind_apply, syncCall, IoFaults.afterRename, hopen, hsync]
    · simp [fsyncParent, FsM.bind_apply, syncCall, IoFaults.afterRename, hopen, hsync]

/-- A sealed temporary file is written whole, or the write fails and no
other path has changed. -/
theorem writeTmp_cases (io : IoFaults) (fs : Fs) (tmpPath : Path) (vaultBytes : Bytes) :
    (io.tmpCreate = false ∧ tmpPath.NamesFile ∧ fs tmpPath = none ∧ io.tmpWrite = none
        ∧ io.tmpSync = false
        ∧ writeTmp io tmpPath vaultBytes fs = (.ok (), fs.set tmpPath (some vaultBytes)))
      ∨ (¬ (io.tmpCreate = false ∧ tmpPath.NamesFile ∧ fs tmpPath = none ∧ io.tmpWrite = none
          ∧ io.tmpSync = false)
        ∧ ∃ fs', writeTmp io tmpPath vaultBytes fs = (.error .io, fs')
          ∧ ∀ p, tmpPath.Apart p → fs' p = fs p) := by
  have hset : ∀ contents : Bytes, (fs.set tmpPath (some [])).set tmpPath (some contents)
      = fs.set tmpPath (some contents) := by
    intro contents
    funext p
    by_cases hp : p = tmpPath
    · simp [Fs.set, hp]
    · simp [Fs.set, hp]
  rcases createNewFile_cases io.tmpCreate tmpPath fs with
    ⟨hcreate, hfile, hnone, hrun⟩ | ⟨hnot, hrun⟩
  · have hwrite : writeTmp io tmpPath vaultBytes fs
        = match io.tmpWrite with
          | none => syncCall io.tmpSync (fs.set tmpPath (some vaultBytes))
          | some n => (.error .io, fs.set tmpPath (some (vaultBytes.take n))) := by
      cases hw : io.tmpWrite with
      | none => simp only [writeTmp, FsM.bind_apply, hrun, writeAll, hw, hset]
      | some n => simp only [writeTmp, FsM.bind_apply, hrun, writeAll, hw, hset]
    rw [hwrite]
    cases hw : io.tmpWrite with
    | some n =>
        right
        refine ⟨fun h => by simp at h, _, rfl, fun p hp => ?_⟩
        exact Fs.set_of_ne _ _ (hp hfile)
    | none =>
        cases hs : io.tmpSync with
        | false =>
            left
            exact ⟨hcreate, hfile, hnone, rfl, rfl, rfl⟩
        | true =>
            right
            refine ⟨fun h => by simp at h, _, rfl, fun p hp => ?_⟩
            exact Fs.set_of_ne _ _ (hp hfile)
  · right
    refine ⟨fun h => hnot ⟨h.1, h.2.1, h.2.2.1⟩, fs, ?_, fun p _ => rfl⟩
    simp only [writeTmp, FsM.bind_apply, hrun]

/-- A persist that reaches its rename has replaced the file, whatever it
then returns. -/
theorem persistVaultMutationV2_of_reachesRename {io : IoFaults} {fs : Fs} {path : Path}
    {vaultBytes : Bytes} {seed : U8Array 16}
    (h : ReachesRename io fs (uniqueTmpPath path seed)) :
    persistVaultMutationV2 io path vaultBytes seed fs
      = (if io.afterRename then .error .io else .ok (), fs.set path (some vaultBytes)) := by
  obtain ⟨hcreate, hfile, hnone, hwrite, hsync, hrename⟩ := h
  have hne := (uniqueTmpPath_apart path seed hfile).symm
  rcases writeTmp_cases io fs (uniqueTmpPath path seed) vaultBytes with
    ⟨-, -, -, -, -, htmp⟩ | ⟨h, -⟩
  case inr => exact absurd ⟨hcreate, hfile, hnone, hwrite, hsync⟩ h
  have hfs : ((fs.set (uniqueTmpPath path seed) (some vaultBytes)).set
      (uniqueTmpPath path seed) none).set path (some vaultBytes)
        = fs.set path (some vaultBytes) := by
    funext p
    by_cases hp : p = path
    · simp [Fs.set, hp]
    · by_cases ht : p = uniqueTmpPath path seed
      · simp [Fs.set, ht, hne, hnone]
      · simp [Fs.set, hp, ht]
  have hren : renameFile io.rename (uniqueTmpPath path seed) path
      (fs.set (uniqueTmpPath path seed) (some vaultBytes))
        = (.ok (), fs.set path (some vaultBytes)) := by
    simp only [renameFile, hrename, Fs.set_self, hfs]
  have htmp' : (fs.set path (some vaultBytes)) (uniqueTmpPath path seed) = none := by
    rw [Fs.set_of_ne _ _ hne, hnone]
  have hremove : removeFile io.tmpRemove (uniqueTmpPath path seed) (fs.set path (some vaultBytes))
      = (.error .io, fs.set path (some vaultBytes)) := by
    rw [removeFile, if_pos (.inr (.inr (by rw [htmp']; rfl)))]
  simp only [persistVaultMutationV2, FsM.onError, FsM.bind_apply, htmp, hren, fsyncParent,
    syncCall]
  cases ho : io.parentOpen with
  | true => simp [IoFaults.afterRename, ho, hremove]
  | false =>
      cases hp : io.parentSync with
      | true => simp [IoFaults.afterRename, ho, hp, hremove]
      | false => simp [IoFaults.afterRename, ho, hp]

/-- A persist that does not reach its rename fails, and has touched no
file but its own temporary one. -/
theorem persistVaultMutationV2_of_not_reachesRename {io : IoFaults} {fs : Fs} {path : Path}
    {vaultBytes : Bytes} {seed : U8Array 16}
    (h : ¬ ReachesRename io fs (uniqueTmpPath path seed)) :
    ∃ fs', persistVaultMutationV2 io path vaultBytes seed fs = (.error .io, fs')
      ∧ ∀ p, (uniqueTmpPath path seed).Apart p → fs' p = fs p := by
  rcases writeTmp_cases io fs (uniqueTmpPath path seed) vaultBytes with
    ⟨hcreate, hfile, hnone, hwrite, hsync, htmp⟩ | ⟨-, fs', htmp, hkeep⟩
  · have hrename : io.rename = true := by
      by_contra hr
      exact h ⟨hcreate, hfile, hnone, hwrite, hsync, by simpa using hr⟩
    have hrun : persistVaultMutationV2 io path vaultBytes seed fs
        = (.error .io, (removeFile io.tmpRemove (uniqueTmpPath path seed)
            (fs.set (uniqueTmpPath path seed) (some vaultBytes))).2) := by
      simp only [persistVaultMutationV2, FsM.onError, FsM.bind_apply, htmp, renameFile, hrename]
    refine ⟨_, hrun, fun p hp => ?_⟩
    rw [removeFile_of_apart _ hp, Fs.set_of_ne _ _ (hp hfile)]
  · have hrun : persistVaultMutationV2 io path vaultBytes seed fs
        = (.error .io, (removeFile io.tmpRemove (uniqueTmpPath path seed) fs').2) := by
      simp only [persistVaultMutationV2, FsM.onError, FsM.bind_apply, htmp]
    refine ⟨_, hrun, fun p hp => ?_⟩
    rw [removeFile_of_apart _ hp, hkeep p hp]

end MeissnerSeal
