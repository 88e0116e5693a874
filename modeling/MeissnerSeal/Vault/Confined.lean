/-
Which files a call touches, whatever fails in it.

# Its own

A call on the vault at a path touches that file and the temporary names made
of the path, and nothing outside (`Outside`), not even when its cleanup fails
too. A call that only reads touches no file (`FsM.Reads`).
-/
import MeissnerSeal.Item.Calls
import MeissnerSeal.Export.Bundle

namespace MeissnerSeal

open ByteCodec ExceptRules

-- ================================================================ programs

namespace FsM

variable {α β : Type} {p : Path}

/-- The program changes no file at all. -/
def Reads (m : FsM α) : Prop := ∀ fs, (m fs).2 = fs

/-- What touches no file leaves each one as it was. -/
theorem Reads.leaves {m : FsM α} (h : m.Reads) (p : Path) : m.Leaves p := by
  intro fs
  rw [h fs]

theorem reads_lift (x : Res α) : (lift x).Reads := fun _ => rfl

theorem reads_pure (a : α) : Reads (pure a : FsM α) := fun _ => rfl

/-- Reading composes: the second program starts from the same files. -/
theorem Reads.bind {m : FsM α} {f : α → FsM β} (hm : m.Reads) (hf : ∀ a, (f a).Reads) :
    (m >>= f).Reads := by
  intro fs
  rw [bind_apply]
  have hfirst := hm fs
  cases hrun : m fs with
  | mk r fs₁ =>
      rw [hrun] at hfirst
      cases r with
      | ok a => exact (hf a fs₁).trans hfirst
      | error e => exact hfirst

/-- A cleanup is run from the files its program left, so both have to leave
the file alone. -/
theorem Leaves.onError {m : FsM α} {cleanup : FsM Unit} (hm : m.Leaves p)
    (hcleanup : cleanup.Leaves p) : (m.onError cleanup).Leaves p := by
  intro fs
  unfold FsM.onError
  have hfirst := hm fs
  cases hrun : m fs with
  | mk r fs₁ =>
      rw [hrun] at hfirst
      cases r with
      | ok a => exact hfirst
      | error e => exact (hcleanup fs₁).trans hfirst

end FsM

open FsM

variable {p path : Path}

theorem reads_readFile (fault : Bool) (path : Path) : (readFile fault path).Reads := by
  intro fs
  unfold readFile
  split <;> rfl

/-- A created file is a new one. Where the path is a directory nothing is
created, so the path only has to be apart from the file. -/
theorem leaves_createNewFile (fault : Bool) (h : path.Apart p) :
    (createNewFile fault path).Leaves p := by
  intro fs
  rcases createNewFile_cases fault path fs with ⟨-, hfile, -, hrun⟩ | ⟨-, hrun⟩
  · rw [hrun]
    exact Fs.set_of_ne fs _ (h hfile)
  · rw [hrun]

/-- A write may stop anywhere; it is to its own file all the same. -/
theorem leaves_writeAll (fault : Option Nat) (bytes : Bytes) (h : p ≠ path) :
    (writeAll fault path bytes).Leaves p := by
  intro fs
  unfold writeAll
  split
  · exact Fs.set_of_ne fs _ h
  · exact Fs.set_of_ne fs _ h

/-- A rename takes away the one name and replaces the other. -/
theorem leaves_renameFile (fault : Bool) {source target : Path} (hsource : p ≠ source)
    (htarget : p ≠ target) : (renameFile fault source target).Leaves p := by
  intro fs
  unfold renameFile
  split
  · exact (Fs.set_of_ne _ _ htarget).trans (Fs.set_of_ne fs _ hsource)
  · rfl

theorem leaves_removeFile (fault : Bool) (h : path.Apart p) : (removeFile fault path).Leaves p :=
  fun fs => removeFile_of_apart fs h

theorem leaves_fsyncParent (io : IoFaults) (p : Path) : (fsyncParent io).Leaves p :=
  (leaves_syncCall io.parentOpen p).bind fun _ => leaves_syncCall io.parentSync p

-- ================================================================== rewrites

/-- Neither the vault's file nor a temporary name that `unique_tmp_path` makes
of its path. -/
structure Outside (path p : Path) : Prop where
  ne : p ≠ path
  apart : ∀ seed, (uniqueTmpPath path seed).Apart p

/-- A name the program makes up for a temporary file. -/
def TmpName (p : Path) : Prop := p.NamesFile ∧ ∃ path seed, p = uniqueTmpPath path seed

/-- A file that bears no temporary name is outside of every vault but
the one it is. -/
theorem outside_of_not_tmpName (hne : p ≠ path) (h : ¬ TmpName p) : Outside path p where
  ne := hne
  apart seed hfile := by
    rintro rfl
    exact h ⟨hfile, path, seed, rfl⟩

/-- Temporary names have an ending of their own. -/
theorem TmpName.suffix (h : TmpName p) : ".msv.tmp".toList <:+ p.fileName.toList := by
  obtain ⟨hfile, path, seed, rfl⟩ := h
  refine ⟨fileStem path.fileName.toList ++ '.' :: (hexBytes seed.toList).toList, ?_⟩
  rw [(uniqueTmpPath_namesFile_iff.mp hfile).fileName, String.toList_append, List.append_assoc,
    List.cons_append]

/-- A program that goes on where a temporary file has been written. -/
theorem leaves_writeTmp_bind {α : Type} (io : IoFaults) {tmpPath : Path} (bytes : Bytes)
    {f : Unit → FsM α} (h : tmpPath.Apart p) (hf : p ≠ tmpPath → ∀ u, (f u).Leaves p) :
    (writeTmp io tmpPath bytes >>= f).Leaves p := by
  intro fs
  rw [bind_apply]
  rcases writeTmp_cases io fs tmpPath bytes with ⟨-, hfile, -, -, -, hrun⟩ | ⟨-, fs', hrun, hkeep⟩
  · rw [hrun]
    exact (hf (h hfile) () _).trans (Fs.set_of_ne fs _ (h hfile))
  · rw [hrun]
    exact hkeep p h

/-- A rewrite touches the vault and its own temporary file. -/
theorem leaves_persistVaultMutationV2 (io : IoFaults) (bytes : Bytes) (seed : U8Array 16)
    (h : Outside path p) : (persistVaultMutationV2 io path bytes seed).Leaves p := by
  unfold persistVaultMutationV2
  apply Leaves.onError
  · apply leaves_writeTmp_bind io bytes (h.apart seed)
    intro hne _
    apply (leaves_renameFile io.rename hne h.ne).bind
    exact fun _ => leaves_fsyncParent io p
  · exact leaves_removeFile io.tmpRemove (h.apart seed)

/-- A mutation reads the vault and persists what its plan says, if it says
anything. A plan that fails has written nothing. -/
theorem leaves_mutate {α : Type} (io : IoFaults) (plan : Bytes → Res (Plan α))
    (h : Outside path p) : (mutate io path plan).Leaves p := by
  unfold mutate
  apply ((reads_readFile io.read path).leaves p).bind
  intro bytes
  apply ((reads_lift (plan bytes)).leaves p).bind
  intro planned
  cases planned.write with
  | none => exact leaves_pure _ p
  | some written =>
      apply (leaves_persistVaultMutationV2 io written.1 written.2 h).bind
      exact fun _ => leaves_pure _ p

/-- A vault is made in its place, by way of a temporary file. -/
theorem leaves_persistVault (io : IoFaults) (recordId : U8Array 16) (vaultBytes : Res Bytes)
    (h : Outside path p) : (persistVault io path recordId vaultBytes).Leaves p := by
  have hinner : ((do
      let vaultBytes ← FsM.lift vaultBytes
      writeTmp io (uniqueTmpPath path recordId) vaultBytes
      renameFile io.rename (uniqueTmpPath path recordId) path
      fsyncParent io : FsM Unit).onError fun fs =>
        removeFile io.targetRemove path
          (removeFile io.tmpRemove (uniqueTmpPath path recordId) fs).2).Leaves p := by
    apply Leaves.onError
    · apply ((reads_lift vaultBytes).leaves p).bind
      intro bytes
      apply leaves_writeTmp_bind io bytes (h.apart recordId)
      intro hne _
      apply (leaves_renameFile io.rename hne h.ne).bind
      exact fun _ => leaves_fsyncParent io p
    · intro fs
      rw [removeFile_of_apart _ (.of_ne h.ne), removeFile_of_apart _ (h.apart recordId)]
  intro fs
  unfold persistVault
  have hclaim := leaves_createNewFile io.claim (.of_ne h.ne) fs
  cases hrun : createNewFile io.claim path fs with
  | mk r fs₁ =>
      rw [hrun] at hclaim
      cases r with
      | ok _ =>
          dsimp only
          split
          · exact hclaim
          · exact (hinner fs₁).trans hclaim
      | error e => exact (removeFile_of_apart fs₁ (h.apart recordId)).trans hclaim

-- ===================================================================== calls

variable (platform : Platform)

/-- Before it persists, `create` only computes: a draw or a derivation that
fails leaves every file. -/
theorem leaves_create (io : IoFaults) (draws : CreateDraws) (password : Bytes)
    (h : Outside path p) : (create platform io draws path password).Leaves p := by
  unfold create
  apply ((reads_lift _).leaves p).bind
  intro _
  apply ((reads_lift _).leaves p).bind
  intro vaultId
  apply ((reads_lift _).leaves p).bind
  intro recordId
  apply ((reads_lift _).leaves p).bind
  intro revisionId
  apply ((reads_lift _).leaves p).bind
  intro headerNonce
  apply ((reads_lift _).leaves p).bind
  intro aeadProfile
  apply ((reads_lift _).leaves p).bind
  intro sealed
  exact leaves_persistVault io recordId _ h

/-- No attempt at a password leaves a mark. -/
theorem reads_unlock (io : IoFaults) (path : Path) (password : Bytes) :
    (unlock platform io path password).Reads := by
  unfold unlock
  apply (reads_lift _).bind
  intro _
  apply (reads_readFile io.read path).bind
  exact fun bytes => reads_lift _

variable (session : UnlockedVault)

theorem reads_loadVault (io : IoFaults) : (loadVault platform io session).Reads := by
  unfold loadVault
  apply (reads_readFile io.read session.path).bind
  exact fun bytes => reads_lift _

theorem reads_list (io : IoFaults) : (list platform io session).Reads := by
  unfold list
  apply (reads_loadVault platform session io).bind
  exact fun loaded => reads_lift _

theorem reads_withItem {α : Type} (io : IoFaults) (id : ItemId) (f : DecodedItem → Res α) :
    (withItem platform io session id f).Reads := by
  unfold withItem
  apply (reads_loadVault platform session io).bind
  intro loaded
  apply (reads_lift _).bind
  exact fun view => reads_lift _

/-- The loop of an export reads one item after the other. -/
theorem reads_exportLoop (io : Nat → IoFaults) (summaries : List ItemSummary) :
    ∀ i, (exportLoop platform io session i summaries).Reads := by
  induction summaries with
  | nil => exact fun i => reads_pure _
  | cons summary summaries ih =>
      intro i
      rw [exportLoop]
      apply (reads_withItem platform session (io i) summary.id exportItem).bind
      intro written
      apply (ih (i + 1)).bind
      exact fun rest => reads_pure _

/-- An export returns its bundle; the caller is the one who writes it. -/
theorem reads_exportBundle (io : Nat → IoFaults) (nonceDraw : Option Nonce) (passphrase : Bytes) :
    (exportBundle platform io nonceDraw session passphrase).Reads := by
  unfold exportBundle
  apply (reads_lift _).bind
  intro _
  apply (reads_lift _).bind
  intro kdfParams
  apply Reads.bind
  · unfold serializeLiveItemSet
    apply (reads_list platform session (io 0)).bind
    intro summaries
    apply (reads_lift _).bind
    intro count
    apply (reads_exportLoop platform session io summaries 1).bind
    exact fun items => reads_pure _
  · intro plaintext
    apply (reads_lift _).bind
    intro key
    apply (reads_lift _).bind
    exact fun sealed => reads_lift _

theorem leaves_add (env : Env) (item : PlainItem) (h : Outside session.path p) :
    (add platform env session item).Leaves p := leaves_mutate env.io _ h

theorem leaves_delete (env : Env) (id : ItemId) (h : Outside session.path p) :
    (delete platform env session id).Leaves p := leaves_mutate env.io _ h

/-- By induction on the ids: each delete is a mutation of the same vault,
and the first one that fails ends the rollback. -/
theorem leaves_rollback (env : ImportEnv) (h : Outside session.path p) (ids : List ItemId) :
    ∀ i, (rollback platform env session i ids).Leaves p := by
  induction ids with
  | nil => exact fun i => leaves_pure true p
  | cons id ids ih =>
      intro i fs
      have hfirst := leaves_delete platform session (env.deletes i) id h fs
      simp only [rollback]
      split
      · next fs₁ hrun =>
          rw [hrun] at hfirst
          exact (ih (i + 1) fs₁).trans hfirst
      all_goals
        next hrun =>
          rw [hrun] at hfirst
          exact hfirst

/-- By induction on the items, the ids added so far carried along: an add
that fails hands these to the rollback. -/
theorem leaves_importLoop (env : ImportEnv) (h : Outside session.path p)
    (items : List PlainItem) : ∀ ids, (importLoop platform env session ids items).Leaves p := by
  induction items with
  | nil => exact fun ids => leaves_pure ids p
  | cons item items ih =>
      intro ids fs
      have hfirst := leaves_add platform session (env.adds ids.length) item h fs
      simp only [importLoop]
      split
      · next id fs₁ hrun =>
          rw [hrun] at hfirst
          exact (ih (ids ++ [id]) fs₁).trans hfirst
      · next fs₁ hrun =>
          rw [hrun] at hfirst
          exact hfirst
      · next e fs₁ _ hrun =>
          rw [hrun] at hfirst
          have hrolled : (rollback platform env session 0 ids fs₁).2 p = fs p :=
            (leaves_rollback platform session env h ids 0 fs₁).trans hfirst
          split
          all_goals
            next hroll =>
              rw [hroll] at hrolled
              exact hrolled

theorem leaves_importBundle (env : ImportEnv) (bundle passphrase : Bytes)
    (h : Outside session.path p) :
    (importBundle platform env session bundle passphrase).Leaves p := by
  unfold importBundle
  apply ((reads_lift _).leaves p).bind
  exact fun items => leaves_importLoop platform session env h items []

end MeissnerSeal
