/-
What files a desk has left when runs of the program may have failed.

# What stays behind

A failed run may leave its temporary file, and a failed `init` or `export`
what it had of the file it was making. That is no vault and no bundle
(`Junk`), and no later run takes it for one: the files are the desk's but for
such remains (`Desk.Survives`), and what opens is what the desk opens.

# What may come of a request

A run whose system calls fail, or whose generator does, ends in one of four
ways (`Desk.MayAnswer`): the desk's answer; a failure that has done nothing; a
failure that has done what was asked all the same; or, of an import, a failure
with a part of the items behind the old ones.
-/
import MeissnerSeal.Cli.Output
import MeissnerSeal.Export.Interrupted
import MeissnerSeal.Vault.Confined

namespace MeissnerSeal

open ByteCodec ExceptRules

variable {platform : Platform} {m : ItemMap}

-- ==================================================================== junk

/-- Neither a vault nor a bundle. -/
structure Junk (bytes : Bytes) : Prop where
  not_vault : ∀ header, parseHeader bytes ≠ .ok header
  not_bundle : ∀ parsed, parseBundle bytes ≠ .ok parsed

theorem junk_nil : Junk [] where
  not_vault _ h := absurd (magic_at_of_parseHeader h).le (by decide)
  not_bundle _ h := absurd (magic_at_of_parseBundle h).le (by decide)

/-- What is written of a bundle before its end. -/
theorem junk_take {bundle : Bytes} {parsed : ParsedBundle} {n : Nat}
    (h : parseBundle bundle = .ok parsed) (hn : n < bundle.length) : Junk (bundle.take n) where
  not_vault _ hvault := by
    have htake : SegAt bundle 0 (bundle.take n) :=
      ⟨[], bundle.drop n, (List.take_append_drop n bundle).symm, rfl⟩
    have hmagic : SegAt bundle 0 magic := htake.trans (magic_at_of_parseHeader hvault)
    exact absurd (hmagic.unique (magic_at_of_parseBundle h) (by decide)) (by decide)
  not_bundle _ hbundle := absurd (parseBundle_take h hbundle) (not_le.mpr hn)

-- =================================================================== create

/-- A step of a program that touches no file. -/
theorem FsM.lift_bind_cases {α β : Type} {x : Res α} {f : α → FsM β} {fs : Fs}
    {P : Res β × Fs → Prop} (herror : ∀ e, P (.error e, fs)) (hok : ∀ a, x = .ok a → P (f a fs)) :
    P ((FsM.lift x >>= f) fs) := by
  cases x with
  | error e => exact herror e
  | ok a => exact hok a rfl

/-- Behind its claim, `persist_vault` leaves the empty file it claimed, if it
fails, or the vault. -/
theorem writeClaimed_cases (io : IoFaults) {path tmpPath : Path} (vaultBytes : Res Bytes) {fs : Fs}
    (htmp : tmpPath.Apart path) (hclaimed : fs path = some []) :
    ∃ r fs', (do
        let vaultBytes ← FsM.lift vaultBytes
        writeTmp io tmpPath vaultBytes
        renameFile io.rename tmpPath path
        fsyncParent io : FsM Unit) fs = (r, fs')
      ∧ ((∃ e, r = .error e) ∧ fs' path = some []
        ∨ ∃ bytes, vaultBytes = .ok bytes ∧ fs' path = some bytes) := by
  cases vaultBytes with
  | error e => exact ⟨.error e, fs, rfl, .inl ⟨⟨e, rfl⟩, hclaimed⟩⟩
  | ok bytes =>
      rcases writeTmp_cases io fs tmpPath bytes with
        ⟨-, hfile, -, -, -, hwrite⟩ | ⟨-, fs₁, hwrite, hkeep⟩
      case inr =>
        refine ⟨.error .io, fs₁, ?_, .inl ⟨⟨.io, rfl⟩, (hkeep path htmp).trans hclaimed⟩⟩
        simp only [FsM.bind_apply, FsM.lift, hwrite]
      have hkeep : (fs.set tmpPath (some bytes)) path = some [] :=
        (Fs.set_of_ne _ _ (htmp hfile)).trans hclaimed
      cases hrename : io.rename with
      | true =>
          refine ⟨.error .io, _, ?_, .inl ⟨⟨.io, rfl⟩, hkeep⟩⟩
          simp only [FsM.bind_apply, FsM.lift, hwrite, renameFile]
      | false =>
          have hrenamed : renameFile false tmpPath path (fs.set tmpPath (some bytes))
              = (.ok (), ((fs.set tmpPath (some bytes)).set tmpPath none).set path
                (some bytes)) := by
            simp only [renameFile, Fs.set_self]
          refine ⟨if io.afterRename then .error .io else .ok (),
            ((fs.set tmpPath (some bytes)).set tmpPath none).set path (some bytes), ?_,
            .inr ⟨bytes, rfl, Fs.set_self ..⟩⟩
          simp only [FsM.bind_apply, FsM.lift, hwrite, hrenamed, fsyncParent_eq]

/-- What a `persist_vault` leaves at its path: what was there, if it
fails; or, where nothing was, an empty file, if it fails, or the vault,
however it ends. -/
theorem persistVault_cases (io : IoFaults) (path : Path) (recordId : U8Array 16)
    (vaultBytes : Res Bytes) (fs : Fs) :
    ∃ r fs', persistVault io path recordId vaultBytes fs = (r, fs')
      ∧ ((∃ e, r = .error e) ∧ fs' path = fs path
        ∨ fs path = none ∧ ((∃ e, r = .error e) ∧ fs' path = some []
          ∨ ∃ bytes, vaultBytes = .ok bytes ∧ fs' path = some bytes)) := by
  have htmp := uniqueTmpPath_apart path recordId
  rcases createNewFile_cases io.claim path fs with ⟨-, -, hnone, hclaim⟩ | ⟨-, hclaim⟩
  case inr =>
    refine ⟨.error .io, (removeFile io.tmpRemove (uniqueTmpPath path recordId) fs).2, ?_,
      .inl ⟨⟨.io, rfl⟩, removeFile_of_apart fs htmp⟩⟩
    simp only [persistVault, hclaim]
  have hclaimed : (fs.set path (some [])) path = some [] := Fs.set_self ..
  by_cases hpanic : vaultBytes = .error .panic
  · refine ⟨.error .panic, _, ?_, .inr ⟨hnone, .inl ⟨⟨.panic, rfl⟩, hclaimed⟩⟩⟩
    simp only [persistVault, hclaim, hpanic]
  obtain ⟨r, fs₁, hinner, hcases⟩ := writeClaimed_cases io vaultBytes htmp hclaimed
  rw [persistVault_of_claim hclaim hpanic]
  simp only [FsM.onError, hinner]
  cases r with
  | ok _ =>
      refine ⟨_, _, rfl, .inr ⟨hnone, .inr ?_⟩⟩
      obtain ⟨⟨e, he⟩, -⟩ | hvault := hcases
      · cases he
      · exact hvault
  | error e =>
      refine ⟨_, _, rfl, ?_⟩
      have hkeep : (removeFile io.tmpRemove (uniqueTmpPath path recordId) fs₁).2 path = fs₁ path :=
        removeFile_of_apart fs₁ htmp
      generalize (removeFile io.tmpRemove (uniqueTmpPath path recordId) fs₁).2 = fs₂ at hkeep ⊢
      unfold removeFile
      split
      case isTrue =>
        refine .inr ⟨hnone, ?_⟩
        show _ ∧ fs₂ path = _ ∨ ∃ bytes, _ ∧ fs₂ path = _
        rw [hkeep]
        obtain ⟨-, hempty⟩ | hvault := hcases
        · exact .inl ⟨⟨e, rfl⟩, hempty⟩
        · exact .inr hvault
      case isFalse => exact .inl ⟨⟨e, rfl⟩, (Fs.set_self ..).trans hnone.symm⟩

/-- What a `create` may leave at its path: what was there, if it fails; or,
where nothing was, an empty file, if it fails, or a vault under the password
that holds nothing, however it ends. -/
def CreateLeaves (platform : Platform) (path : Path) (password : Bytes) (fs : Fs)
    (result : Res Unit × Fs) : Prop :=
  (∃ e, result.1 = .error e) ∧ result.2 path = fs path
    ∨ fs path = none ∧ ((∃ e, result.1 = .error e) ∧ result.2 path = some []
      ∨ ∃ (v : VaultIdentity platform) (bytes : Bytes), v.password = password
        ∧ Stored v TombstoneMap.empty bytes ∧ result.2 path = some bytes)

/-- Whatever fails in it. -/
theorem createLeaves_create (io : IoFaults) (draws : CreateDraws) (path : Path) (password : Bytes)
    (fs : Fs) : CreateLeaves platform path password fs
    (create platform io draws path password fs) := by
  have hrefused : ∀ e : CoreError, CreateLeaves platform path password fs (.error e, fs) :=
    fun e => .inl ⟨⟨e, rfl⟩, rfl⟩
  unfold create
  refine FsM.lift_bind_cases hrefused fun _ hpassword => ?_
  refine FsM.lift_bind_cases hrefused fun vaultId _ => ?_
  refine FsM.lift_bind_cases hrefused fun recordId _ => ?_
  refine FsM.lift_bind_cases hrefused fun revisionId _ => ?_
  refine FsM.lift_bind_cases hrefused fun headerNonce _ => ?_
  refine FsM.lift_bind_cases hrefused fun aeadProfile _ => ?_
  refine FsM.lift_bind_cases hrefused fun ⟨keys, wrkCiphertext, wrkNonce⟩ hkeys => ?_
  obtain ⟨r, fs', hrun, hcases⟩ := persistVault_cases io path recordId
    (createdVaultBytes platform draws vaultId headerNonce canonicalArgon2idV1 recordId revisionId
      wrkCiphertext wrkNonce (buildAad vaultId formatVersion schemaMeissnerRecordsV2 1 1 0 recordId
        revisionId recordKindWrappedRootKey) keys.metadataKey) fs
  simp only [hrun]
  obtain hsame | ⟨hnone, hempty | ⟨bytes, hbytes, hfs'⟩⟩ := hcases
  · exact .inl hsame
  · exact .inr ⟨hnone, .inl hempty⟩
  · obtain ⟨v, hv, -, -, -, -, -, hstored⟩ :=
      stored_of_createdVaultBytes (rejectIf_eq_ok.mp hpassword) hkeys hbytes
    exact .inr ⟨hnone, .inr ⟨v, bytes, hv, hstored, hfs'⟩⟩

-- ==================================================================== reads

section Reads

variable {v : VaultIdentity platform} {bytes : Bytes} {session : UnlockedVault} {fs : Fs}
  {io : IoFaults}

/-- A `list` that succeeds has read the live items, all within the limits. -/
theorem Stored.of_list {summaries : List ItemSummary} (h : Stored v m bytes)
    (hfs : fs session.path = some bytes) (hkeys : session.keys = v.keys)
    (hrun : (list platform io session fs).1 = .ok summaries) :
    AllWithinLimits m ∧ summaries = liveSummaries m := by
  cases hread : io.read with
  | false => exact (h.list_eq_ok hfs hkeys hread).mp hrun
  | true =>
      obtain ⟨records, loaded, -, -, hload⟩ := h.loadVault_eq hfs hkeys io
      simp only [list, FsM.bind_apply, hload, hread, if_true, reduceCtorEq] at hrun

/-- A view that succeeds has read a live item within the limits. -/
theorem Stored.of_withItem {id : ItemId} {view : DecodedItem} (h : Stored v m bytes)
    (hfs : fs session.path = some bytes) (hkeys : session.keys = v.keys)
    (hrun : (withItem platform io session id Except.ok fs).1 = .ok view) :
    io.read = false
      ∧ ∃ item, m.status id = some (some item) ∧ item.WithinLimits ∧ view = item.view := by
  obtain ⟨records, loaded, hloaded, hentries, hload⟩ := h.loadVault_eq hfs hkeys io
  cases hread : io.read with
  | true => simp only [withItem, FsM.bind_apply, hload, hread, if_true, reduceCtorEq] at hrun
  | false =>
      simp only [withItem, FsM.bind_apply, hload, hread, Bool.false_eq_true, if_false,
        FsM.lift] at hrun
      cases hview : viewItem platform session loaded id with
      | error e => simp only [hview, reduceCtorEq] at hrun
      | ok view' =>
          simp only [hview, Except.ok.injEq] at hrun
          subst hrun
          exact ⟨rfl, (hloaded.viewItem_eq_ok hkeys hentries).mp hview⟩

end Reads

namespace Cli

-- ==================================================================== names

/-- The files a request names. -/
def Request.paths : Request → List Path
  | .init path _ _ _ => [path]
  | .add path _ _ _ => [path]
  | .list path _ => [path]
  | .get path _ _ => [path]
  | .export path _ _ output _ => [path, output]
  | .import path _ _ input _ => [path, input]
  | .lock => []

/-- The ids a request draws. -/
def Request.drawn : Request → List ItemId
  | .init _ _ _ _ => []
  | .add _ _ _ id => id.toList
  | .list _ _ => []
  | .get _ _ _ => []
  | .export _ _ _ _ _ => []
  | .import _ _ _ _ ids => (List.range maxExportItemCount).filterMap ids
  | .lock => []

/-- The password or passphrase under which a request seals a new file. -/
def Request.secrets : Request → List Bytes
  | .init _ _ password _ => [password]
  | .add _ _ _ _ => []
  | .list _ _ => []
  | .get _ _ _ => []
  | .export _ _ passphrase _ _ => [passphrase]
  | .import _ _ _ _ _ => []
  | .lock => []

/-- The password or passphrase of a file. -/
def Artifact.secret : Artifact → Bytes
  | .vault password _ => password
  | .bundle passphrase _ => passphrase

-- =================================================================== answers

/-- What may come of a request whose run meets failures. -/
inductive Desk.MayAnswer (desk : Desk) : Request → Outcome → Desk → Prop
  /-- What the desk says. -/
  | answered (request : Request) :
      MayAnswer desk request (desk.exec request).1 (desk.exec request).2
  /-- Nothing. -/
  | refused (request : Request) : MayAnswer desk request .failed desk
  /-- What the desk says, reported as a failure. -/
  | unconfirmed (request : Request) : MayAnswer desk request .failed (desk.exec request).2
  /-- An import that has stopped under way. -/
  | interrupted {path input : Path} {password passphrase : Bytes} {ids : Nat → Option ItemId}
      {m m' : ItemMap} {items : List PlainItem} (k : Nat)
      (hopened : desk.opened path password = some m)
      (hunsealed : desk.unsealed input passphrase = some items)
      (hretracts : m.Retracts
        ((((List.range items.length).filterMap ids).zip items).take k) m') :
      MayAnswer desk (.import path password passphrase input ids) .failed
        (desk.set path (.vault password m'))

/-- What a file may hold that is an artifact of the desk, or is none. -/
def FileLeft (platform : Platform) (contents : Option Bytes) : Option Artifact → Prop
  | some artifact => ∃ bytes, contents = some bytes ∧ artifact.In platform bytes
  | none => ∀ bytes, contents = some bytes → Junk bytes

/-- The files are those of the desk, but for temporary files and for what
failed runs have left; they are sealed under some of these passwords and
passphrases, and their items have some of these ids. -/
structure Desk.Survives (platform : Platform) (desk : Desk) (secrets : List Bytes)
    (drawn : List ItemId) (fs : Fs) : Prop where
  files : ∀ path, ¬ TmpName path → FileLeft platform (fs path) (desk path)
  named : ∀ path artifact, desk path = some artifact → ¬ TmpName path
  sealed : ∀ path artifact, desk path = some artifact → artifact.secret ∈ secrets
  keys : ∀ path password m, desk path = some (.vault password m) → ∀ id ∈ m.keys, id ∈ drawn

variable {desk desk' : Desk} {fs fs' : Fs} {path p : Path} {secrets : List Bytes}
  {drawn drawn' : List ItemId}

/-- A file of the desk is where the desk has it. -/
theorem Desk.Survives.present (h : desk.Survives platform secrets drawn fs) {artifact : Artifact}
    (hdesk : desk path = some artifact) : ∃ bytes, fs path = some bytes
      ∧ artifact.In platform bytes := by
  have hfile := h.files path (h.named path artifact hdesk)
  rw [hdesk] at hfile
  exact hfile

/-- One file is as the desk has it, and every other is left alone. -/
theorem Desk.Survives.keep (h : desk.Survives platform secrets drawn fs)
    (hleaves : ∀ p, Outside path p → fs' p = fs p)
    (hfile : FileLeft platform (fs' path) (desk path)) (hsub : drawn ⊆ drawn') :
    desk.Survives platform secrets drawn' fs' where
  files p hp := by
    by_cases heq : p = path
    · rw [heq]
      exact hfile
    · rw [hleaves p (outside_of_not_tmpName heq hp)]
      exact h.files p hp
  named := h.named
  sealed := h.sealed
  keys path password m hdesk id hid := hsub (h.keys path password m hdesk id hid)

/-- No file is any different. -/
theorem Desk.Survives.unchanged (h : desk.Survives platform secrets drawn fs)
    (hsub : drawn ⊆ drawn') :
    desk.Survives platform secrets drawn' fs where
  files := h.files
  named := h.named
  sealed := h.sealed
  keys path password m hdesk id hid := hsub (h.keys path password m hdesk id hid)

/-- One file more, or another in its place, and every other is left alone. -/
theorem Desk.Survives.update (h : desk.Survives platform secrets drawn fs) (hname : ¬ TmpName path)
    (hleaves : ∀ p, Outside path p → fs' p = fs p) {artifact : Artifact} {bytes : Bytes}
    (hfile : fs' path = some bytes) (hin : artifact.In platform bytes)
    (hsecret : artifact.secret ∈ secrets)
    (hkeys : ∀ password m, artifact = .vault password m → ∀ id ∈ m.keys, id ∈ drawn')
    (hsub : drawn ⊆ drawn') : (desk.set path artifact).Survives platform secrets drawn' fs' where
  files p hp := by
    unfold Desk.set
    by_cases heq : p = path
    · rw [if_pos heq, heq]
      exact ⟨bytes, hfile, hin⟩
    · rw [if_neg heq, hleaves p (outside_of_not_tmpName heq hp)]
      exact h.files p hp
  named p artifact' hp := by
    unfold Desk.set at hp
    by_cases heq : p = path
    · rw [heq]
      exact hname
    · rw [if_neg heq] at hp
      exact h.named p artifact' hp
  sealed p artifact' hp := by
    unfold Desk.set at hp
    by_cases heq : p = path
    · rw [if_pos heq, Option.some.injEq] at hp
      exact hp ▸ hsecret
    · rw [if_neg heq] at hp
      exact h.sealed p artifact' hp
  keys p password m hp id hid := by
    unfold Desk.set at hp
    by_cases heq : p = path
    · rw [if_pos heq, Option.some.injEq] at hp
      exact hkeys password m hp id hid
    · rw [if_neg heq] at hp
      exact hsub (h.keys p password m hp id hid)

-- =================================================================== opening

/-- The password opens no vault that another of these seals at the path. -/
def VaultApart (platform : Platform) (secrets : List Bytes) (fs : Fs) (path : Path)
    (password : Bytes) : Prop :=
  ∀ (v : VaultIdentity platform) (m : ItemMap) (bytes : Bytes), v.password ∈ secrets →
    fs path = some bytes → Stored v m bytes → password ≠ v.password →
    Authentic platform.cipher (UnlockAsks platform password bytes) v.Seals
      ∧ v.PasswordsApart password

/-- The passphrase opens no bundle that another of these seals at the path. -/
def BundleApart (platform : Platform) (secrets : List Bytes) (fs : Fs) (input : Path)
    (passphrase : Bytes) : Prop :=
  ∀ (own : Bytes) (items : List PlainItem) (bytes : Bytes), own ∈ secrets →
    fs input = some bytes → BundleFor platform own items bytes → passphrase ≠ own →
    Authentic platform.cipher (BundleAsks platform passphrase bytes) (BundleAsks platform own bytes)
      ∧ PassphrasesApart platform own passphrase bytes

/-- What `unlock` opens, the desk opens. -/
theorem Desk.Survives.of_unlock {io : IoFaults} {password : Bytes} {session : UnlockedVault}
    (h : desk.Survives platform secrets drawn fs) (hname : ¬ TmpName path)
    (hapart : VaultApart platform secrets fs path password)
    (hunlock : (unlock platform io path password fs).1 = .ok session) :
    ∃ (m : ItemMap) (v : VaultIdentity platform) (bytes : Bytes),
      desk.opened path password = some m ∧ v.password = password ∧ session = v.session path
      ∧ fs path = some bytes ∧ Stored v m bytes := by
  obtain ⟨-, -, bytes, hfs, hopens⟩ := unlock_eq_ok.mp hunlock
  have hfile := h.files path hname
  obtain ⟨hle, head, entries, hhead, -⟩ := unlockBytes_eq_ok.mp hopens
  cases hdesk : desk path with
  | none =>
      rw [hdesk] at hfile
      exact absurd hhead.header_parsed ((hfile bytes hfs).not_vault _)
  | some artifact =>
      rw [hdesk, hfs] at hfile
      obtain ⟨bytes', hbytes, hin⟩ := hfile
      obtain rfl := Option.some.inj hbytes
      cases artifact with
      | bundle own items =>
          obtain ⟨parsed, hparsed⟩ := hin.parsed
          exact (not_vault_and_bundle hhead.header_parsed hparsed).elim
      | vault own m =>
          obtain ⟨v, rfl, hstored⟩ := hin
          by_cases hsame : password = v.password
          · subst hsame
            rw [hstored.unlockBytes_eq, if_neg (not_lt.mpr hle), Except.ok.injEq] at hopens
            rw [hstored.length_eq] at hle
            exact ⟨m, v, bytes, Desk.opened_eq_some.mpr ⟨hdesk, hle⟩, rfl,
              hopens.symm, hfs, hstored⟩
          · obtain ⟨hauth, hpasswords⟩ := hapart v m bytes (h.sealed path _ hdesk) hfs hstored hsame
            obtain ⟨records, himage, -⟩ := hstored
            obtain ⟨e, he⟩ : ∃ e, unlockBytes platform path password bytes = .error e :=
              himage.rejects_password hsame hauth hpasswords
            rw [he] at hopens
            cases hopens

/-- What a passphrase opens at a path, the desk unseals. -/
theorem Desk.Survives.of_authenticate {input : Path} {passphrase bundle : Bytes}
    {items : List PlainItem} (h : desk.Survives platform secrets drawn fs) (hname : ¬ TmpName input)
    (hapart : BundleApart platform secrets fs input passphrase) (hfs : fs input = some bundle)
    (hopens : authenticate platform bundle passphrase = .ok items) :
    desk.unsealed input passphrase = some items := by
  have hfile := h.files input hname
  cases hdesk : desk input with
  | none =>
      rw [hdesk] at hfile
      obtain ⟨-, ⟨parsed, -, -, hparsed, -⟩, -⟩ := opens_of_authenticate hopens
      exact absurd hparsed ((hfile bundle hfs).not_bundle _)
  | some artifact =>
      rw [hdesk, hfs] at hfile
      obtain ⟨bytes, hbytes, hin⟩ := hfile
      obtain rfl := Option.some.inj hbytes
      cases artifact with
      | vault own m =>
          obtain ⟨v, -, hstored⟩ := hin
          obtain ⟨e, he⟩ := hstored.authenticate_of_vault passphrase
          rw [he] at hopens
          cases hopens
      | bundle own held =>
          by_cases hsame : passphrase = own
          · rw [hsame, hin.opens] at hopens
            unfold Desk.unsealed
            rw [hdesk]
            by_cases hcount : held.length ≤ maxExportItemCount
            · rw [if_pos hcount, Except.ok.injEq] at hopens
              show (if _ then _ else _) = _
              rw [if_pos ⟨hsame, hcount⟩, hopens]
            · rw [if_neg hcount] at hopens
              cases hopens
          · obtain ⟨hauth, hpassphrases⟩ :=
              hapart own held bundle (h.sealed input _ hdesk) hfs hin hsame
            obtain ⟨e, he⟩ := authenticate_of_other hsame hauth hpassphrases
            rw [he] at hopens
            cases hopens

/-- No password and no passphrase of the request opens what another of these
has sealed. -/
def Request.Apart (platform : Platform) (secrets : List Bytes) (fs : Fs) : Request → Prop
  | .init _ _ _ _ => True
  | .add path password _ _ => VaultApart platform secrets fs path password
  | .list path password => VaultApart platform secrets fs path password
  | .get path password _ => VaultApart platform secrets fs path password
  | .export path password _ _ _ => VaultApart platform secrets fs path password
  | .import path password passphrase input _ =>
      VaultApart platform secrets fs path password
        ∧ BundleApart platform secrets fs input passphrase
  | .lock => True

/-- The ids of the request are those its run draws. -/
def Request.DrawnBy {Name : Type} (env : RunEnv Name) : Request → Prop
  | .init _ _ _ _ => True
  | .add _ _ _ id => id = env.add.draws.recordId
  | .list _ _ => True
  | .get _ _ _ => True
  | .export _ _ _ _ _ => True
  | .import _ _ _ _ ids => ids = env.imports.idAt
  | .lock => True

end Cli

end MeissnerSeal
