/-
What the files of a desk are on disk, and who can open them.

# Files

A vault file stores its map under an identity of its password (`Stored`). A
bundle file authenticates under its passphrase to its items, as far as
an import counts (`BundleFor`). The two begin with different magic bytes, so
neither is taken for the other.

# Other passwords

That another password opens nothing is asked of the cipher and of the key
derivation, for the files and passwords a run puts together: of what the run
asks the cipher to open, only what was sealed opens, and two passwords derive
one key for one file only if they are equal.
-/
import MeissnerSeal.Cli.Perform
import MeissnerSeal.Export.BundleIntegrity
import MeissnerSeal.Vault.CreateUnlock

namespace MeissnerSeal

open ByteCodec ExceptRules

variable {platform : Platform}

-- ============================================================== file magic

/-- A vault begins with its magic bytes. -/
theorem magic_at_of_parseHeader {bytes : Bytes} {header : VaultHeader}
    (h : parseHeader bytes = .ok header) : SegAt bytes 0 magic := by
  simp only [parseHeader, bind_eq_ok, rejectIf_eq_ok, sliceIndex_eq_ok, Decidable.not_not] at h
  obtain ⟨-, -, found, ⟨hat, -⟩, -, rfl, -⟩ := h
  exact hat

/-- And a bundle with its own. -/
theorem magic_at_of_parseBundle {bytes : Bytes} {parsed : ParsedBundle}
    (h : parseBundle bytes = .ok parsed) : SegAt bytes 0 msexpMagic := by
  simp only [parseBundle, bind_eq_ok, rejectIf_eq_ok, okOr_eq_ok, slice?_eq_some_iff,
    Decidable.not_not] at h
  obtain ⟨-, -, found, ⟨hat, -⟩, -, rfl, -⟩ := h
  exact hat

/-- No file is a vault and a bundle. -/
theorem not_vault_and_bundle {bytes : Bytes} {header : VaultHeader} {parsed : ParsedBundle}
    (hvault : parseHeader bytes = .ok header) (hbundle : parseBundle bytes = .ok parsed) :
    False := by
  have hsame := (magic_at_of_parseHeader hvault).unique
    (magic_at_of_parseBundle hbundle) (by decide)
  exact absurd hsame (by decide)

-- ================================================================= bundles

/-- A bundle of these items under this passphrase. -/
structure BundleFor (platform : Platform) (passphrase : Bytes) (items : List PlainItem)
    (bytes : Bytes) : Prop where
  parsed : ∃ parsed, parseBundle bytes = .ok parsed
  opens : authenticate platform bytes passphrase
    = if items.length ≤ maxExportItemCount then .ok items
      else .error (formatError "export item count exceeds maximum")
  limits : ∀ item ∈ items, item.WithinLimits

namespace FsM

variable {α β : Type}

/-- A program that succeeds has gone through its first step. -/
theorem of_bind_ok {m : FsM α} {f : α → FsM β} {fs fs' : Fs} {b : β}
    (h : (m >>= f) fs = (.ok b, fs')) :
    ∃ a fs₁, m fs = (.ok a, fs₁) ∧ f a fs₁ = (.ok b, fs') := by
  rw [bind_apply] at h
  cases hm : m fs with
  | mk r fs₁ =>
      cases r with
      | error e =>
          rw [hm] at h
          cases h
      | ok a =>
          rw [hm] at h
          exact ⟨a, fs₁, rfl, h⟩

end FsM

/-- What an export writes is a bundle of the live items. -/
theorem Stored.bundleFor {v : VaultIdentity platform} {m : ItemMap} {bytes : Bytes}
    {session : UnlockedVault} {fs fs' : Fs} {io : Nat → IoFaults} {nonceDraw : Option Nonce}
    {passphrase bundle : Bytes} (h : Stored v m bytes) (hfs : fs session.path = some bytes)
    (hkeys : session.keys = v.keys)
    (hexport : exportBundle platform io nonceDraw session passphrase fs = (.ok bundle, fs')) :
    BundleFor platform passphrase (liveItems m) bundle := by
  obtain ⟨hlimits, -, hopens⟩ := h.of_exportBundle hfs hkeys hexport
  obtain ⟨-, _, -, hexport⟩ := FsM.of_bind_ok hexport
  obtain ⟨kdfParams, _, -, hexport⟩ := FsM.of_bind_ok hexport
  obtain ⟨plaintext, _, -, hexport⟩ := FsM.of_bind_ok hexport
  obtain ⟨key, _, -, hexport⟩ := FsM.of_bind_ok hexport
  obtain ⟨⟨ciphertext, nonce⟩, _, -, hexport⟩ := FsM.of_bind_ok hexport
  have hserialize := (Prod.mk.inj hexport).1
  exact ⟨⟨_, parseBundle_of_serialize hserialize⟩, hopens, hlimits.liveItems⟩

-- =================================================================== files

namespace Cli

/-- What an artifact is on disk. -/
def Artifact.In (platform : Platform) (bytes : Bytes) : Artifact → Prop
  | .vault password m => ∃ v : VaultIdentity platform, v.password = password ∧ Stored v m bytes
  | .bundle passphrase items => BundleFor platform passphrase items bytes

/-- The files are those of the desk. -/
structure Desk.Holds (platform : Platform) (desk : Desk) (fs : Fs) : Prop where
  absent : ∀ path, desk path = none → fs path = none
  present : ∀ path artifact, desk path = some artifact →
    ∃ bytes, fs path = some bytes ∧ artifact.In platform bytes

variable {desk : Desk} {fs : Fs} {path : Path} {password passphrase : Bytes} {m : ItemMap}

theorem Desk.Holds.isNone_eq (h : desk.Holds platform fs) (path : Path) :
    (desk path).isNone = (fs path).isNone := by
  cases hdesk : desk path with
  | none => rw [h.absent path hdesk]; rfl
  | some artifact =>
      obtain ⟨bytes, hfs, -⟩ := h.present path artifact hdesk
      rw [hfs]
      rfl

/-- One file more, or another in its place. -/
theorem Desk.Holds.set (h : desk.Holds platform fs) {artifact : Artifact} {bytes : Bytes}
    (hin : artifact.In platform bytes) :
    (desk.set path artifact).Holds platform (fs.set path (some bytes)) where
  absent p hp := by
    by_cases heq : p = path
    · rw [Desk.set, if_pos heq] at hp
      cases hp
    · rw [Desk.set, if_neg heq] at hp
      rw [Fs.set_of_ne fs _ heq]
      exact h.absent p hp
  present p artifact' hp := by
    by_cases heq : p = path
    · rw [Desk.set, if_pos heq, Option.some.injEq] at hp
      obtain rfl := hp
      exact ⟨bytes, heq ▸ Fs.set_self .., hin⟩
    · rw [Desk.set, if_neg heq] at hp
      obtain ⟨bytes', hfs, hin'⟩ := h.present p artifact' hp
      exact ⟨bytes', (Fs.set_of_ne fs _ heq).trans hfs, hin'⟩

-- ================================================================ unlocking

/-- No read fails, and no password opens a vault of another. -/
structure QuietUnlock (platform : Platform) (desk : Desk) (fs : Fs) (io : IoFaults) (path : Path)
    (password : Bytes) : Prop where
  read : io.read = false
  ideal : ∀ (v : VaultIdentity platform) (m : ItemMap) (bytes : Bytes),
    desk path = some (.vault v.password m) → fs path = some bytes → Stored v m bytes →
    password ≠ v.password →
    Authentic platform.cipher (UnlockAsks platform password bytes) v.Seals
      ∧ v.PasswordsApart password

theorem Desk.opened_eq_some {desk : Desk} :
    desk.opened path password = some m
      ↔ desk path = some (.vault password m) ∧ storedLen m ≤ maxVaultFileLen := by
  unfold Desk.opened
  cases desk path with
  | none => simp
  | some artifact =>
      cases artifact with
      | bundle own items => simp
      | vault own items =>
          simp only [Option.ite_none_right_eq_some, Option.some.injEq, Artifact.vault.injEq]
          constructor
          · rintro ⟨⟨rfl, hle⟩, rfl⟩
            exact ⟨⟨rfl, rfl⟩, hle⟩
          · rintro ⟨⟨rfl, rfl⟩, hle⟩
            exact ⟨⟨rfl, hle⟩, rfl⟩

/-- What the desk opens, `unlock` opens. -/
theorem Desk.Holds.unlock_of_opened {io : IoFaults} (h : desk.Holds platform fs)
    (hread : io.read = false) (hopened : desk.opened path password = some m) :
    ∃ (v : VaultIdentity platform) (bytes : Bytes), v.password = password ∧ fs path = some bytes
      ∧ Stored v m bytes ∧ unlock platform io path password fs = (.ok (v.session path), fs) := by
  obtain ⟨hvault, hle⟩ := Desk.opened_eq_some.mp hopened
  obtain ⟨bytes, hfs, v, rfl, hstored⟩ := h.present path _ hvault
  refine ⟨v, bytes, rfl, hfs, hstored, ?_⟩
  rw [hstored.unlock_eq hfs io hread, if_pos hle]

/-- And nothing else. -/
theorem Desk.Holds.unlock_of_not_opened {io : IoFaults} (h : desk.Holds platform fs)
    (hquiet : QuietUnlock platform desk fs io path password)
    (hopened : desk.opened path password = none) :
    ∃ e, unlock platform io path password fs = (.error e, fs) := by
  by_cases hempty : password = []
  · refine ⟨.invalidState "empty password", ?_⟩
    simp only [unlock, FsM.bind_apply, FsM.lift, rejectIf_pos _ hempty]
  cases hdesk : desk path with
  | none =>
      have hfs := h.absent path hdesk
      refine ⟨.io, ?_⟩
      simp only [unlock, FsM.bind_apply, FsM.lift, rejectIf_neg _ hempty, readFile,
        hquiet.read, hfs]
      rfl
  | some artifact =>
      obtain ⟨bytes, hfs, hin⟩ := h.present path artifact hdesk
      suffices hrejects : ∃ e, unlockBytes platform path password bytes = .error e by
        obtain ⟨e, he⟩ := hrejects
        exact ⟨e, by rw [unlock_of_some hempty hfs, hquiet.read, he]; rfl⟩
      cases artifact with
      | bundle own items =>
          obtain ⟨parsed, hparsed⟩ := hin.parsed
          cases hunlock : unlockBytes platform path password bytes with
          | error e => exact ⟨e, rfl⟩
          | ok session =>
              obtain ⟨-, head, entries, hhead, -⟩ := unlockBytes_eq_ok.mp hunlock
              exact (not_vault_and_bundle hhead.header_parsed hparsed).elim
      | vault own m =>
          obtain ⟨v, rfl, hstored⟩ := hin
          by_cases hsame : password = v.password
          · have hover : ¬ storedLen m ≤ maxVaultFileLen := fun hle => by
              rw [Desk.opened_eq_some.mpr ⟨hsame ▸ hdesk, hle⟩] at hopened
              cases hopened
            rw [hsame, hstored.unlockBytes_eq, if_pos (by rw [hstored.length_eq]; omega)]
            exact ⟨_, rfl⟩
          · obtain ⟨hauth, hapart⟩ := hquiet.ideal v m bytes hdesk hfs hstored hsame
            obtain ⟨records, himage, -⟩ := hstored
            exact himage.rejects_password hsame hauth hapart

end Cli

end MeissnerSeal
