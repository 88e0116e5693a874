/-
A vault just created, and who can open it.

# Both sides

Creation seals the root key and the table under associated data built
from literals; `unlock` builds them again from what it parses. That they
agree is that the file `create` leaves is an image (`stored_of_create`),
whatever was drawn. That no other password opens it rests on the cipher
and on one property of the derivation: two passwords do not derive one
wrapping key.
-/
import MeissnerSeal.Vault.HeaderIntegrity

namespace MeissnerSeal

open ByteCodec ExceptRules

variable {platform : Platform} {v : VaultIdentity platform} {path : Path} {password : Bytes}

/-- The derivation tells the vault's password from another. -/
def VaultIdentity.PasswordsApart (v : VaultIdentity platform) (password : Bytes) : Prop :=
  ∀ kek, vaultKek platform password v.header.vaultId v.header.kdfParams = .ok kek →
    vaultKek platform v.password v.header.vaultId v.header.kdfParams = .ok kek →
    password = v.password

/-- Another password opens none of the vault's files. -/
theorem Image.rejects_password {records : List PendingRecord} {bytes : Bytes}
    (h : Image v records bytes) (hne : password ≠ v.password)
    (hauth : Authentic platform.cipher (UnlockAsks platform password bytes) v.Seals)
    (hapart : v.PasswordsApart password) :
    ∃ e, unlockBytes platform path password bytes = .error e := by
  cases hunlock : unlockBytes platform path password bytes with
  | error e => exact ⟨e, rfl⟩
  | ok session =>
      obtain ⟨-, head, entries, hhead, hkeys, -⟩ := unlockBytes_eq_ok.mp hunlock
      obtain ⟨tableLen, -, hown⟩ := h.headOf
      obtain rfl := hhead.unique hown
      obtain ⟨kek, rootKey, hkek, hroot, -⟩ := deriveSessionKeys_eq_ok.mp hkeys
      obtain ⟨-, -, hkek'⟩ := (hauth _ (.wrk hhead hkek) ⟨_, hroot⟩).wrkFrame_eq hhead
      exact absurd (hapart kek hkek hkek') hne

/-- The file a successful `create` leaves opens with the password it was
created with, to the ids that were drawn, the keys that were derived and
no items; under an ideal cipher and an ideal derivation no other
password opens it. -/
theorem create_then_unlock {io : IoFaults} {draws : CreateDraws} {fs fs' : Fs}
    (h : create platform io draws path password fs = (.ok (), fs')) :
    ∃ (v : VaultIdentity platform) (bytes : Bytes) (recordId revisionId : U8Array 16)
      (vaultId : U8Array 16) (headerNonce : Nonce) (keys : UnlockedKeys) (wrkCiphertext : Bytes)
      (wrkNonce : Nonce),
      v.password = password ∧ fs' path = some bytes ∧ Stored v TombstoneMap.empty bytes
      ∧ draws.vaultId = some vaultId ∧ draws.headerNonce = some headerNonce
      ∧ createSessionKeys platform draws.rootKey draws.wrkNonce password vaultId headerNonce
          supportedProfileSet.aeadProfile canonicalArgon2idV1
          (buildAad vaultId formatVersion schemaMeissnerRecordsV2 1 1 0 recordId revisionId
            recordKindWrappedRootKey) = .ok (keys, wrkCiphertext, wrkNonce)
      ∧ (∀ io', io'.read = false →
          unlock platform io' path password fs'
              = (.ok ⟨path, keys, ⟨vaultId, headerNonce, supportedProfileSet⟩⟩, fs')
            ∧ list platform io' ⟨path, keys, ⟨vaultId, headerNonce, supportedProfileSet⟩⟩ fs'
              = (.ok [], fs'))
      ∧ ∀ password', password' ≠ password →
          Authentic platform.cipher (UnlockAsks platform password' bytes) v.Seals →
          v.PasswordsApart password' →
          ∀ io', ∃ e, unlock platform io' path password' fs' = (.error e, fs') := by
  obtain ⟨v, bytes, recordId, revisionId, rfl, hvaultId, hheaderNonce, hkeys, hstored, rfl, -⟩ :=
    stored_of_create h
  have himage := hstored
  obtain ⟨records, himage, -⟩ := himage
  have hfile : (fs.set path (some bytes)) path = some bytes := Fs.set_self ..
  have hsession : v.session path = ⟨path, v.keys, ⟨v.header.vaultId, v.header.headerNonce,
      supportedProfileSet⟩⟩ := by
    rw [← v.header.profileSet.eq_supported]
    rfl
  refine ⟨v, bytes, recordId, revisionId, _, _, _, _, _, rfl, hfile, hstored, hvaultId,
    hheaderNonce, hkeys, ?_, ?_⟩
  · intro io' hread
    rw [← hsession]
    refine ⟨?_, ?_⟩
    · rw [hstored.unlock_eq hfile io' hread, if_pos (by decide)]
    · have hlist : (list platform io' (v.session path) (fs.set path (some bytes))).1 = .ok [] :=
        (hstored.list_eq_ok hfile rfl hread).mpr ⟨fun id item hmem => (by cases hmem), rfl⟩
      exact Prod.ext hlist (list_fs io')
  · intro password' hne hauth hapart io'
    by_cases hempty : password' = []
    · refine ⟨.invalidState "empty password", ?_⟩
      simp only [unlock, FsM.bind_apply, FsM.lift, rejectIf_pos _ hempty]
    · rw [unlock_of_some hempty hfile]
      cases io'.read with
      | true => exact ⟨.io, rfl⟩
      | false =>
          obtain ⟨e, he⟩ : ∃ e, unlockBytes platform path password' bytes = .error e :=
            himage.rejects_password hne hauth hapart
          exact ⟨e, by rw [he]; rfl⟩

/-- A vault of its own password and of no other. -/
theorem create_then_unlock_of_sample :
    ∃ (fs' : Fs) (session : UnlockedVault) (e : CoreError),
      create Platform.keyed IoFaults.none sampleCreateDraws samplePath samplePassword noFiles
        = (.ok (), fs')
      ∧ unlock Platform.keyed IoFaults.none samplePath samplePassword fs' = (.ok session, fs')
      ∧ unlock Platform.keyed IoFaults.none samplePath (utf8 "battery staple") fs'
        = (.error e, fs') := by
  obtain ⟨fs', hcreate⟩ : ∃ fs', create Platform.keyed IoFaults.none sampleCreateDraws samplePath
      samplePassword noFiles = (.ok (), fs') :=
    exists_create Platform.keyed_total ⟨rfl, rfl, rfl, rfl, rfl, rfl, rfl, rfl⟩ (by decide) rfl rfl
      (fun recordId _ => ⟨rfl, samplePath_tmp recordId, rfl, rfl, rfl, rfl⟩) rfl
  obtain ⟨v, bytes, recordId, revisionId, vaultId, headerNonce, keys, wrkCiphertext, wrkNonce, hv,
    hfile, hstored, -, -, -, hopens, hrejects⟩ := create_then_unlock hcreate
  obtain ⟨records, himage, -⟩ := hstored
  obtain ⟨tableLen, -, hhead⟩ := himage.headOf
  have hheads : (resizeZero (utf8 "battery staple") 20).take 4
      ≠ (resizeZero samplePassword 20).take 4 := by decide
  have hapart : ∀ kek kek', vaultKek Platform.keyed (utf8 "battery staple") v.header.vaultId
      v.header.kdfParams = .ok kek → vaultKek Platform.keyed v.password v.header.vaultId
      v.header.kdfParams = .ok kek' → kek.toList.take tagLen ≠ kek'.toList.take tagLen := by
    intro kek kek' hkek hkek' htag
    rw [hv] at hkek'
    exact hheads (keyed_kek_inj hkek hkek' htag).2
  have hclosed : ∀ kek plaintext, vaultKek Platform.keyed (utf8 "battery staple") v.header.vaultId
      v.header.kdfParams = .ok kek → decrypt Platform.keyed.cipher kek v.wrkFrame.nonce
        v.wrkFrame.ciphertext v.wrkFrame.storedAad.toList ≠ .ok plaintext := by
    intro kek plaintext hkek hdec
    obtain ⟨kek', rootKey, hkek', hown, -⟩ := deriveSessionKeys_eq_ok.mp v.keys_derived
    exact hapart kek kek' hkek hkek' (keyed_take_of_opens hdec hown)
  obtain ⟨e, he⟩ : ∃ e, unlock Platform.keyed IoFaults.none samplePath (utf8 "battery staple") fs'
      = (.error e, fs') :=
    hrejects (utf8 "battery staple") (by decide) (authentic_of_closed hhead hclosed)
      (fun kek hkek hkek' => absurd rfl (hapart kek kek hkek hkek')) IoFaults.none
  exact ⟨fs', _, e, hcreate, (hopens IoFaults.none rfl).1, he⟩

end MeissnerSeal
