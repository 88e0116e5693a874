/-
The session key hierarchy: from the master password and the vault header
to the seven subkeys a session holds, on the create side (a fresh root
key is wrapped) and on the unlock side (the wrapped root key is opened).
-/
import MeissnerSeal.Vault.Record

namespace MeissnerSeal

open ByteCodec ExceptRules

/-- `UnlockedKeys`. -/
structure UnlockedKeys where
  itemWrapKey : Key
  metadataKey : Key
  auditKey : Key
  syncEnvelopeKey : Key
  deviceEnrollmentKey : Key
  recoveryWrappingKey : Key
  exportKey : Key
  deriving DecidableEq

variable (platform : Platform)

/-- `derive_master_unlock_key_with_header_params`. -/
def deriveMasterUnlockKeyWithHeaderParams (password : Bytes) (vaultId : U8Array 16)
    (kdfParams : HeaderKdfParams) : Res Key := do
  rejectIf (password = [] ∨ kdfParams.profileId ≠ kdfArgon2idV1
    ∨ kdfParams.argon2Version ≠ argon2Version0x13) .crypto
  orErr (derive platform.kdf password vaultId kdfParams.argon2) .crypto

/-- `derive_subkeys`. -/
def deriveSubkeys (rootPrk : Key) (vaultId : U8Array 16) (aeadId : UInt16) :
    Res UnlockedKeys := do
  let subkey (purpose : SubkeyPurpose) (aeadId : Option UInt16) : Res Key :=
    orErr (deriveSubkey platform.kdf rootPrk purpose vaultId aeadId) .crypto
  let itemWrapKey ← subkey .itemKeyWrappingKey (some aeadId)
  let metadataKey ← subkey .metadataEncryptionKey (some aeadId)
  let auditKey ← subkey .localAuditEventKey none
  let syncEnvelopeKey ← subkey .syncEnvelopeKey none
  let deviceEnrollmentKey ← subkey .deviceEnrollmentKey none
  let recoveryWrappingKey ← subkey .recoveryWrappingKey none
  let exportKey ← subkey .exportBundleKey none
  return { itemWrapKey, metadataKey, auditKey, syncEnvelopeKey, deviceEnrollmentKey,
           recoveryWrappingKey, exportKey }

/-- `derive_session_keys`. -/
def deriveSessionKeys (password : Bytes) (vaultId : U8Array 16) (headerNonce : Nonce)
    (aeadProfile : AeadProfileId) (kdfParams : HeaderKdfParams)
    (wrappedRootKeyCiphertext : Bytes) (wrappedRootKeyNonce : Nonce)
    (aad : U8Array recordAadLen) : Res UnlockedKeys := do
  let _ ← orErr (AeadProfileId.new aeadProfile.value) CoreError.crypto
  let muk ← deriveMasterUnlockKeyWithHeaderParams platform password vaultId kdfParams
  let vkek ← orErr (deriveVkek platform.kdf muk vaultId) CoreError.crypto
  let vrkPlaintext ← orErr
    (decrypt platform.cipher vkek wrappedRootKeyNonce wrappedRootKeyCiphertext aad.toList)
    CoreError.auth
  let vaultRootKey ← orErr (readArray 32 vrkPlaintext "") CoreError.crypto
  deriveSubkeys platform (deriveRootPrk platform.kdf vaultRootKey vaultId headerNonce) vaultId
    aeadProfile.value

/-- `create_session_keys`; `rootKeyDraw` and `nonceDraw` are the random
root key and the wrapping nonce. -/
def createSessionKeys (rootKeyDraw : Option Key) (nonceDraw : Option Nonce) (password : Bytes)
    (vaultId : U8Array 16) (headerNonce : Nonce) (aeadProfile : AeadProfileId)
    (kdfParams : HeaderKdfParams) (aad : U8Array recordAadLen) :
    Res (UnlockedKeys × Bytes × Nonce) := do
  let _ ← orErr (AeadProfileId.new aeadProfile.value) CoreError.crypto
  let vaultRootKey ← okOr rootKeyDraw CoreError.panic
  let muk ← deriveMasterUnlockKeyWithHeaderParams platform password vaultId kdfParams
  let vkek ← orErr (deriveVkek platform.kdf muk vaultId) CoreError.crypto
  let (ciphertext, nonce) ← orErrUnwind
    (encrypt platform.cipher nonceDraw vkek vaultRootKey.toList aad.toList) CoreError.crypto
  let unlocked ← deriveSubkeys platform
    (deriveRootPrk platform.kdf vaultRootKey vaultId headerNonce) vaultId aeadProfile.value
  return (unlocked, ciphertext, nonce)

/-- The key that wraps a vault's root key. -/
def vaultKek (password : Bytes) (vaultId : U8Array 16) (kdfParams : HeaderKdfParams) : Res Key := do
  let muk ← deriveMasterUnlockKeyWithHeaderParams platform password vaultId kdfParams
  orErr (deriveVkek platform.kdf muk vaultId) CoreError.crypto

variable {platform}

/-- The unlock side succeeds where the wrapping key opens a root key. -/
theorem deriveSessionKeys_eq_ok {password : Bytes} {vaultId : U8Array 16}
    {headerNonce nonce : Nonce}
    {aeadProfile : AeadProfileId} {kdfParams : HeaderKdfParams} {ciphertext : Bytes}
    {aad : U8Array recordAadLen} {keys : UnlockedKeys} :
    deriveSessionKeys platform password vaultId headerNonce aeadProfile kdfParams
      ciphertext nonce aad
        = .ok keys
      ↔ ∃ kek rootKey : Key, vaultKek platform password vaultId kdfParams = .ok kek
        ∧ decrypt platform.cipher kek nonce ciphertext aad.toList = .ok rootKey.toList
        ∧ deriveSubkeys platform (deriveRootPrk platform.kdf rootKey vaultId headerNonce) vaultId
          aeadProfile.value = .ok keys := by
  have haead : AeadProfileId.new aeadProfile.value = .ok aeadProfile := by
    rw [AeadProfileId.new, ProfileId.new, dif_pos aeadProfile.valid]
  simp only [deriveSessionKeys, vaultKek, haead, orErr_ok, ok_bind, bind_eq_ok, orErr_eq_ok,
    readArray_eq_ok]
  constructor
  · rintro ⟨muk, hmuk, kek, hkek, _, hopen, rootKey, rfl, hkeys⟩
    exact ⟨kek, rootKey, ⟨muk, hmuk, hkek⟩, hopen, hkeys⟩
  · rintro ⟨kek, rootKey, ⟨muk, hmuk, hkek⟩, hopen, hkeys⟩
    exact ⟨muk, hmuk, kek, hkek, _, hopen, rootKey, rfl, hkeys⟩

/-- What `createSessionKeys` wraps, `deriveSessionKeys` opens to the same
seven keys. -/
theorem deriveSessionKeys_of_create {rootKeyDraw : Option Key} {nonceDraw : Option Nonce}
    {password : Bytes} {vaultId : U8Array 16} {headerNonce nonce : Nonce}
    {aeadProfile : AeadProfileId} {kdfParams : HeaderKdfParams} {aad : U8Array recordAadLen}
    {keys : UnlockedKeys} {ciphertext : Bytes}
    (h : createSessionKeys platform rootKeyDraw nonceDraw password vaultId headerNonce
      aeadProfile kdfParams aad = .ok (keys, ciphertext, nonce)) :
    deriveSessionKeys platform password vaultId headerNonce aeadProfile kdfParams ciphertext
      nonce aad = .ok keys := by
  simp only [createSessionKeys, bind_eq_ok, orErr_eq_ok, orErrUnwind_eq_ok, okOr_eq_ok, pure_eq_ok,
    Except.ok.injEq, Prod.mk.injEq] at h
  obtain ⟨aead, haead, vrk, -, muk, hmuk, vkek, hvkek, ⟨ct, n⟩, henc, sub, hsub, rfl, rfl, rfl⟩ := h
  have hdec := decrypt_of_encrypt (encrypt_eq_ok.mp henc).2
  have hvrk : readArray 32 vrk.toList "" = .ok vrk := readArray_eq_ok.mpr rfl
  simp only [deriveSessionKeys, haead, hmuk, hvkek, hdec, hvrk, orErr_ok, ok_bind]
  exact hsub

/-- The wrapped root key is 32 bytes and a tag. -/
theorem length_of_createSessionKeys {rootKeyDraw : Option Key} {nonceDraw : Option Nonce}
    {password : Bytes} {vaultId : U8Array 16} {headerNonce nonce : Nonce}
    {aeadProfile : AeadProfileId} {kdfParams : HeaderKdfParams} {aad : U8Array recordAadLen}
    {keys : UnlockedKeys} {ciphertext : Bytes}
    (h : createSessionKeys platform rootKeyDraw nonceDraw password vaultId headerNonce
      aeadProfile kdfParams aad = .ok (keys, ciphertext, nonce)) :
    ciphertext.length = 48 := by
  simp only [createSessionKeys, bind_eq_ok, orErr_eq_ok, orErrUnwind_eq_ok, okOr_eq_ok, pure_eq_ok,
    Except.ok.injEq, Prod.mk.injEq] at h
  obtain ⟨_, -, vrk, -, _, -, _, -, ⟨ct, n⟩, henc, _, -, rfl, rfl, rfl⟩ := h
  have hlen := platform.cipher.length_encrypt (encrypt_eq_ok.mp henc).2
  rw [hlen, List.Vector.toList_length, tagLen]

/-- A key derivation that never fails derives every subkey. -/
theorem exists_deriveSubkeys (htotal : platform.kdf.Total) (rootPrk : Key)
    (vaultId : U8Array 16) (aeadId : UInt16) :
    ∃ keys, deriveSubkeys platform rootPrk vaultId aeadId = .ok keys := by
  have hexpand : ∀ info, ∃ key, expand platform.kdf rootPrk info = .ok key := by
    intro info
    obtain ⟨key, hkey⟩ := Option.isSome_iff_exists.mp (htotal.expand rootPrk info)
    exact ⟨key, by rw [expand, hkey, okOr_some]⟩
  have hsubkey : ∀ (purpose : SubkeyPurpose) (id : Option UInt16) (info : String),
      buildSubkeyInfo purpose vaultId id = .ok info →
      ∃ key, deriveSubkey platform.kdf rootPrk purpose vaultId id = .ok key := by
    intro purpose id info hinfo
    obtain ⟨key, hkey⟩ := hexpand (utf8 info)
    exact ⟨key, by rw [deriveSubkey, hinfo, ok_bind, hkey]⟩
  obtain ⟨k₁, h₁⟩ := hsubkey .itemKeyWrappingKey (some aeadId) _ rfl
  obtain ⟨k₂, h₂⟩ := hsubkey .metadataEncryptionKey (some aeadId) _ rfl
  obtain ⟨k₃, h₃⟩ := hsubkey .localAuditEventKey none _ rfl
  obtain ⟨k₄, h₄⟩ := hsubkey .syncEnvelopeKey none _ rfl
  obtain ⟨k₅, h₅⟩ := hsubkey .deviceEnrollmentKey none _ rfl
  obtain ⟨k₆, h₆⟩ := hsubkey .recoveryWrappingKey none _ rfl
  obtain ⟨k₇, h₇⟩ := hsubkey .exportBundleKey none _ rfl
  refine ⟨⟨k₁, k₂, k₃, k₄, k₅, k₆, k₇⟩, ?_⟩
  simp only [deriveSubkeys, h₁, h₂, h₃, h₄, h₅, h₆, h₇, orErr_ok, ok_bind, pure_eq_ok]

/-- The create side succeeds when nothing it is handed fails. -/
theorem exists_createSessionKeys {rootKey : Key} {nonce headerNonce : Nonce} {password : Bytes}
    {vaultId : U8Array 16} {kdfParams : HeaderKdfParams} {aad : U8Array recordAadLen}
    (aeadProfile : AeadProfileId) (htotal : platform.kdf.Total) (hpassword : password ≠ [])
    (hprofile : kdfParams.profileId = kdfArgon2idV1)
    (hversion : kdfParams.argon2Version = argon2Version0x13)
    (hparams : kdfParams.argon2.invalidInput = false) :
    ∃ keys ciphertext, createSessionKeys platform (some rootKey) (some nonce) password vaultId
      headerNonce aeadProfile kdfParams aad = .ok (keys, ciphertext, nonce) := by
  have haead : AeadProfileId.new aeadProfile.value = .ok aeadProfile := by
    rw [AeadProfileId.new, ProfileId.new, dif_pos aeadProfile.valid]
  obtain ⟨muk, hmuk⟩ := Option.isSome_iff_exists.mp (htotal.argon2id password
    (constructArgon2idSalt vaultId) kdfParams.argon2.mCostKib kdfParams.argon2.tCost
    kdfParams.argon2.pLanes)
  have hguard : ¬ (password = [] ∨ kdfParams.profileId ≠ kdfArgon2idV1
      ∨ kdfParams.argon2Version ≠ argon2Version0x13) := by
    rw [hprofile, hversion]
    simp [hpassword]
  have hmaster : deriveMasterUnlockKeyWithHeaderParams platform password vaultId kdfParams
      = .ok muk := by
    simp only [deriveMasterUnlockKeyWithHeaderParams, rejectIf_neg _ hguard, ok_bind, derive,
      hparams, hmuk, Bool.false_eq_true, not_false_eq_true, rejectIf_neg, okOr_some, orErr_ok]
  obtain ⟨vkek, hvkek⟩ := Option.isSome_iff_exists.mp (htotal.expand
    (platform.kdf.extract (vkekSaltDomainV1 ++ vaultId.toList) muk.toList) vkekInfoV1)
  obtain ⟨ciphertext, henc⟩ : ∃ ciphertext,
      platform.cipher.encrypt vkek nonce rootKey.toList aad.toList = some ciphertext :=
    exists_encrypt vkek nonce aad.toList (by rw [List.Vector.toList_length]; decide)
  have hwrap := encrypt_eq_ok.mpr ⟨(rfl : some nonce = some nonce), henc⟩
  obtain ⟨keys, hkeys⟩ := exists_deriveSubkeys htotal
    (deriveRootPrk platform.kdf rootKey vaultId headerNonce) vaultId aeadProfile.value
  refine ⟨keys, ciphertext, ?_⟩
  simp only [createSessionKeys, haead, orErr_ok, orErrUnwind_ok, ok_bind, okOr_some, hmaster,
    deriveVkek, expand, hvkek, hwrap, hkeys, pure_eq_ok]

end MeissnerSeal
