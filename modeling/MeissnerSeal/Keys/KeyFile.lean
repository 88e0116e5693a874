/-
The sealed device key file: an identity in the clear, and behind it the
keypair sealed under the device KEK with the identity and its fingerprint
as associated data.

# Reading back

What `serialize_identity_bytes` and `serialize_keypair_bytes` write is
read back as it was (`reads_takeIdentity`, `reads_takeKeypair`), for every
trust state and with the signing key or without it.

# Sealed for good

Opening rebuilds the identity from the keypair, and refuses one without a
signing key; sealing takes it. A key file opens to what was sealed exactly
when there was a signing key (`openKeyFile_of_seal_iff`).
-/
import MeissnerSeal.Keys.Device

namespace MeissnerSeal

open ByteCodec ExceptRules ByteParser

/-- The cryptography of the device keys: that of the transfers, and the
hash of the fingerprints. -/
structure DevicePlatform extends TransferPlatform where
  /-- `hash::blake2b_256_bytes`. -/
  blake2b256 : Bytes → U8Array 32

abbrev DeviceRes := Except DeviceIdentityError
abbrev DeviceParser := ByteParser DeviceIdentityError

def sealedDeviceKeyFileMagic : Bytes := utf8 "MSDKP" ++ [1]
def sealedDeviceKeyFileVersion : UInt8 := 1
def sealedDeviceKeyFileAadDomain : Bytes := utf8 "meissnerseal.device.keyfile.v1"

/-- `DeviceIdentity::validate`. -/
def DeviceIdentity.validate (identity : DeviceIdentity) : DeviceRes Unit := do
  rejectIf (identity.displayName = "") .emptyDisplayName
  rejectIf ((identity.trustState = .verified ∨ identity.trustState = .approved)
    ∧ identity.signingPublicKey = none) .missingSigningKey

/-- `try_new_ed25519_signing_public_key`. -/
def tryNewEd25519SigningPublicKey (bytes : U8Array 32) : DeviceRes SigningPublicKey :=
  .ok ⟨.ed25519V1, bytes.toList⟩

/-- `try_new_signing_public_key`. -/
def tryNewSigningPublicKey (algorithm : SigningAlgorithmId) (bytes : Bytes) :
    DeviceRes SigningPublicKey :=
  match algorithm with
  | .ed25519V1 => do
      let keyBytes ← okOr (tryArray 32 bytes) .invalidSigningPublicKeyLength
      tryNewEd25519SigningPublicKey keyBytes
  | .ed25519MlDsa87HybridV1 => .error .unimplemented

/-- `device_trust_state_to_u8`. -/
def deviceTrustStateToU8 : DeviceTrustState → UInt8
  | .untrusted => 0
  | .pendingInbound => 1
  | .pendingOutbound => 2
  | .verified => 3
  | .approved => 4
  | .revoked => 5
  | .expired => 6

/-- `device_trust_state_from_u8`. -/
def deviceTrustStateFromU8 (value : UInt8) : DeviceRes DeviceTrustState :=
  match value with
  | 0 => .ok .untrusted
  | 1 => .ok .pendingInbound
  | 2 => .ok .pendingOutbound
  | 3 => .ok .verified
  | 4 => .ok .approved
  | 5 => .ok .revoked
  | 6 => .ok .expired
  | _ => .error .invalidFileFormat

@[simp] theorem deviceTrustStateFromU8_toU8 (state : DeviceTrustState) :
    deviceTrustStateFromU8 (deviceTrustStateToU8 state) = .ok state := by
  cases state <;> rfl

-- ============================================================= the keypair

/-- `serialize_keypair_bytes`. -/
def serializeKeypairBytes (identity : DeviceIdentity) (keypair : DeviceKeypair) : Bytes :=
  [1]
    ++ (identity.deviceId.toList
    ++ (identity.classicalPublicKey.toList
    ++ (keypair.classicalPrivateKey.toList
    ++ (keypair.pqcPrivateKey.toList
    ++ (leU16 keypair.signingPrivateKey.algorithm.toU16
    ++ (leU32 (u32Saturated keypair.signingPrivateKey.bytes.length)
    ++ keypair.signingPrivateKey.bytes))))))

/-- The fields of `deserialize_keypair_bytes`, up to its check for
trailing bytes. -/
def takeKeypair : DeviceParser (DeviceId × X25519PublicKey × DeviceKeypair) := do
  let version ← takeU8 .invalidFileFormat
  guardNot (version ≠ 1) .invalidFileFormat
  let deviceId ← takeArray .invalidFileFormat 16
  let classicalPublicKey ← takeArray .invalidFileFormat 32
  let classicalPrivateKey ← takeArray .invalidFileFormat 32
  let pqcPrivateKey ← takeArray .invalidFileFormat 2400
  let algorithm ← takeU16Le .invalidFileFormat
  let signingAlgorithm ← StateT.lift
    (orErr (SigningAlgorithmId.fromU16 algorithm) .invalidFileFormat)
  let signingLen ← takeU32Le .invalidFileFormat
  guardNot (signingAlgorithm = .ed25519V1 ∧ signingLen.toNat ≠ 32) .invalidFileFormat
  let signing ← take .invalidFileFormat signingLen.toNat
  return (deviceId, classicalPublicKey,
    { classicalPrivateKey, pqcPrivateKey, signingPrivateKey := ⟨signingAlgorithm, signing⟩ })

/-- `deserialize_keypair_bytes`. -/
def deserializeKeypairBytes (pqc : PqcBackend) (bytes : Bytes) :
    DeviceRes (DeviceId × X25519PublicKey × DeviceKeypair) := do
  let ((deviceId, classicalPublicKey, keypair), rest) ← takeKeypair bytes
  rejectIf (rest ≠ []) .invalidFileFormat
  rejectIf (classicalPublicKey ≠ pqc.x25519Public keypair.classicalPrivateKey) .invalidFileFormat
  return (deviceId, classicalPublicKey, keypair)

-- ============================================================ the identity

/-- The signing key of an identity: a flag, and behind it the key. -/
def signingKeyBytes : Option SigningPublicKey → DeviceRes Bytes
  | some signingPublicKey => do
      let len ← okOr (u32TryFrom signingPublicKey.bytes.length) .invalidFileFormat
      return [1] ++ (leU16 signingPublicKey.algorithm.toU16
        ++ (leU32 len ++ signingPublicKey.bytes))
  | none => return [0]

/-- `serialize_identity_bytes`. -/
def serializeIdentityBytes (identity : DeviceIdentity) : DeviceRes Bytes := do
  let nameLen ← okOr (u32TryFrom (utf8 identity.displayName).length) .invalidFileFormat
  let signing ← signingKeyBytes identity.signingPublicKey
  return [1]
    ++ (identity.deviceId.toList
    ++ (leU32 nameLen
    ++ (utf8 identity.displayName
    ++ (identity.classicalPublicKey.toList
    ++ (identity.pqcPublicKey.toList
    ++ (signing
    ++ (leU64 identity.createdAt
    ++ [deviceTrustStateToU8 identity.trustState])))))))

/-- The signing key of `deserialize_identity_bytes`. -/
def takeSigningKey : DeviceParser (Option SigningPublicKey) := do
  let flag ← takeU8 .invalidFileFormat
  if flag = 0 then return none
  else if flag = 1 then
    let value ← takeU16Le .invalidFileFormat
    let algorithm ← StateT.lift (orErr (SigningAlgorithmId.fromU16 value) .invalidFileFormat)
    let len ← takeU32Le .invalidFileFormat
    let bytes ← take .invalidFileFormat len.toNat
    let key ← StateT.lift (tryNewSigningPublicKey algorithm bytes)
    return some key
  else throw .invalidFileFormat

/-- The fields of `deserialize_identity_bytes`, up to its check for
trailing bytes. -/
def takeIdentity : DeviceParser DeviceIdentity := do
  let version ← takeU8 .invalidFileFormat
  guardNot (version ≠ 1) .invalidFileFormat
  let deviceId ← takeArray .invalidFileFormat 16
  let displayNameLen ← takeU32Le .invalidFileFormat
  let nameBytes ← take .invalidFileFormat displayNameLen.toNat
  let displayName ← StateT.lift (okOr (fromUtf8 nameBytes) .invalidFileFormat)
  let classicalPublicKey ← takeArray .invalidFileFormat 32
  let pqcPublicKey ← takeArray .invalidFileFormat 1184
  let signingPublicKey ← takeSigningKey
  let createdAt ← takeU64Le .invalidFileFormat
  let state ← takeU8 .invalidFileFormat
  let trustState ← StateT.lift (deviceTrustStateFromU8 state)
  return {
    deviceId, displayName, classicalPublicKey, pqcPublicKey, signingPublicKey,
      createdAt, trustState }

/-- `deserialize_identity_bytes`. -/
def deserializeIdentityBytes (bytes : Bytes) : DeviceRes DeviceIdentity := do
  let (identity, rest) ← takeIdentity bytes
  rejectIf (rest ≠ []) .invalidFileFormat
  identity.validate
  return identity

section File

variable (platform : DevicePlatform)

/-- What `identity_fingerprint` hashes. -/
def identityCanonical (identity : DeviceIdentity) : Bytes :=
  identity.deviceId.toList
    ++ leU32 (u32Saturated (utf8 identity.displayName).length)
    ++ utf8 identity.displayName
    ++ identity.classicalPublicKey.toList
    ++ identity.pqcPublicKey.toList
    ++ (match identity.signingPublicKey with
      | some signingPublicKey => [1] ++ leU16 signingPublicKey.algorithm.toU16
          ++ leU32 (u32Saturated signingPublicKey.bytes.length) ++ signingPublicKey.bytes
      | none => [0])
    ++ leU64 identity.createdAt
    ++ [deviceTrustStateToU8 identity.trustState]

/-- `identity_fingerprint`. -/
def identityFingerprint (identity : DeviceIdentity) : U8Array 32 :=
  platform.blake2b256 (identityCanonical identity)

/-- The message of `validate_signing_key_matches_public`. -/
def keyFileCheckMessage : Bytes := utf8 "meissnerseal.device.keyfile.check.v1"

/-- `validate_signing_key_matches_public`. -/
def validateSigningKeyMatchesPublic (pqc : PqcBackend) (privateKey : SigningPrivateKey)
    (publicKey : SigningPublicKey) : DeviceRes Unit := do
  let signature ← orErr (signWithDomain pqc privateKey deviceEnrollmentSigningDomain
    keyFileCheckMessage) .identityFingerprintMismatch
  orErr (verifyWithDomain pqc publicKey deviceEnrollmentSigningDomain keyFileCheckMessage signature)
    .identityFingerprintMismatch

/-- `rebuild_identity_from_keypair`. -/
def rebuildIdentityFromKeypair (pqc : PqcBackend) (identity : DeviceIdentity)
    (keypair : DeviceKeypair) : DeviceRes DeviceIdentity := do
  let classicalPublicKey := pqc.x25519Public keypair.classicalPrivateKey
  let signingPublicKey ← okOr identity.signingPublicKey .missingSigningKey
  validateSigningKeyMatchesPublic pqc keypair.signingPrivateKey signingPublicKey
  return {
    deviceId := identity.deviceId
    displayName := identity.displayName
    classicalPublicKey
    pqcPublicKey := identity.pqcPublicKey
    signingPublicKey := some signingPublicKey
    createdAt := identity.createdAt
    trustState := identity.trustState }

/-- `sealed_device_key_file_aad`. -/
def sealedDeviceKeyFileAad (identityBytes : Bytes) (fingerprint : U8Array 32) :
    DeviceRes Bytes := do
  let len ← okOr (u32TryFrom identityBytes.length) .invalidFileFormat
  return sealedDeviceKeyFileAadDomain ++ (leU32 len ++ (identityBytes ++ fingerprint.toList))

/-- `serialize_sealed_device_key_file`. -/
def serializeSealedDeviceKeyFile (identityBytes : Bytes) (fingerprint : U8Array 32) (nonce : Nonce)
    (ciphertext : Bytes) : DeviceRes Bytes := do
  let identityLen ← okOr (u32TryFrom identityBytes.length) .invalidFileFormat
  let ciphertextLen ← okOr (u32TryFrom ciphertext.length) .invalidFileFormat
  return sealedDeviceKeyFileMagic
    ++ ([sealedDeviceKeyFileVersion]
    ++ (leU32 identityLen
    ++ (identityBytes
    ++ (fingerprint.toList
    ++ (nonce.toList
    ++ (leU32 ciphertextLen
    ++ ciphertext))))))

/-- `ParsedSealedDeviceKeyFile`. -/
structure ParsedSealedDeviceKeyFile where
  identityBytes : Bytes
  fingerprint : U8Array 32
  nonce : Nonce
  ciphertext : Bytes

/-- The fields of `parse_sealed_device_key_file`, up to its check for
trailing bytes. -/
def takeSealedDeviceKeyFile : DeviceParser ParsedSealedDeviceKeyFile := do
  let magic ← take .invalidFileFormat 6
  guardNot (magic ≠ sealedDeviceKeyFileMagic) .invalidFileFormat
  let version ← takeU8 .invalidFileFormat
  guardNot (version ≠ sealedDeviceKeyFileVersion) .invalidFileFormat
  let identityLen ← takeU32Le .invalidFileFormat
  let identityBytes ← take .invalidFileFormat identityLen.toNat
  let fingerprint ← takeArray .invalidFileFormat 32
  let nonce ← takeArray .invalidFileFormat 24
  let ciphertextLen ← takeU32Le .invalidFileFormat
  let ciphertext ← take .invalidFileFormat ciphertextLen.toNat
  return { identityBytes, fingerprint, nonce, ciphertext }

/-- `parse_sealed_device_key_file`. -/
def parseSealedDeviceKeyFile (bytes : Bytes) : DeviceRes ParsedSealedDeviceKeyFile := do
  let (parsed, rest) ← takeSealedDeviceKeyFile bytes
  rejectIf (rest ≠ []) .invalidFileFormat
  return parsed

/-- `SealedDeviceKeyFile::seal`. -/
def sealKeyFile (draw : Option Nonce) (identity : DeviceIdentity) (keypair : DeviceKeypair)
    (dkek : Key) : DeviceRes Bytes := do
  let rawKeypair := serializeKeypairBytes identity keypair
  let identityBytes ← serializeIdentityBytes identity
  let fingerprint := identityFingerprint platform identity
  let aad ← sealedDeviceKeyFileAad identityBytes fingerprint
  let (ciphertext, nonce) ← orErrUnwind (encrypt platform.cipher draw dkek rawKeypair aad)
    .sealingFailed
  serializeSealedDeviceKeyFile identityBytes fingerprint nonce ciphertext

/-- `SealedDeviceKeyFile::open`. -/
def openKeyFile (bytes : Bytes) (dkek : Key) : DeviceRes (DeviceIdentity × DeviceKeypair) := do
  let parsed ← parseSealedDeviceKeyFile bytes
  let aad ← sealedDeviceKeyFileAad parsed.identityBytes parsed.fingerprint
  let plaintext ← orErr (decrypt platform.cipher dkek parsed.nonce parsed.ciphertext
    aad) .openFailed
  let identity ← deserializeIdentityBytes parsed.identityBytes
  let (deviceId, classicalPublicKey, keypair) ← deserializeKeypairBytes platform.pqc plaintext
  rejectIf (identity.deviceId ≠ deviceId ∨ identity.classicalPublicKey ≠ classicalPublicKey)
    .identityFingerprintMismatch
  let derivedIdentity ← rebuildIdentityFromKeypair platform.pqc identity keypair
  rejectIf (parsed.fingerprint ≠ identityFingerprint platform derivedIdentity)
    .identityFingerprintMismatch
  return (derivedIdentity, keypair)

end File

-- ============================================================ reading back

variable {platform : DevicePlatform} {identity : DeviceIdentity} {keypair : DeviceKeypair}
  {bytes : Bytes} {dkek : Key}

/-- A signing key of an algorithm with a backend, and of its length. -/
theorem tryNewSigningPublicKey_eq_ok {algorithm : SigningAlgorithmId} {key : SigningPublicKey} :
    tryNewSigningPublicKey algorithm bytes = .ok key
      ↔ algorithm = .ed25519V1 ∧ bytes.length = 32 ∧ key = ⟨.ed25519V1, bytes⟩ := by
  cases algorithm with
  | ed25519MlDsa87HybridV1 =>
      constructor
      · intro h
        cases h
      · rintro ⟨h, -⟩
        cases h
  | ed25519V1 =>
      simp only [tryNewSigningPublicKey, tryNewEd25519SigningPublicKey, bind_eq_ok, okOr_eq_ok,
        tryArray_eq_some, Except.ok.injEq]
      constructor
      · rintro ⟨keyBytes, rfl, rfl⟩
        exact ⟨trivial, keyBytes.toList_length, rfl⟩
      · rintro ⟨-, hlen, rfl⟩
        exact ⟨⟨bytes, hlen⟩, rfl, rfl⟩

theorem u32Saturated_toNat {len : Nat} (h : len < 2 ^ 32) : (u32Saturated len).toNat = len := by
  rw [u32Saturated, u32TryFrom_of_lt h, Option.getD_some, toNat_u32_ofNat h]

/-- The key fits its length field, and an Ed25519 key has 32 bytes. -/
def SigningPrivateKey.Sized (key : SigningPrivateKey) : Prop :=
  key.bytes.length < 2 ^ 32 ∧ (key.algorithm = .ed25519V1 → key.bytes.length = 32)

theorem sized_ed25519 (seed : U8Array 32) :
    SigningPrivateKey.Sized ⟨.ed25519V1, seed.toList⟩ :=
  ⟨by rw [seed.toList_length]; decide, fun _ => seed.toList_length⟩

/-- A keypair with a sized signing key is read back as it was written. -/
theorem reads_takeKeypair (hsized : keypair.signingPrivateKey.Sized) :
    Reads takeKeypair (serializeKeypairBytes identity keypair)
      (identity.deviceId, identity.classicalPublicKey, keypair) := by
  obtain ⟨classicalPrivateKey, pqcPrivateKey, ⟨algorithm, key⟩⟩ := keypair
  obtain ⟨hlt, hed25519⟩ := hsized
  have hlen : (u32Saturated key.length).toNat = key.length := u32Saturated_toNat hlt
  have hkey := reads_take DeviceIdentityError.invalidFileFormat key
  rw [← hlen] at hkey
  unfold serializeKeypairBytes
  refine (reads_takeU8 DeviceIdentityError.invalidFileFormat 1).bind ?_
  refine Reads.guardNot (fun h => h rfl) ?_
  refine (reads_takeArray DeviceIdentityError.invalidFileFormat identity.deviceId).bind ?_
  refine (reads_takeArray DeviceIdentityError.invalidFileFormat identity.classicalPublicKey).bind ?_
  refine (reads_takeArray DeviceIdentityError.invalidFileFormat classicalPrivateKey).bind ?_
  refine (reads_takeArray DeviceIdentityError.invalidFileFormat pqcPrivateKey).bind ?_
  refine (reads_takeU16Le DeviceIdentityError.invalidFileFormat algorithm.toU16).bind ?_
  refine @Reads.lift _ _ _ _ algorithm _ _ _ ?_ ?_
  · rw [SigningAlgorithmId.fromU16_toU16]
    rfl
  refine (reads_takeU32Le DeviceIdentityError.invalidFileFormat (u32Saturated key.length)).bind ?_
  refine Reads.guardNot ?_ (hkey.return rfl)
  rintro ⟨halgorithm, hne⟩
  exact hne (hlen.trans (hed25519 halgorithm))

theorem reads_takeSigningKey {key : Option SigningPublicKey}
    (hbytes : signingKeyBytes key = .ok bytes)
    (hkey : ∀ k, key = some k → k.algorithm = .ed25519V1 ∧ k.bytes.length = 32) :
    Reads takeSigningKey bytes key := by
  cases key with
  | none =>
      simp only [signingKeyBytes, pure_eq_ok, Except.ok.injEq] at hbytes
      subst hbytes
      show Reads _ ([0] ++ []) none
      exact (reads_takeU8 DeviceIdentityError.invalidFileFormat 0).bind (Reads.pure none)
  | some key =>
      obtain ⟨halgorithm, hlen⟩ := hkey key rfl
      obtain ⟨algorithm, keyBytes⟩ := key
      obtain rfl : algorithm = .ed25519V1 := halgorithm
      simp only [signingKeyBytes, bind_eq_ok, okOr_eq_ok, u32TryFrom_eq_some, pure_eq_ok,
        Except.ok.injEq] at hbytes
      obtain ⟨len, hlen', rfl⟩ := hbytes
      have hread := reads_take DeviceIdentityError.invalidFileFormat keyBytes
      rw [← hlen'] at hread
      refine (reads_takeU8 DeviceIdentityError.invalidFileFormat 1).bind ?_
      refine (reads_takeU16Le DeviceIdentityError.invalidFileFormat
        SigningAlgorithmId.ed25519V1.toU16).bind ?_
      refine @Reads.lift _ _ _ _ SigningAlgorithmId.ed25519V1 _ _ _ ?_ ?_
      · rw [SigningAlgorithmId.fromU16_toU16]
        rfl
      refine (reads_takeU32Le DeviceIdentityError.invalidFileFormat len).bind ?_
      refine hread.bind_nil ?_
      refine @Reads.lift _ _ _ _ ⟨.ed25519V1, keyBytes⟩ _ _ _ ?_ (Reads.pure _)
      exact tryNewSigningPublicKey_eq_ok.mpr ⟨rfl, hlen, rfl⟩

/-- An identity is read back as it was written. -/
theorem reads_takeIdentity (hbytes : serializeIdentityBytes identity = .ok bytes)
    (hkey : ∀ k, identity.signingPublicKey = some k → k.algorithm = .ed25519V1
      ∧ k.bytes.length = 32) :
    Reads takeIdentity bytes identity := by
  simp only [serializeIdentityBytes, bind_eq_ok, okOr_eq_ok, u32TryFrom_eq_some, pure_eq_ok,
    Except.ok.injEq] at hbytes
  obtain ⟨nameLen, hnameLen, signing, hsigning, rfl⟩ := hbytes
  have hname := reads_take DeviceIdentityError.invalidFileFormat (utf8 identity.displayName)
  rw [← hnameLen] at hname
  refine (reads_takeU8 DeviceIdentityError.invalidFileFormat 1).bind ?_
  refine Reads.guardNot (fun h => h rfl) ?_
  refine (reads_takeArray DeviceIdentityError.invalidFileFormat identity.deviceId).bind ?_
  refine (reads_takeU32Le DeviceIdentityError.invalidFileFormat nameLen).bind ?_
  refine hname.bind ?_
  refine @Reads.lift _ _ _ _ identity.displayName _ _ _ ?_ ?_
  · rw [fromUtf8_utf8]
    rfl
  refine (reads_takeArray DeviceIdentityError.invalidFileFormat identity.classicalPublicKey).bind ?_
  refine (reads_takeArray DeviceIdentityError.invalidFileFormat identity.pqcPublicKey).bind ?_
  refine (reads_takeSigningKey hsigning hkey).bind ?_
  refine (reads_takeU64Le DeviceIdentityError.invalidFileFormat identity.createdAt).bind ?_
  refine (reads_takeU8 DeviceIdentityError.invalidFileFormat
    (deviceTrustStateToU8 identity.trustState)).bind_nil ?_
  exact Reads.lift (deviceTrustStateFromU8_toU8 identity.trustState) (Reads.pure identity)

theorem deserializeIdentityBytes_of_serialize (hvalid : identity.validate = .ok ())
    (hkey : ∀ k, identity.signingPublicKey = some k → k.algorithm = .ed25519V1
      ∧ k.bytes.length = 32)
    (hbytes : serializeIdentityBytes identity = .ok bytes) :
    deserializeIdentityBytes bytes = .ok identity := by
  rw [deserializeIdentityBytes, (reads_takeIdentity hbytes hkey).run]
  simp only [ok_bind, rejectIf_neg _ (fun h : ([] : Bytes) ≠ [] => h rfl), hvalid, pure_eq_ok]

theorem deserializeKeypairBytes_of_serialize {pqc : PqcBackend}
    (hclassical : identity.classicalPublicKey = pqc.x25519Public keypair.classicalPrivateKey)
    (hsized : keypair.signingPrivateKey.Sized) :
    deserializeKeypairBytes pqc (serializeKeypairBytes identity keypair)
      = .ok (identity.deviceId, identity.classicalPublicKey, keypair) := by
  rw [deserializeKeypairBytes, (reads_takeKeypair hsized).run]
  simp only [ok_bind, rejectIf_neg _ (fun h : ([] : Bytes) ≠ [] => h rfl),
    rejectIf_neg _ (not_not.mpr hclassical), pure_eq_ok]

/-- A key file is read back as it was written. -/
theorem parseSealedDeviceKeyFile_of_serialize {identityBytes ciphertext : Bytes}
    {fingerprint : U8Array 32} {nonce : Nonce}
    (h : serializeSealedDeviceKeyFile identityBytes fingerprint nonce ciphertext = .ok bytes) :
    parseSealedDeviceKeyFile bytes = .ok ⟨identityBytes, fingerprint, nonce, ciphertext⟩ := by
  simp only [serializeSealedDeviceKeyFile, bind_eq_ok, okOr_eq_ok, u32TryFrom_eq_some, pure_eq_ok,
    Except.ok.injEq] at h
  obtain ⟨identityLen, hidentityLen, ciphertextLen, hciphertextLen, hbytes⟩ := h
  have hidentity := reads_take DeviceIdentityError.invalidFileFormat identityBytes
  rw [← hidentityLen] at hidentity
  have hciphertext := reads_take DeviceIdentityError.invalidFileFormat ciphertext
  rw [← hciphertextLen] at hciphertext
  have hreads : Reads takeSealedDeviceKeyFile bytes
      ⟨identityBytes, fingerprint, nonce, ciphertext⟩ := by
    rw [← hbytes]
    refine (reads_take DeviceIdentityError.invalidFileFormat sealedDeviceKeyFileMagic).bind ?_
    refine Reads.guardNot (fun h => h rfl) ?_
    refine (reads_takeU8 DeviceIdentityError.invalidFileFormat sealedDeviceKeyFileVersion).bind ?_
    refine Reads.guardNot (fun h => h rfl) ?_
    refine (reads_takeU32Le DeviceIdentityError.invalidFileFormat identityLen).bind ?_
    refine hidentity.bind ?_
    refine (reads_takeArray DeviceIdentityError.invalidFileFormat fingerprint).bind ?_
    refine (reads_takeArray DeviceIdentityError.invalidFileFormat nonce).bind ?_
    refine (reads_takeU32Le DeviceIdentityError.invalidFileFormat ciphertextLen).bind ?_
    exact hciphertext.return rfl
  rw [parseSealedDeviceKeyFile, hreads.run]
  rfl

-- ======================================================== what was sealed

/-- The private keys are those of the public keys the identity carries. -/
structure KeysMatch (pqc : PqcBackend) (identity : DeviceIdentity) (keypair : DeviceKeypair) :
    Prop where
  classical : identity.classicalPublicKey = pqc.x25519Public keypair.classicalPrivateKey
  mlKem : ∃ seed, pqc.mlKemKeypair seed = (identity.pqcPublicKey, keypair.pqcPrivateKey)
  signing : ∀ key, identity.signingPublicKey = some key →
    ∃ seed, ed25519Keypair pqc seed = (key, keypair.signingPrivateKey)

/-- A generated signing key passes its check. -/
theorem validateSigningKey_of_keypair (hcorrect : platform.pqc.Correct) {seed : U8Array 32}
    {publicKey : SigningPublicKey} {privateKey : SigningPrivateKey}
    (hkeys : ed25519Keypair platform.pqc seed = (publicKey, privateKey)) :
    validateSigningKeyMatchesPublic platform.pqc privateKey publicKey = .ok () := by
  obtain ⟨rfl, rfl⟩ := Prod.mk.inj hkeys
  have hsign : signWithDomain platform.pqc ⟨.ed25519V1, seed.toList⟩ deviceEnrollmentSigningDomain
      keyFileCheckMessage
        = .ok ⟨.ed25519V1, (platform.pqc.ed25519Sign seed
            (deviceEnrollmentSigningDomain ++ keyFileCheckMessage)).toList⟩ :=
    sign_eq_ok.mpr ⟨seed, rfl, rfl⟩
  have hverify :=
    verify_of_sign hcorrect seed (deviceEnrollmentSigningDomain ++ keyFileCheckMessage)
  unfold ed25519Keypair at hverify
  rw [validateSigningKeyMatchesPublic, hsign, orErr_ok, ok_bind, verifyWithDomain, hverify]
  rfl

/-- An identity rebuilt has a signing key. -/
theorem signingPublicKey_of_rebuild {derived : DeviceIdentity}
    (h : rebuildIdentityFromKeypair platform.pqc identity keypair = .ok derived) :
    derived.signingPublicKey.isSome := by
  simp only [rebuildIdentityFromKeypair, bind_eq_ok, okOr_eq_ok, pure_eq_ok, Except.ok.injEq] at h
  obtain ⟨key, -, -, -, rfl⟩ := h
  rfl

theorem signingPublicKey_of_open (h : openKeyFile platform bytes dkek = .ok (identity, keypair)) :
    identity.signingPublicKey.isSome := by
  simp only [openKeyFile, bind_eq_ok, pure_eq_ok, Except.ok.injEq, Prod.mk.injEq] at h
  obtain ⟨_, -, _, -, _, -, _, -, _, -, -, -, derived, hrebuild, -, -, rfl, -⟩ := h
  exact signingPublicKey_of_rebuild hrebuild

/-- Of a sealed key file, opening is left with rebuilding the identity and
checking its fingerprint. -/
theorem openKeyFile_of_seal {draw : Option Nonce} (hvalid : identity.validate = .ok ())
    (hclassical : identity.classicalPublicKey
      = platform.pqc.x25519Public keypair.classicalPrivateKey)
    {seed : U8Array 32} (hsigning : keypair.signingPrivateKey = ⟨.ed25519V1, seed.toList⟩)
    (hkey : ∀ k, identity.signingPublicKey = some k → k.algorithm = .ed25519V1
      ∧ k.bytes.length = 32)
    (hseal : sealKeyFile platform draw identity keypair dkek = .ok bytes) :
    openKeyFile platform bytes dkek = (do
      let derivedIdentity ← rebuildIdentityFromKeypair platform.pqc identity keypair
      rejectIf (identityFingerprint platform identity
        ≠ identityFingerprint platform derivedIdentity)
        .identityFingerprintMismatch
      return (derivedIdentity, keypair)) := by
  simp only [sealKeyFile, bind_eq_ok, orErrUnwind_eq_ok] at hseal
  obtain ⟨identityBytes, hidentity, aad, haad, ⟨ciphertext, nonce⟩, hencrypt, hserialize⟩ := hseal
  obtain ⟨-, hciphertext⟩ := encrypt_eq_ok.mp hencrypt
  have hdecrypt := decrypt_of_encrypt hciphertext
  have hsized : keypair.signingPrivateKey.Sized := by
    rw [hsigning]
    exact sized_ed25519 seed
  have hidentity' := deserializeIdentityBytes_of_serialize hvalid hkey hidentity
  have hkeypair := deserializeKeypairBytes_of_serialize hclassical hsized
  have hsame : ¬ (identity.deviceId ≠ identity.deviceId
      ∨ identity.classicalPublicKey ≠ identity.classicalPublicKey) :=
    fun h => h.elim (· rfl) (· rfl)
  rw [openKeyFile, parseSealedDeviceKeyFile_of_serialize hserialize]
  simp only [ok_bind, haad, hdecrypt, orErr_ok, hidentity', hkeypair, rejectIf_neg _ hsame]

/-- A sealed key file with a signing key opens to what was sealed, its
ML-KEM keys whatever they are. -/
theorem openKeyFile_of_signing (hcorrect : platform.pqc.Correct) {draw : Option Nonce}
    (hvalid : identity.validate = .ok ())
    (hclassical : identity.classicalPublicKey
      = platform.pqc.x25519Public keypair.classicalPrivateKey)
    {key : SigningPublicKey} {seed : U8Array 32} (hkey : identity.signingPublicKey = some key)
    (hseed : ed25519Keypair platform.pqc seed = (key, keypair.signingPrivateKey))
    (hseal : sealKeyFile platform draw identity keypair dkek = .ok bytes) :
    openKeyFile platform bytes dkek = .ok (identity, keypair) := by
  obtain ⟨hpublic, hprivate⟩ := Prod.mk.inj hseed
  have hed25519 : ∀ k, identity.signingPublicKey = some k →
      k.algorithm = .ed25519V1 ∧ k.bytes.length = 32 := by
    intro k hk
    rw [hkey, Option.some.injEq] at hk
    subst hk
    rw [← hpublic]
    exact ⟨rfl, List.Vector.toList_length _⟩
  have hrebuild : rebuildIdentityFromKeypair platform.pqc identity keypair = .ok identity := by
    rw [rebuildIdentityFromKeypair, hkey, okOr_some, ok_bind,
      validateSigningKey_of_keypair hcorrect hseed, ok_bind, ← hclassical, ← hkey]
    rfl
  have hfingerprint : ¬ identityFingerprint platform identity
    ≠ identityFingerprint platform identity :=
    fun h => h rfl
  rw [openKeyFile_of_seal hvalid hclassical hprivate.symm hed25519 hseal, hrebuild, ok_bind,
    rejectIf_neg _ hfingerprint]
  rfl

/-- A sealed key file opens to the identity and the keypair in it exactly
when the identity has a signing key. -/
theorem openKeyFile_of_seal_iff (hcorrect : platform.pqc.Correct) {draw : Option Nonce}
    (hvalid : identity.validate = .ok ()) (hmatch : KeysMatch platform.pqc identity keypair)
    (hseal : sealKeyFile platform draw identity keypair dkek = .ok bytes) :
    openKeyFile platform bytes dkek = .ok (identity, keypair)
      ↔ identity.signingPublicKey.isSome := by
  refine ⟨signingPublicKey_of_open, fun hsome => ?_⟩
  obtain ⟨key, hkey⟩ := Option.isSome_iff_exists.mp hsome
  obtain ⟨seed, hseed⟩ := hmatch.signing key hkey
  exact openKeyFile_of_signing hcorrect hvalid hmatch.classical hkey hseed hseal

-- ============================================================== samples

theorem displayName_of_generate {platform : TransferPlatform} {draws : GenerateDraws}
    {name : String}
    (h : generate platform draws name = .ok (identity, keypair)) : identity.displayName = name := by
  simp only [generate, x25519Keypair, bind_eq_ok, pure_eq_ok, Except.ok.injEq, Prod.mk.injEq] at h
  obtain ⟨-, -, createdAt, -, rfl, rfl⟩ := h
  rfl

theorem trustState_of_generate {platform : TransferPlatform} {draws : GenerateDraws} {name : String}
    (h : generate platform draws name = .ok (identity, keypair)) :
    identity.trustState = .untrusted := by
  simp only [generate, x25519Keypair, bind_eq_ok, pure_eq_ok, Except.ok.injEq, Prod.mk.injEq] at h
  obtain ⟨-, -, createdAt, -, rfl, rfl⟩ := h
  rfl

/-- A generated identity is valid. -/
theorem validate_of_generate {platform : TransferPlatform} {draws : GenerateDraws} {name : String}
    (h : generate platform draws name = .ok (identity, keypair)) : identity.validate = .ok () := by
  simp only [generate, x25519Keypair, bind_eq_ok, rejectIf_eq_ok, pure_eq_ok, Except.ok.injEq,
    Prod.mk.injEq] at h
  obtain ⟨-, hname, createdAt, -, rfl, rfl⟩ := h
  rw [DeviceIdentity.validate, rejectIf_neg _ hname, ok_bind, rejectIf_neg]
  rintro ⟨-, hnone⟩
  cases hnone

theorem length_serializeKeypairBytes :
    (serializeKeypairBytes identity keypair).length
      = 2487 + keypair.signingPrivateKey.bytes.length := by
  simp only [serializeKeypairBytes, List.length_append, List.length_singleton,
    List.Vector.toList_length, length_leU16, length_leU32]
  omega

/-- An identity with its name and its key short enough can be written. -/
theorem exists_serializeIdentityBytes (hname : (utf8 identity.displayName).length < 2 ^ 31)
    (hkey : ∀ key, identity.signingPublicKey = some key → key.bytes.length < 2 ^ 30) :
    ∃ bytes, serializeIdentityBytes identity = .ok bytes ∧ bytes.length < 2 ^ 32 := by
  obtain ⟨signing, hsigning, hlen⟩ : ∃ signing,
      signingKeyBytes identity.signingPublicKey = .ok signing ∧ signing.length < 2 ^ 30 + 8 := by
    cases hpublic : identity.signingPublicKey with
    | none => exact ⟨[0], rfl, by decide⟩
    | some key =>
        have hkeyLen := hkey key hpublic
        refine ⟨[1] ++ (leU16 key.algorithm.toU16
          ++ (leU32 (UInt32.ofNat key.bytes.length) ++ key.bytes)), ?_, ?_⟩
        · rw [signingKeyBytes, u32TryFrom_of_lt (by omega)]
          rfl
        · simp only [List.length_append, List.length_singleton, length_leU16, length_leU32]
          omega
  have hnameLen : (utf8 identity.displayName).length < 2 ^ 32 := by omega
  cases h : serializeIdentityBytes identity with
  | error e =>
      rw [serializeIdentityBytes, u32TryFrom_of_lt hnameLen, okOr_some, ok_bind, hsigning] at h
      cases h
  | ok bytes =>
      refine ⟨bytes, rfl, ?_⟩
      rw [serializeIdentityBytes, u32TryFrom_of_lt hnameLen, okOr_some, ok_bind, hsigning, ok_bind,
        pure_eq_ok, Except.ok.injEq] at h
      rw [← h]
      simp only [List.length_append, List.length_singleton, List.Vector.toList_length, length_leU32,
        length_leU64]
      omega

/-- Sealing goes through whenever the name and the keys are short enough
and a nonce is drawn. -/
theorem exists_sealKeyFile (nonce : Nonce)
    (hname : (utf8 identity.displayName).length < 2 ^ 31)
    (hkey : ∀ key, identity.signingPublicKey = some key → key.bytes.length < 2 ^ 30)
    (hsigning : keypair.signingPrivateKey.bytes.length < 2 ^ 31) (dkek : Key) :
    ∃ bytes, sealKeyFile platform (some nonce) identity keypair dkek = .ok bytes := by
  obtain ⟨identityBytes, hidentity, hlen⟩ := exists_serializeIdentityBytes hname hkey
  have hplain := @length_serializeKeypairBytes identity keypair
  have haad : sealedDeviceKeyFileAad identityBytes (identityFingerprint platform identity)
      = .ok (sealedDeviceKeyFileAadDomain ++ (leU32 (UInt32.ofNat identityBytes.length)
        ++ (identityBytes ++ (identityFingerprint platform identity).toList))) := by
    rw [sealedDeviceKeyFileAad, u32TryFrom_of_lt hlen]
    rfl
  generalize sealedDeviceKeyFileAadDomain ++ (leU32 (UInt32.ofNat identityBytes.length)
    ++ (identityBytes ++ (identityFingerprint platform identity).toList)) = aad at haad
  obtain ⟨ciphertext, hciphertext⟩ : ∃ ciphertext, platform.cipher.encrypt dkek nonce
      (serializeKeypairBytes identity keypair) aad = some ciphertext :=
    exists_encrypt dkek nonce aad (by omega)
  have hencrypt : encrypt platform.cipher (some nonce) dkek
    (serializeKeypairBytes identity keypair) aad
      = .ok (ciphertext, nonce) := encrypt_eq_ok.mpr ⟨rfl, hciphertext⟩
  have hsealed := platform.cipher.length_encrypt hciphertext
  have htag : tagLen = 16 := rfl
  cases h : sealKeyFile platform (some nonce) identity keypair dkek with
  | ok bytes => exact ⟨bytes, rfl⟩
  | error e =>
      have hcipherLen : ciphertext.length < 2 ^ 32 := by omega
      simp only [sealKeyFile, hidentity, ok_bind, haad, hencrypt, orErrUnwind_ok,
        serializeSealedDeviceKeyFile, u32TryFrom_of_lt hlen, u32TryFrom_of_lt hcipherLen, okOr_some,
        pure_eq_ok, reduceCtorEq] at h

def sampleNonce : Nonce := List.Vector.replicate 24 0
def sampleDkek : Key := List.Vector.replicate 32 0

/-- A generated device: its identity is valid, its keys match, and it can be
sealed with any of its fields changed but the name and, unless it is left
out, the signing key. -/
theorem sample_device (platform : DevicePlatform) :
    ∃ identity keypair,
      generate platform.toTransferPlatform sampleGenerateDraws "device" = .ok (identity, keypair)
      ∧ identity.validate = .ok () ∧ KeysMatch platform.pqc identity keypair
      ∧ ∀ identity' : DeviceIdentity, identity'.displayName = identity.displayName →
        (∀ key, identity'.signingPublicKey = some key → identity.signingPublicKey = some key) →
        ∃ bytes, sealKeyFile platform (some sampleNonce) identity' keypair sampleDkek
          = .ok bytes := by
  obtain ⟨identity, keypair, hgenerate⟩ := sample_generated platform.toTransferPlatform
  obtain ⟨hclassical, hpqc, hpublic, hprivate⟩ := generate_eq_ok hgenerate
  have hname : identity.displayName = "device" := displayName_of_generate hgenerate
  have hmatch : KeysMatch platform.pqc identity keypair := by
    refine ⟨hclassical, ⟨_, hpqc⟩, fun key hkey => ⟨sampleGenerateDraws.signing, ?_⟩⟩
    rw [hpublic, Option.some.injEq] at hkey
    rw [← hkey, hprivate]
  refine ⟨identity, keypair, hgenerate, validate_of_generate hgenerate, hmatch, ?_⟩
  intro identity' hname' hkey'
  refine exists_sealKeyFile _ ?_ ?_ ?_ _
  · rw [hname', hname]
    decide
  · intro key hkey
    have hsame := hkey' key hkey
    rw [hpublic, Option.some.injEq] at hsame
    rw [← hsame, ed25519Keypair, List.Vector.toList_length]
    decide
  · rw [hprivate, ed25519Keypair, List.Vector.toList_length]
    decide

def DevicePlatform.transparent : DevicePlatform where
  toTransferPlatform := TransferPlatform.transparent
  blake2b256 _ := List.Vector.replicate 32 0

/-- A generated device and its sealed key file. -/
theorem openKeyFile_of_seal_iff_of_generated :
    ∃ (identity : DeviceIdentity) (keypair : DeviceKeypair) (bytes : Bytes),
      generate TransferPlatform.transparent sampleGenerateDraws "device" = .ok (identity, keypair)
      ∧ sealKeyFile DevicePlatform.transparent
        (some sampleNonce) identity keypair sampleDkek = .ok bytes
      ∧ openKeyFile DevicePlatform.transparent bytes sampleDkek = .ok (identity, keypair) := by
  obtain ⟨identity, keypair, hgenerate, hvalid, hmatch, hsealed⟩ :=
    sample_device DevicePlatform.transparent
  obtain ⟨bytes, hseal⟩ := hsealed identity rfl fun _ h => h
  refine ⟨identity, keypair, bytes, hgenerate, hseal, ?_⟩
  apply (openKeyFile_of_seal_iff TransferPlatform.transparent_correct hvalid hmatch hseal).mpr
  rw [(generate_eq_ok hgenerate).2.2.1]
  rfl

/-- A device without a signing key: its file is sealed, and
refused for good. -/
theorem sealed_unopenable :
    ∃ (identity : DeviceIdentity) (keypair : DeviceKeypair) (bytes : Bytes),
      identity.validate = .ok () ∧ KeysMatch DevicePlatform.transparent.pqc identity keypair
      ∧ sealKeyFile DevicePlatform.transparent
        (some sampleNonce) identity keypair sampleDkek = .ok bytes
      ∧ openKeyFile DevicePlatform.transparent bytes sampleDkek = .error .missingSigningKey := by
  obtain ⟨device, keypair, hgenerate, -, hmatch, hsealed⟩ :=
    sample_device DevicePlatform.transparent
  generalize hidentity : { device with signingPublicKey := none } = identity
  have hname : identity.displayName = device.displayName := by rw [← hidentity]
  have hnone : identity.signingPublicKey = none := by rw [← hidentity]
  have hclassical : identity.classicalPublicKey
      = DevicePlatform.transparent.pqc.x25519Public keypair.classicalPrivateKey := by
    rw [← hidentity]
    exact hmatch.classical
  have hnoKey : ∀ (p : SigningPublicKey → Prop) k, identity.signingPublicKey = some k → p k := by
    intro p k hk
    rw [hnone] at hk
    cases hk
  have hvalid : identity.validate = .ok () := by
    rw [DeviceIdentity.validate, hname, displayName_of_generate hgenerate,
      rejectIf_neg _ (by decide : ¬ "device" = ""), ok_bind, rejectIf_neg]
    rintro ⟨h | h, -⟩
    · rw [← hidentity, trustState_of_generate hgenerate] at h
      cases h
    · rw [← hidentity, trustState_of_generate hgenerate] at h
      cases h
  obtain ⟨bytes, hseal⟩ := hsealed identity hname (hnoKey _)
  refine ⟨identity, keypair, bytes, hvalid, ⟨hclassical, ?_, hnoKey _⟩, hseal, ?_⟩
  · rw [← hidentity]
    exact hmatch.mlKem
  · have hprivate := (generate_eq_ok hgenerate).2.2.2
    rw [openKeyFile_of_seal hvalid hclassical hprivate (hnoKey _) hseal, rebuildIdentityFromKeypair,
      hnone]
    rfl

end MeissnerSeal
