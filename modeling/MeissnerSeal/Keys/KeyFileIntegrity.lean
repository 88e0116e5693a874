/-
What an opened key file says about its keys, and about its bytes.

# Consistency

Opening compares the X25519 key with the one it derives and signs with the
Ed25519 key. Of the ML-KEM key it compares nothing: what it returns is one
device's exactly when the file's own ML-KEM keys are a pair
(`selfConsistent_of_open_iff`).

# Bytes

The parser leaves no freedom (`serializeSealedDeviceKeyFile_of_parse`) and
the associated data determines what precedes the nonce
(`sealedDeviceKeyFileAad_inj`). Under an ideal cipher a file that opens was
sealed as it is (`sealed_of_open`).
-/
import MeissnerSeal.Keys.KeyFile
import MeissnerSeal.Crypto.Sealing

namespace MeissnerSeal

open ByteCodec ExceptRules ByteParser

variable {platform : DevicePlatform} {identity : DeviceIdentity} {keypair : DeviceKeypair}
  {bytes : Bytes} {dkek : Key}

-- ================================================= what opening establishes

/-- What `openKeyFile` has found out about a file it opens. -/
structure Opened (platform : DevicePlatform) (bytes : Bytes) (dkek : Key)
    (parsed : ParsedSealedDeviceKeyFile) (aad plaintext : Bytes) (identity : DeviceIdentity)
    (keypair : DeviceKeypair) : Prop where
  parses : parseSealedDeviceKeyFile bytes = .ok parsed
  bound : sealedDeviceKeyFileAad parsed.identityBytes parsed.fingerprint = .ok aad
  decrypts : decrypt platform.cipher dkek parsed.nonce parsed.ciphertext aad = .ok plaintext
  identityRead : deserializeIdentityBytes parsed.identityBytes = .ok identity
  keypairRead : deserializeKeypairBytes platform.pqc plaintext
    = .ok (identity.deviceId, identity.classicalPublicKey, keypair)
  classical : identity.classicalPublicKey = platform.pqc.x25519Public keypair.classicalPrivateKey
  signing : ∃ key, identity.signingPublicKey = some key
    ∧ validateSigningKeyMatchesPublic platform.pqc keypair.signingPrivateKey key = .ok ()

/-- A keypair read back carries the public key of its X25519 key. -/
theorem classical_of_deserializeKeypair {deviceId : DeviceId} {publicKey : X25519PublicKey}
    (h : deserializeKeypairBytes platform.pqc bytes = .ok (deviceId, publicKey, keypair)) :
    publicKey = platform.pqc.x25519Public keypair.classicalPrivateKey := by
  simp only [deserializeKeypairBytes, bind_eq_ok, rejectIf_eq_ok, pure_eq_ok, Except.ok.injEq,
    Prod.mk.injEq, not_not] at h
  obtain ⟨_, -, -, -, -, hclassical, -, rfl, rfl⟩ := h
  exact hclassical

theorem rebuild_eq_ok {derived : DeviceIdentity} :
    rebuildIdentityFromKeypair platform.pqc identity keypair = .ok derived
      ↔ ∃ key, identity.signingPublicKey = some key
        ∧ validateSigningKeyMatchesPublic platform.pqc keypair.signingPrivateKey key = .ok ()
        ∧ derived = { identity with
            classicalPublicKey := platform.pqc.x25519Public keypair.classicalPrivateKey
            signingPublicKey := some key } := by
  simp only [rebuildIdentityFromKeypair, bind_eq_ok, okOr_eq_ok, pure_eq_ok, Except.ok.injEq]
  constructor
  · rintro ⟨key, hkey, ⟨⟩, hvalid, rfl⟩
    exact ⟨key, hkey, hvalid, rfl⟩
  · rintro ⟨key, hkey, hvalid, rfl⟩
    exact ⟨key, hkey, (), hvalid, rfl⟩

/-- The identity rebuilt is the one in the file. -/
theorem Opened.of_open (h : openKeyFile platform bytes dkek = .ok (identity, keypair)) :
    ∃ parsed aad plaintext, Opened platform bytes dkek parsed aad plaintext identity keypair := by
  simp only [openKeyFile, bind_eq_ok, rejectIf_eq_ok, orErr_eq_ok, not_or, not_not, pure_eq_ok,
    Except.ok.injEq, Prod.mk.injEq] at h
  obtain ⟨parsed, hparsed, aad, haad, plaintext, hplaintext, stored, hstored,
    ⟨deviceId, publicKey, keypair'⟩, hkeypair, -, ⟨hid, hpublic⟩, derived, hrebuild, -, -, hderived,
    hsame⟩ := h
  obtain rfl : keypair' = keypair := hsame
  obtain rfl : stored.deviceId = deviceId := hid
  obtain rfl : stored.classicalPublicKey = publicKey := hpublic
  have hclassical := classical_of_deserializeKeypair hkeypair
  obtain ⟨key, hkey, hvalid, hrebuilt⟩ := rebuild_eq_ok.mp hrebuild
  have hidentity : identity = stored := by
    rw [← hderived, hrebuilt, ← hclassical, ← hkey]
  subst hidentity
  exact ⟨parsed, aad, plaintext, hparsed, haad, hplaintext, hstored, hkeypair,
    hclassical, key, hkey, hvalid⟩

-- ============================================================= consistency

/-- The identity and the keypair a file holds, before they are compared. -/
def storedKeys (platform : DevicePlatform) (bytes : Bytes) (dkek : Key) :
    DeviceRes (DeviceIdentity × DeviceKeypair) := do
  let parsed ← parseSealedDeviceKeyFile bytes
  let aad ← sealedDeviceKeyFileAad parsed.identityBytes parsed.fingerprint
  let plaintext ← orErr (decrypt platform.cipher dkek parsed.nonce parsed.ciphertext
    aad) .openFailed
  let identity ← deserializeIdentityBytes parsed.identityBytes
  let (_, _, keypair) ← deserializeKeypairBytes platform.pqc plaintext
  return (identity, keypair)

theorem Opened.storedKeys {parsed : ParsedSealedDeviceKeyFile} {aad plaintext : Bytes}
    (h : Opened platform bytes dkek parsed aad plaintext identity keypair) :
    storedKeys platform bytes dkek = .ok (identity, keypair) := by
  simp only [MeissnerSeal.storedKeys, h.parses, h.bound, h.decrypts, h.identityRead,
    h.keypairRead, ok_bind, orErr_ok, pure_eq_ok]

/-- The file's ML-KEM keys are a pair. -/
def MlKemPaired (platform : DevicePlatform) (bytes : Bytes) (dkek : Key) : Prop :=
  ∀ identity keypair, storedKeys platform bytes dkek = .ok (identity, keypair) →
    ∃ seed, platform.pqc.mlKemKeypair seed = (identity.pqcPublicKey, keypair.pqcPrivateKey)

/-- The signing seed in the file, and the public signing key beside it. -/
def StoredSigning (platform : DevicePlatform) (bytes : Bytes) (dkek : Key) (seed key : U8Array 32) :
    Prop :=
  ∃ identity keypair, storedKeys platform bytes dkek = .ok (identity, keypair)
    ∧ keypair.signingPrivateKey = ⟨.ed25519V1, seed.toList⟩
    ∧ identity.signingPublicKey = some ⟨.ed25519V1, key.toList⟩

/-- What strict verification promises of the keys in play: a signature is
good under the public key of its seed and under no other. -/
def BindsKeys (pqc : PqcBackend) (asked : U8Array 32 → U8Array 32 → Prop) : Prop :=
  ∀ seed key message, asked seed key →
    pqc.verifyStrict key message (pqc.ed25519Sign seed message) = true →
      key = pqc.ed25519Public seed

/-- The identity and the keypair are one device's: each public key belongs
to its private key, and what a sender encapsulates to the identity the
keypair turns into the sender's transfer key. -/
structure SelfConsistent (platform : DevicePlatform) (identity : DeviceIdentity)
    (keypair : DeviceKeypair) : Prop where
  keys : KeysMatch platform.pqc identity keypair
  decapsulates : ∀ draw ephemeral transcriptHash, ∃ ciphertext secret,
    platform.pqc.mlKemEncapsulate identity.pqcPublicKey draw = some (ciphertext, secret)
      ∧ platform.pqc.mlKemDecapsulate keypair.pqcPrivateKey ciphertext = some secret
      ∧ receiveTransferKey platform.toTransferPlatform keypair.classicalPrivateKey
          identity.classicalPublicKey (platform.pqc.x25519Public ephemeral) ciphertext
          keypair.pqcPrivateKey transcriptHash
        = deriveTransferKey platform.toTransferPlatform ephemeral
          (platform.pqc.x25519Public ephemeral) identity.classicalPublicKey ciphertext secret
          transcriptHash

theorem SelfConsistent.of_match (hagrees : platform.pqc.Agrees)
    (hkeys : KeysMatch platform.pqc identity keypair) :
    SelfConsistent platform identity keypair := by
  refine ⟨hkeys, fun draw ephemeral transcriptHash => ?_⟩
  obtain ⟨seed, hseed⟩ := hkeys.mlKem
  obtain ⟨ciphertext, secret, hencapsulate, hdecapsulate⟩ := hagrees.encapsulate seed draw
  rw [hseed] at hencapsulate hdecapsulate
  refine ⟨ciphertext, secret, hencapsulate, hdecapsulate, ?_⟩
  rw [hkeys.classical]
  exact @receiveTransferKey_eq_derive platform.toTransferPlatform hagrees ephemeral _ _ _ _
    hdecapsulate transcriptHash

/-- A signing key that passes its check: the private key is an Ed25519
seed whose signature the public key accepts. -/
theorem seed_of_validateSigningKey {privateKey : SigningPrivateKey} {publicKey : SigningPublicKey}
    (h : validateSigningKeyMatchesPublic platform.pqc privateKey publicKey = .ok ()) :
    ∃ seed key : U8Array 32, privateKey = ⟨.ed25519V1, seed.toList⟩
      ∧ publicKey = ⟨.ed25519V1, key.toList⟩
      ∧ platform.pqc.verifyStrict key (deviceEnrollmentSigningDomain ++ keyFileCheckMessage)
          (platform.pqc.ed25519Sign seed (deviceEnrollmentSigningDomain ++ keyFileCheckMessage))
        = true := by
  simp only [validateSigningKeyMatchesPublic, signWithDomain, verifyWithDomain, bind_eq_ok,
    orErr_eq_ok] at h
  obtain ⟨signature, hsign, hverify⟩ := h
  obtain ⟨seed, hprivate, rfl⟩ := sign_eq_ok.mp hsign
  obtain ⟨algorithm, keyBytes⟩ := publicKey
  cases algorithm with
  | ed25519MlDsa87HybridV1 =>
      cases hverify
  | ed25519V1 =>
      simp only [verify, bind_eq_ok, okOr_eq_ok, tryArray_eq_some, rejectIf_eq_ok,
        Bool.not_eq_false] at hverify
      obtain ⟨-, -, key, rfl, signatureBytes, hsignature, -, -, hstrict⟩ := hverify
      obtain rfl := List.Vector.toList_injective hsignature
      exact ⟨seed, key, hprivate, rfl, hstrict⟩

/-- What a key file opens to is one device's exactly when the ML-KEM keys
it holds are a pair. -/
theorem selfConsistent_of_open_iff (hagrees : platform.pqc.Agrees)
    (hbinds : BindsKeys platform.pqc (StoredSigning platform bytes dkek))
    (hopen : openKeyFile platform bytes dkek = .ok (identity, keypair)) :
    SelfConsistent platform identity keypair ↔ MlKemPaired platform bytes dkek := by
  obtain ⟨parsed, aad, plaintext, hopened⟩ := Opened.of_open hopen
  have hstored := hopened.storedKeys
  constructor
  · intro hconsistent identity' keypair' hstored'
    rw [hstored, Except.ok.injEq, Prod.mk.injEq] at hstored'
    rw [← hstored'.1, ← hstored'.2]
    exact hconsistent.keys.mlKem
  · intro hpaired
    refine SelfConsistent.of_match hagrees ⟨hopened.classical, hpaired _ _ hstored, ?_⟩
    intro key hkey
    obtain ⟨key', hkey', hvalid⟩ := hopened.signing
    rw [hkey', Option.some.injEq] at hkey
    subst hkey
    obtain ⟨seed, publicBytes, hprivate, rfl, hverify⟩ := seed_of_validateSigningKey hvalid
    have hpublic := hbinds seed publicBytes _ ⟨identity, keypair, hstored, hprivate, hkey'⟩ hverify
    exact ⟨seed, by rw [ed25519Keypair, hpublic, hprivate]⟩

/-- Cryptography that tells ML-KEM and Ed25519 keys apart: keys and signatures
are the seed and zeros, what is encapsulated is the head of the key. -/
def DevicePlatform.keyed : DevicePlatform where
  toPlatform := TransferPlatform.transparent.toPlatform
  pqc :=
    { TransferPlatform.transparent.pqc with
      mlKemKeypair := fun seed => (packed 1184 seed.toList, packed 2400 seed.toList)
      mlKemEncapsulate := fun publicKey _ =>
        some (List.Vector.replicate 1088 0, packed 32 publicKey.toList)
      mlKemDecapsulate := fun privateKey _ => some (packed 32 privateKey.toList)
      ed25519Sign := fun seed _ => packed 64 seed.toList
      verifyStrict := fun key _ signature => signature = packed 64 key.toList }
  blake2b256 := packed 32

theorem packed_packed {n k : Nat} (h : k ≤ n) (bytes : Bytes) :
    packed k (packed n bytes).toList = packed k bytes := by
  apply List.Vector.toList_injective
  have hfits : k - (resizeZero bytes n).length = 0 := by
    rw [length_resizeZero]
    omega
  calc resizeZero (resizeZero bytes n) k
      = (resizeZero bytes n).take k := by
        rw [resizeZero, hfits, List.replicate_zero, List.append_nil]
    _ = resizeZero bytes k := by
        rw [resizeZero, resizeZero, List.take_append, List.take_take, Nat.min_eq_left h,
          List.length_take, List.take_replicate]
        congr 2
        omega

theorem DevicePlatform.keyed_correct : DevicePlatform.keyed.pqc.Correct where
  diffieHellman_comm _ _ := rfl
  contributory _ _ := rfl
  x25519Public_ne := TransferPlatform.transparent_correct.x25519Public_ne
  encapsulate seed _ := by
    refine ⟨_, _, rfl, ?_⟩
    show some (packed 32 (packed 2400 seed.toList).toList)
      = some (packed 32 (packed 1184 seed.toList).toList)
    rw [packed_packed (by decide), packed_packed (by decide)]
  isVerifyingKey _ := rfl
  verify_sign seed _ := decide_eq_true rfl

theorem DevicePlatform.keyed_binds (asked : U8Array 32 → U8Array 32 → Prop) :
    BindsKeys DevicePlatform.keyed.pqc asked := by
  intro seed key message _ hverify
  have hsame : packed 64 seed.toList = packed 64 key.toList := of_decide_eq_true hverify
  have hheads := congrArg (fun v : U8Array 64 => packed 32 v.toList) hsame
  simp only [packed_packed (by decide : 32 ≤ 64)] at hheads
  have hfull : ∀ v : U8Array 32, packed 32 v.toList = v := by
    intro v
    apply List.Vector.toList_injective
    show resizeZero v.toList 32 = v.toList
    rw [resizeZero_of_le (by rw [v.toList_length]), v.toList_length, Nat.sub_self,
      List.replicate_zero, List.append_nil]
  rw [hfull, hfull] at hheads
  exact hheads.symm

/-- A generated device's key file: what it opens to is the device's. -/
theorem selfConsistent_of_open_iff_of_generated :
    ∃ (identity : DeviceIdentity) (keypair : DeviceKeypair) (bytes : Bytes),
      openKeyFile DevicePlatform.keyed bytes sampleDkek = .ok (identity, keypair)
      ∧ (SelfConsistent DevicePlatform.keyed identity keypair
        ↔ MlKemPaired DevicePlatform.keyed bytes sampleDkek)
      ∧ MlKemPaired DevicePlatform.keyed bytes sampleDkek := by
  obtain ⟨identity, keypair, hgenerate, hvalid, hmatch, hsealed⟩ :=
    sample_device DevicePlatform.keyed
  obtain ⟨bytes, hseal⟩ := hsealed identity rfl fun _ h => h
  have hkey := (generate_eq_ok hgenerate).2.2.1
  obtain ⟨seed, hseed⟩ := hmatch.signing _ hkey
  have hopen := openKeyFile_of_signing DevicePlatform.keyed_correct hvalid
    hmatch.classical hkey hseed
    hseal
  have hiff := selfConsistent_of_open_iff DevicePlatform.keyed_correct.toAgrees
    (DevicePlatform.keyed_binds _) hopen
  exact ⟨identity, keypair, bytes, hopen, hiff,
    hiff.mp (SelfConsistent.of_match DevicePlatform.keyed_correct.toAgrees hmatch)⟩

/-- An identity with another device's ML-KEM key is sealed with a keypair,
and opened: what is encapsulated to it the keypair does not decapsulate. -/
theorem opened_undecapsulable :
    ∃ (identity : DeviceIdentity) (keypair : DeviceKeypair) (bytes : Bytes),
      openKeyFile DevicePlatform.keyed bytes sampleDkek = .ok (identity, keypair)
      ∧ (∀ draw ciphertext secret,
        DevicePlatform.keyed.pqc.mlKemEncapsulate identity.pqcPublicKey draw = some
          (ciphertext, secret) →
        DevicePlatform.keyed.pqc.mlKemDecapsulate keypair.pqcPrivateKey ciphertext ≠ some secret)
      ∧ ¬ SelfConsistent DevicePlatform.keyed identity keypair := by
  obtain ⟨device, keypair, hgenerate, hvalid, hmatch, hsealed⟩ := sample_device DevicePlatform.keyed
  obtain ⟨-, hpqc, hkey, -⟩ := generate_eq_ok hgenerate
  obtain ⟨seed, hseed⟩ := hmatch.signing _ hkey
  -- the ML-KEM key of the device whose seed is 64 ones
  generalize hother : (DevicePlatform.keyed.pqc.mlKemKeypair (List.Vector.replicate 64 1)).1 = other
  generalize hidentity : { device with pqcPublicKey := other } = identity
  have hvalid' : identity.validate = .ok () := by
    rw [← hidentity]
    exact hvalid
  have hclassical : identity.classicalPublicKey
      = DevicePlatform.keyed.pqc.x25519Public keypair.classicalPrivateKey := by
    rw [← hidentity]
    exact hmatch.classical
  have hkey' : identity.signingPublicKey = device.signingPublicKey := by rw [← hidentity]
  obtain ⟨bytes, hseal⟩ := hsealed identity (by rw [← hidentity]) fun k hk => hkey' ▸ hk
  have hopen := openKeyFile_of_signing DevicePlatform.keyed_correct hvalid' hclassical
    (hkey'.trans hkey) hseed hseal
  have hmismatch : ∀ draw ciphertext secret,
      DevicePlatform.keyed.pqc.mlKemEncapsulate identity.pqcPublicKey draw
        = some (ciphertext, secret) →
      DevicePlatform.keyed.pqc.mlKemDecapsulate keypair.pqcPrivateKey ciphertext ≠ some secret := by
    intro draw ciphertext secret hencapsulate hdecapsulate
    have hsecret : packed 32 identity.pqcPublicKey.toList = secret :=
      (Prod.mk.inj (Option.some.inj hencapsulate)).2
    have hsecret' : packed 32 keypair.pqcPrivateKey.toList = secret := Option.some.inj hdecapsulate
    have hprivate : packed 2400 sampleGenerateDraws.mlKem.toList = keypair.pqcPrivateKey :=
      (Prod.mk.inj hpqc).2
    have hpublic : packed 1184 (List.Vector.replicate 64 (1 : UInt8)).toList
        = identity.pqcPublicKey := by
      rw [← hidentity]
      exact hother
    rw [← hpublic, packed_packed (by decide)] at hsecret
    rw [← hprivate, packed_packed (by decide), ← hsecret] at hsecret'
    exact absurd hsecret' (by decide)
  refine ⟨identity, keypair, bytes, hopen, hmismatch, fun hconsistent => ?_⟩
  obtain ⟨ciphertext, secret, hencapsulate, hdecapsulate, -⟩ := hconsistent.decapsulates
    (List.Vector.replicate 32 0) (List.Vector.replicate 32 0) (List.Vector.replicate 32 0)
  exact hmismatch _ _ _ hencapsulate hdecapsulate

-- ================================================================= bytes

/-- What was parsed is what is written. -/
theorem serializeSealedDeviceKeyFile_of_parse {parsed : ParsedSealedDeviceKeyFile}
    (h : parseSealedDeviceKeyFile bytes = .ok parsed) :
    serializeSealedDeviceKeyFile parsed.identityBytes parsed.fingerprint parsed.nonce
      parsed.ciphertext = .ok bytes := by
  simp only [parseSealedDeviceKeyFile, bind_eq_ok, rejectIf_eq_ok, not_not, pure_eq_ok,
    Except.ok.injEq] at h
  obtain ⟨⟨taken, rest⟩, h, -, hrest, htaken⟩ := h
  replace hrest : rest = [] := hrest
  replace htaken : taken = parsed := htaken
  unfold takeSealedDeviceKeyFile at h
  obtain ⟨magic, afterMagic, hbytes, -, h⟩ := take_peel h
  obtain ⟨hmagic, h⟩ := guardNot_peel h
  obtain ⟨version, afterVersion, hafterMagic, h⟩ := (consumes_takeU8 _).peel h
  obtain ⟨hversion, h⟩ := guardNot_peel h
  obtain ⟨identityLen, afterIdentityLen, hafterVersion, h⟩ := (consumes_takeU32Le _).peel h
  obtain ⟨identityBytes, afterIdentity, hafterIdentityLen, hidentity, h⟩ := take_peel h
  obtain ⟨fingerprint, afterFingerprint, hafterIdentity, h⟩ := (consumes_takeArray _ 32).peel h
  obtain ⟨nonce, afterNonce, hafterFingerprint, h⟩ := (consumes_takeArray _ 24).peel h
  obtain ⟨ciphertextLen, afterCiphertextLen, hafterNonce, h⟩ := (consumes_takeU32Le _).peel h
  obtain ⟨ciphertext, afterCiphertext, hafterCiphertextLen, hciphertext, h⟩ := take_peel h
  rw [pure_apply, Except.ok.injEq, Prod.mk.injEq] at h
  obtain ⟨hparsed, hafterCiphertext⟩ := h
  have hidentityLen : u32TryFrom identityBytes.length = some identityLen :=
    u32TryFrom_eq_some.mpr hidentity.symm
  have hciphertextLen : u32TryFrom ciphertext.length = some ciphertextLen :=
    u32TryFrom_eq_some.mpr hciphertext.symm
  rw [← htaken, ← hparsed]
  simp only [serializeSealedDeviceKeyFile, hidentityLen, hciphertextLen, okOr_some, ok_bind,
    pure_eq_ok, Except.ok.injEq]
  rw [hbytes, hafterMagic, hafterVersion, hafterIdentityLen, hafterIdentity, hafterFingerprint,
    hafterNonce, hafterCiphertextLen, hafterCiphertext, hrest, List.append_nil, not_not.mp hmagic,
    not_not.mp hversion]

/-- The associated data determines the identity and the fingerprint. -/
theorem sealedDeviceKeyFileAad_inj {identityBytes identityBytes' aad : Bytes}
    {fingerprint fingerprint' : U8Array 32}
    (h : sealedDeviceKeyFileAad identityBytes fingerprint = .ok aad)
    (h' : sealedDeviceKeyFileAad identityBytes' fingerprint' = .ok aad) :
    identityBytes = identityBytes' ∧ fingerprint = fingerprint' := by
  simp only [sealedDeviceKeyFileAad, bind_eq_ok, okOr_eq_ok, u32TryFrom_eq_some, pure_eq_ok,
    Except.ok.injEq] at h h'
  obtain ⟨len, hlen, rfl⟩ := h
  obtain ⟨len', hlen', haad⟩ := h'
  obtain ⟨hidentity, hfingerprint⟩ := framed_inj hlen' hlen (List.append_cancel_left haad)
  exact ⟨hidentity.symm, List.Vector.toList_injective hfingerprint.symm⟩

/-- A call of `SealedDeviceKeyFile::seal`, and the nonce it draws. -/
structure SealCall where
  identity : DeviceIdentity
  keypair : DeviceKeypair
  draw : Option Nonce

def SealCall.run (platform : DevicePlatform) (dkek : Key) (call : SealCall) : DeviceRes Bytes :=
  sealKeyFile platform call.draw call.identity call.keypair dkek

/-- The encryption a call makes. -/
def SealCall.Makes (platform : DevicePlatform) (dkek : Key) (call : SealCall)
    (s : Sealing) : Prop :=
  ∃ identityBytes, serializeIdentityBytes call.identity = .ok identityBytes
    ∧ sealedDeviceKeyFileAad identityBytes (identityFingerprint platform call.identity) = .ok s.aad
    ∧ encrypt platform.cipher call.draw dkek
      (serializeKeypairBytes call.identity call.keypair) s.aad
      = .ok (s.ciphertext, s.nonce)
    ∧ s.key = dkek

/-- The decryption opening asks for. -/
def KeyFileAsks (bytes : Bytes) (dkek : Key) (s : Sealing) : Prop :=
  ∃ parsed aad, parseSealedDeviceKeyFile bytes = .ok parsed
    ∧ sealedDeviceKeyFileAad parsed.identityBytes parsed.fingerprint = .ok aad
    ∧ s = ⟨dkek, parsed.nonce, aad, parsed.ciphertext⟩

/-- With an ideal cipher, a file that opens is what some call returned,
byte for byte. -/
theorem sealed_of_open {calls : SealCall → Prop}
    (hideal : Authentic platform.cipher (KeyFileAsks bytes dkek)
      fun s => ∃ call, calls call ∧ call.Makes platform dkek s)
    (hopen : openKeyFile platform bytes dkek = .ok (identity, keypair)) :
    ∃ call, calls call ∧ call.run platform dkek = .ok bytes := by
  obtain ⟨parsed, aad, plaintext, hopened⟩ := Opened.of_open hopen
  obtain ⟨call, hcall, identityBytes, hidentity, haad, hencrypt, -⟩ :=
    hideal ⟨dkek, parsed.nonce, aad, parsed.ciphertext⟩ ⟨parsed, aad, hopened.parses,
      hopened.bound, rfl⟩
      ⟨plaintext, hopened.decrypts⟩
  obtain ⟨hidentityBytes, hfingerprint⟩ := sealedDeviceKeyFileAad_inj haad hopened.bound
  refine ⟨call, hcall, ?_⟩
  simp only [SealCall.run, sealKeyFile, hidentity, ok_bind, haad, hencrypt, orErrUnwind_ok]
  rw [hidentityBytes, hfingerprint]
  exact serializeSealedDeviceKeyFile_of_parse hopened.parses

/-- One call made, and the file it returned. -/
theorem sealed_of_open_of_generated :
    ∃ (identity : DeviceIdentity) (keypair : DeviceKeypair) (bytes : Bytes),
      openKeyFile DevicePlatform.transparent bytes sampleDkek = .ok (identity, keypair)
      ∧ ∃ call : SealCall, call = ⟨identity, keypair, some sampleNonce⟩
        ∧ call.run DevicePlatform.transparent sampleDkek = .ok bytes := by
  obtain ⟨identity, keypair, hgenerate, hvalid, hmatch, hsealed⟩ :=
    sample_device DevicePlatform.transparent
  obtain ⟨bytes, hseal⟩ := hsealed identity rfl fun _ h => h
  have hkey := (generate_eq_ok hgenerate).2.2.1
  obtain ⟨seed, hseed⟩ := hmatch.signing _ hkey
  have hopen := openKeyFile_of_signing TransferPlatform.transparent_correct hvalid hmatch.classical
    hkey hseed hseal
  refine ⟨identity, keypair, bytes, hopen, ?_⟩
  refine sealed_of_open ?_ hopen
  intro s hasked _
  obtain ⟨parsed, aad, hparsed, haad, rfl⟩ := hasked
  refine ⟨_, rfl, ?_⟩
  simp only [sealKeyFile, bind_eq_ok, orErrUnwind_eq_ok] at hseal
  obtain ⟨identityBytes, hidentity, aad', haad', ⟨ciphertext, nonce⟩, hencrypt, hserialize⟩ := hseal
  rw [parseSealedDeviceKeyFile_of_serialize hserialize, Except.ok.injEq] at hparsed
  subst hparsed
  rw [haad', Except.ok.injEq] at haad
  subst haad
  exact ⟨identityBytes, hidentity, haad', hencrypt, rfl⟩

end MeissnerSeal
