/-
The PQC crate: X25519, ML-KEM-768 and Ed25519 behind its wrappers, and
the hybrid transfer key.

# Primitives

The third-party crates are parameters (`PqcBackend`). What their
documentation promises of honest inputs is `PqcBackend.Agrees` and
`PqcBackend.Correct`; that signatures are hard to forge is no property
of a function and is stated where it is used.
-/
import MeissnerSeal.Crypto.Kdf

namespace MeissnerSeal

open ByteCodec ExceptRules

/-- `X25519PublicKey`, `X25519PrivateKey`, `SharedSecret` and
`TransferKey` are `Key<32>`. -/
abbrev X25519PublicKey := Key
abbrev X25519PrivateKey := Key
abbrev SharedSecret := Key
abbrev TransferKey := Key

abbrev MlKemPublicKey := U8Array 1184
abbrev MlKemPrivateKey := U8Array 2400
abbrev MlKemCiphertext := U8Array 1088

/-- The backend crates. What a generation draws is an argument. -/
structure PqcBackend where
  /-- `x25519_dalek::PublicKey::from(&secret)`. -/
  x25519Public : X25519PrivateKey → X25519PublicKey
  /-- `secret.diffie_hellman(&peer)`. -/
  diffieHellman : X25519PrivateKey → X25519PublicKey → Key
  /-- `shared_secret.was_contributory()`. -/
  wasContributory : Key → Bool
  /-- `MlKem768::generate_keypair`, exported. -/
  mlKemKeypair : U8Array 64 → MlKemPublicKey × MlKemPrivateKey
  /-- `EncapsulationKey768::new` and `encapsulate`. -/
  mlKemEncapsulate : MlKemPublicKey → U8Array 32 → Option (MlKemCiphertext × SharedSecret)
  /-- `DecapsulationKey768::from_expanded_bytes` and `decapsulate`. -/
  mlKemDecapsulate : MlKemPrivateKey → MlKemCiphertext → Option SharedSecret
  /-- `SigningKey::from_bytes(&seed).verifying_key()`. -/
  ed25519Public : U8Array 32 → U8Array 32
  /-- `SigningKey::from_bytes(&seed).sign(message)`. -/
  ed25519Sign : U8Array 32 → Bytes → U8Array 64
  /-- `VerifyingKey::from_bytes(bytes).is_ok()`. -/
  isVerifyingKey : U8Array 32 → Bool
  /-- `verifying_key.verify_strict(message, &signature).is_ok()`. -/
  verifyStrict : U8Array 32 → Bytes → U8Array 64 → Bool

/-- What the crates promise of a key agreement between generated keys. -/
structure PqcBackend.Agrees (pqc : PqcBackend) : Prop where
  diffieHellman_comm : ∀ a b,
    pqc.diffieHellman a (pqc.x25519Public b) = pqc.diffieHellman b (pqc.x25519Public a)
  contributory : ∀ a b, pqc.wasContributory (pqc.diffieHellman a (pqc.x25519Public b)) = true
  x25519Public_ne : ∀ a, pqc.x25519Public a ≠ List.Vector.replicate 32 0xff
  encapsulate : ∀ seed draw, ∃ ciphertext secret,
    pqc.mlKemEncapsulate (pqc.mlKemKeypair seed).1 draw = some (ciphertext, secret)
      ∧ pqc.mlKemDecapsulate (pqc.mlKemKeypair seed).2 ciphertext = some secret

/-- What they promise of generated keys, signing included. -/
structure PqcBackend.Correct (pqc : PqcBackend) : Prop extends pqc.Agrees where
  isVerifyingKey : ∀ seed, pqc.isVerifyingKey (pqc.ed25519Public seed) = true
  verify_sign : ∀ seed message,
    pqc.verifyStrict (pqc.ed25519Public seed) message (pqc.ed25519Sign seed message) = true

/-- The cryptography a transfer is handed. -/
structure TransferPlatform extends Platform where
  pqc : PqcBackend

-- ============================================================ transfer key

inductive HybridError where
  | x25519Invalid
  | mlKemFailed
  | hkdfExpand
  deriving DecidableEq, Repr

section Hybrid

variable (platform : TransferPlatform)

/-- `x25519_keypair`, on the private key drawn. -/
def x25519Keypair (privateBytes : Key) : X25519PrivateKey × X25519PublicKey :=
  (privateBytes, platform.pqc.x25519Public privateBytes)

/-- `x25519_shared_secret`. -/
def x25519SharedSecret (privateKey : X25519PrivateKey) (peerPublicKey : X25519PublicKey) :
    Except HybridError Key := do
  rejectIf (peerPublicKey = List.Vector.replicate 32 0xff) .x25519Invalid
  let sharedSecret := platform.pqc.diffieHellman privateKey peerPublicKey
  rejectIf (platform.pqc.wasContributory sharedSecret = false) .x25519Invalid
  return sharedSecret

/-- The `info` of the transfer key. -/
def transferKeyInfo : Bytes := utf8 "meissnerseal-transfer-v1"

/-- `derive_transfer_key_from_shared_parts`. -/
def deriveTransferKeyFromSharedParts (pqcSharedSecret : SharedSecret) (ssX25519 : Key)
    (senderEphemeralPublic recipientClassicalPublic : X25519PublicKey)
    (pqcCiphertext : MlKemCiphertext) (transcriptHash : U8Array 32) :
    Except HybridError TransferKey :=
  let ikm := pqcSharedSecret.toList ++ ssX25519.toList ++ senderEphemeralPublic.toList
    ++ recipientClassicalPublic.toList ++ pqcCiphertext.toList
  okOr (platform.kdf.expand (platform.kdf.extract transcriptHash.toList ikm) transferKeyInfo)
    .hkdfExpand

/-- `derive_transfer_key`. -/
def deriveTransferKey (senderEphemeralPrivate : X25519PrivateKey)
    (senderEphemeralPublic recipientClassicalPublic : X25519PublicKey)
    (pqcCiphertext : MlKemCiphertext) (pqcSharedSecret : SharedSecret)
    (transcriptHash : U8Array 32) : Except HybridError TransferKey := do
  let ssX25519 ← x25519SharedSecret platform senderEphemeralPrivate recipientClassicalPublic
  deriveTransferKeyFromSharedParts platform pqcSharedSecret ssX25519 senderEphemeralPublic
    recipientClassicalPublic pqcCiphertext transcriptHash

/-- `receive_transfer_key`. -/
def receiveTransferKey (recipientClassicalPrivate : X25519PrivateKey)
    (recipientClassicalPublic senderEphemeralPublic : X25519PublicKey)
    (pqcCiphertext : MlKemCiphertext) (pqcPrivateKey : MlKemPrivateKey)
    (transcriptHash : U8Array 32) : Except HybridError TransferKey := do
  let ssX25519 ← x25519SharedSecret platform recipientClassicalPrivate senderEphemeralPublic
  let pqcSharedSecret ← okOr
    (platform.pqc.mlKemDecapsulate pqcPrivateKey pqcCiphertext) .mlKemFailed
  deriveTransferKeyFromSharedParts platform pqcSharedSecret ssX25519 senderEphemeralPublic
    recipientClassicalPublic pqcCiphertext transcriptHash

end Hybrid

-- ================================================================ signing

inductive SigningAlgorithmId where
  | ed25519V1
  | ed25519MlDsa87HybridV1
  deriving DecidableEq, Repr

inductive SigningError where
  | unknownAlgorithm
  | unimplemented
  | algorithmMismatch
  | invalidKey
  | malformedSignature
  | verificationFailed
  deriving DecidableEq, Repr

def SigningAlgorithmId.toU16 : SigningAlgorithmId → UInt16
  | .ed25519V1 => 0x0001
  | .ed25519MlDsa87HybridV1 => 0x0002

def SigningAlgorithmId.fromU16 (value : UInt16) : Except SigningError SigningAlgorithmId :=
  if value = 0x0001 then .ok .ed25519V1
  else if value = 0x0002 then .ok .ed25519MlDsa87HybridV1
  else .error .unknownAlgorithm

theorem SigningAlgorithmId.fromU16_toU16 (algorithm : SigningAlgorithmId) :
    fromU16 algorithm.toU16 = .ok algorithm := by
  cases algorithm with
  | ed25519V1 => rfl
  | ed25519MlDsa87HybridV1 => rfl

theorem SigningAlgorithmId.fromU16_eq_ok {value : UInt16} {algorithm : SigningAlgorithmId} :
    fromU16 value = .ok algorithm ↔ value = algorithm.toU16 := by
  constructor
  · intro h
    unfold fromU16 at h
    split_ifs at h with h₁ h₂
    · cases h
      exact h₁
    · cases h
      exact h₂
  · rintro rfl
    exact fromU16_toU16 algorithm

structure SigningPublicKey where
  algorithm : SigningAlgorithmId
  bytes : Bytes
  deriving DecidableEq

structure SigningPrivateKey where
  algorithm : SigningAlgorithmId
  bytes : Bytes
  deriving DecidableEq

structure Signature where
  algorithm : SigningAlgorithmId
  bytes : Bytes
  deriving DecidableEq

/-- `bytes.try_into()` for a fixed-size array. -/
def tryArray (n : Nat) (bytes : Bytes) : Option (U8Array n) :=
  if h : bytes.length = n then some ⟨bytes, h⟩ else none

@[simp] theorem tryArray_toList {n : Nat} (a : U8Array n) : tryArray n a.toList = some a :=
  dif_pos a.toList_length

theorem tryArray_eq_some {n : Nat} {bytes : Bytes} {a : U8Array n} :
    tryArray n bytes = some a ↔ bytes = a.toList := by
  constructor
  · intro h
    unfold tryArray at h
    split at h
    case isTrue => rw [← Option.some.inj h]; rfl
    case isFalse => cases h
  · rintro rfl
    exact tryArray_toList a

section Sign

variable (pqc : PqcBackend)

/-- `ed25519_keypair`, on the seed drawn. -/
def ed25519Keypair (seed : U8Array 32) : SigningPublicKey × SigningPrivateKey :=
  (⟨.ed25519V1, (pqc.ed25519Public seed).toList⟩, ⟨.ed25519V1, seed.toList⟩)

/-- `mldsa::sign`. -/
def sign (privateKey : SigningPrivateKey) (message : Bytes) : Except SigningError Signature :=
  match privateKey.algorithm with
  | .ed25519V1 => do
      let seed ← okOr (tryArray 32 privateKey.bytes) .invalidKey
      return ⟨.ed25519V1, (pqc.ed25519Sign seed message).toList⟩
  | .ed25519MlDsa87HybridV1 => .error .unimplemented

/-- `sign_with_domain`. -/
def signWithDomain (privateKey : SigningPrivateKey) (domain payload : Bytes) :
    Except SigningError Signature :=
  sign pqc privateKey (domain ++ payload)

/-- `mldsa::verify`. -/
def verify (publicKey : SigningPublicKey) (message : Bytes) (signature : Signature) :
    Except SigningError Unit := do
  rejectIf (publicKey.algorithm ≠ signature.algorithm) .algorithmMismatch
  match publicKey.algorithm with
  | .ed25519V1 => do
      let publicBytes ← okOr (tryArray 32 publicKey.bytes) .invalidKey
      let signatureBytes ← okOr (tryArray 64 signature.bytes) .malformedSignature
      rejectIf (pqc.isVerifyingKey publicBytes = false) .invalidKey
      rejectIf (pqc.verifyStrict publicBytes message signatureBytes = false) .verificationFailed
  | .ed25519MlDsa87HybridV1 => .error .unimplemented

/-- `verify_with_domain`. -/
def verifyWithDomain (publicKey : SigningPublicKey) (domain payload : Bytes)
    (signature : Signature) : Except SigningError Unit :=
  verify pqc publicKey (domain ++ payload) signature

variable {pqc}

/-- A private key signs iff it is an Ed25519 seed. -/
theorem sign_eq_ok {privateKey : SigningPrivateKey} {message : Bytes} {signature : Signature} :
    sign pqc privateKey message = .ok signature
      ↔ ∃ seed : U8Array 32, privateKey = (ed25519Keypair pqc seed).2
        ∧ signature = ⟨.ed25519V1, (pqc.ed25519Sign seed message).toList⟩ := by
  obtain ⟨algorithm, bytes⟩ := privateKey
  cases algorithm with
  | ed25519V1 =>
      simp only [sign, bind_eq_ok, okOr_eq_ok, tryArray_eq_some, pure_eq_ok, Except.ok.injEq]
      constructor
      · rintro ⟨seed, rfl, rfl⟩
        exact ⟨seed, rfl, rfl⟩
      · rintro ⟨seed, hkey, rfl⟩
        obtain ⟨-, rfl⟩ := SigningPrivateKey.mk.inj hkey
        exact ⟨seed, rfl, rfl⟩
  | ed25519MlDsa87HybridV1 =>
      constructor
      · intro h
        cases h
      · rintro ⟨seed, hkey, -⟩
        cases hkey

/-- What the backend accepts under a generated key, the wrapper does. -/
theorem verify_of_verifyStrict {seed : U8Array 32} {message : Bytes} {signature : U8Array 64}
    (hkey : pqc.isVerifyingKey (pqc.ed25519Public seed) = true)
    (hverify : pqc.verifyStrict (pqc.ed25519Public seed) message signature = true) :
    verify pqc (ed25519Keypair pqc seed).1 message ⟨.ed25519V1, signature.toList⟩ = .ok () := by
  have hsame : ¬ (ed25519Keypair pqc seed).1.algorithm ≠ SigningAlgorithmId.ed25519V1 :=
    fun h => h rfl
  have hkey' : ¬ pqc.isVerifyingKey (pqc.ed25519Public seed) = false := by
    rw [hkey]
    decide
  have hverify' : ¬ pqc.verifyStrict (pqc.ed25519Public seed) message signature = false := by
    rw [hverify]
    decide
  rw [verify, rejectIf_neg _ hsame]
  simp only [ed25519Keypair, ok_bind, tryArray_toList, okOr_some, rejectIf_neg _ hkey',
    rejectIf_neg _ hverify']

/-- A signature the crate made verifies under the matching key. -/
theorem verify_of_sign (hcorrect : pqc.Correct) (seed : U8Array 32) (message : Bytes) :
    verify pqc (ed25519Keypair pqc seed).1 message
      ⟨.ed25519V1, (pqc.ed25519Sign seed message).toList⟩ = .ok () :=
  verify_of_verifyStrict (hcorrect.isVerifyingKey seed) (hcorrect.verify_sign seed message)

end Sign

-- ============================================================ key agreement

section Agreement

variable {platform : TransferPlatform}

theorem x25519SharedSecret_eq_ok {privateKey : X25519PrivateKey}
    {peer : X25519PublicKey} {ss : Key} :
    x25519SharedSecret platform privateKey peer = .ok ss
      ↔ peer ≠ List.Vector.replicate 32 0xff ∧ ss = platform.pqc.diffieHellman privateKey peer
        ∧ platform.pqc.wasContributory ss = true := by
  simp only [x25519SharedSecret, bind_eq_ok, rejectIf_eq_ok, pure_eq_ok, Except.ok.injEq,
    Bool.not_eq_false]
  constructor
  · rintro ⟨-, hpeer, -, hcontrib, rfl⟩
    exact ⟨hpeer, rfl, hcontrib⟩
  · rintro ⟨hpeer, rfl, hcontrib⟩
    exact ⟨(), hpeer, (), hcontrib, rfl⟩

/-- Both ends compute one X25519 secret. -/
theorem x25519SharedSecret_comm (hagrees : platform.pqc.Agrees) (a b : X25519PrivateKey) :
    ∃ ss, x25519SharedSecret platform a (platform.pqc.x25519Public b) = .ok ss
      ∧ x25519SharedSecret platform b (platform.pqc.x25519Public a) = .ok ss :=
  ⟨_, x25519SharedSecret_eq_ok.mpr ⟨hagrees.x25519Public_ne b, rfl, hagrees.contributory a b⟩,
    x25519SharedSecret_eq_ok.mpr ⟨hagrees.x25519Public_ne a, hagrees.diffieHellman_comm a b,
      hagrees.contributory a b⟩⟩

/-- The receiver derives the sender's transfer key. -/
theorem receiveTransferKey_eq_derive (hagrees : platform.pqc.Agrees)
    {ephemeralPrivate recipientPrivate : X25519PrivateKey} {pqcCiphertext : MlKemCiphertext}
    {pqcSharedSecret : SharedSecret} {pqcPrivateKey : MlKemPrivateKey}
    (hdecap : platform.pqc.mlKemDecapsulate pqcPrivateKey pqcCiphertext = some pqcSharedSecret)
    (transcriptHash : U8Array 32) :
    receiveTransferKey platform recipientPrivate (platform.pqc.x25519Public recipientPrivate)
        (platform.pqc.x25519Public ephemeralPrivate) pqcCiphertext pqcPrivateKey transcriptHash
      = deriveTransferKey platform ephemeralPrivate (platform.pqc.x25519Public ephemeralPrivate)
        (platform.pqc.x25519Public recipientPrivate) pqcCiphertext pqcSharedSecret
          transcriptHash := by
  obtain ⟨ss, hsender, hreceiver⟩ :=
    x25519SharedSecret_comm hagrees ephemeralPrivate recipientPrivate
  rw [receiveTransferKey, deriveTransferKey, hsender, hreceiver, hdecap]
  rfl

-- ---------------------------------------------------------- what it binds

/-- What the transfer key is extracted from: the salt and the
keying material. -/
def transferKeyInput (pqcSharedSecret : SharedSecret) (ssX25519 : Key)
    (senderEphemeralPublic recipientClassicalPublic : X25519PublicKey)
    (pqcCiphertext : MlKemCiphertext) (transcriptHash : U8Array 32) : Bytes × Bytes :=
  (transcriptHash.toList, pqcSharedSecret.toList ++ ssX25519.toList
    ++ senderEphemeralPublic.toList ++ recipientClassicalPublic.toList ++ pqcCiphertext.toList)

/-- The transfer key as a function of that. -/
def transferKdf (platform : TransferPlatform) (input : Bytes × Bytes) : Option TransferKey :=
  platform.kdf.expand (platform.kdf.extract input.1 input.2) transferKeyInfo

end Agreement

end MeissnerSeal
