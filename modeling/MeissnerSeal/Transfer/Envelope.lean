/-
Transfer envelopes: the transcript both sides hash, creation and opening.

# Clock and draws

Every reading of the clock is an argument, in the order the code takes
them; so is what an operation draws.

# Opening

`authenticateEnvelope` is `open_envelope` up to and including the sender's
signature, and touches no state; the replay store is checked last
(`openEnvelope`). Nothing is accepted that has not been authenticated
(`openEnvelope_cases`).
-/
import MeissnerSeal.Crypto.Pqc
import MeissnerSeal.Transfer.Replay

namespace MeissnerSeal

open ByteCodec ExceptRules ReplayWindow

-- ================================================================ types

/-- `DeviceId`. -/
abbrev DeviceId := U8Array 16

/-- `TransferProfileId`. -/
structure TransferProfileId where
  value : UInt16
  deriving DecidableEq

def transferProfileV1Id : UInt16 := 0x0001
def classicalAlgIdX25519 : UInt16 := 0x0001
def pqcAlgIdMlkem768 : UInt16 := 0x0001

def TransferProfileId.v1 : TransferProfileId := ⟨transferProfileV1Id⟩

/-- `from_u16`. -/
def TransferProfileId.fromU16 (value : UInt16) : TransferRes TransferProfileId :=
  if value = transferProfileV1Id then .ok ⟨value⟩ else .error .unknownProfile

structure TransferEnvelope where
  version : UInt16
  transferProfile : TransferProfileId
  envelopeId : EnvelopeId
  senderDeviceId : DeviceId
  recipientDeviceId : Option DeviceId
  classicalEphemeralPublicKey : X25519PublicKey
  pqcCiphertext : MlKemCiphertext
  transcriptHash : U8Array 32
  encryptedPayload : Bytes
  nonce : Nonce
  expiresAt : Option Timestamp
  deriving DecidableEq

structure TranscriptParams where
  transferProfile : TransferProfileId
  senderDeviceId : DeviceId
  senderClassicalEphemeralPublicKey : X25519PublicKey
  recipientDeviceId : Option DeviceId
  anonymousRecipientPublicKey : Option X25519PublicKey
  pqcCiphertext : MlKemCiphertext
  classicalAlgorithmId : UInt16
  pqcAlgorithmId : UInt16
  envelopeId : EnvelopeId
  expiresAt : Option Timestamp

/-- `CreateEnvelopeParams`; a `SecretPayload` is its bytes. -/
structure CreateEnvelopeParams where
  senderDeviceId : DeviceId
  recipientDeviceId : Option DeviceId
  anonymousRecipientPublicKey : Option X25519PublicKey
  recipientClassicalPublicKey : X25519PublicKey
  recipientPqcPublicKey : MlKemPublicKey
  senderSigningPrivateKey : SigningPrivateKey
  plaintextPayload : Bytes
  expiresAt : Option Timestamp

/-- `TrustedSender`. -/
structure TrustedSender where
  signingPublicKey : SigningPublicKey

structure OpenEnvelopeParams where
  recipientClassicalPrivateKey : X25519PrivateKey
  recipientClassicalPublicKey : X25519PublicKey
  recipientPqcPrivateKey : MlKemPrivateKey
  senderSigningPublicKey : TrustedSender

/-- What one `create_envelope` draws. -/
structure EnvelopeDraws where
  envelopeId : EnvelopeId
  ephemeralPrivate : Key
  encapsulation : U8Array 32
  nonce : Option Nonce

/-- The clock readings of one `open_envelope`, in order. -/
structure OpenClock where
  validate : Timestamp
  evict : Timestamp
  insert : Timestamp

/-- The clock does not go back. -/
structure OpenClock.Monotone (clock : OpenClock) : Prop where
  evict : clock.validate ≤ clock.evict
  insert : clock.evict ≤ clock.insert

def transferEnvelopeSigningDomain : Bytes := utf8 "meissnerseal.transfer.envelope.v1" ++ [0]
def transferTranscriptDomain : Bytes := utf8 "meissnerseal-transfer-transcript-v1"

-- ============================================================ transcript

/-- What the transcript binds of the recipient: the device id if there is
one, else the public key of an anonymous recipient. -/
def recipientBinding (recipientDeviceId : Option DeviceId)
    (anonymousRecipientPublicKey : Option X25519PublicKey) : Bytes :=
  match recipientDeviceId, anonymousRecipientPublicKey with
  | some id, _ => id.toList
  | none, some key => key.toList
  | none, none => []

/-- `expires_i64`: past `i64::MAX` the cast makes an expiry negative. -/
def expiresI64 (expiresAt : Option Timestamp) : Int64 :=
  (expiresAt.map UInt64.toInt64).getD 0

/-- The transcript `compute_transcript_hash` hashes. -/
def TranscriptParams.transcript (params : TranscriptParams) : Bytes :=
  transferTranscriptDomain
    ++ (leU16 params.transferProfile.value
    ++ (params.senderDeviceId.toList
    ++ (params.senderClassicalEphemeralPublicKey.toList
    ++ (recipientBinding params.recipientDeviceId params.anonymousRecipientPublicKey
    ++ (leU32 ((u32TryFrom params.pqcCiphertext.toList.length).getD 0xffffffff)
    ++ (params.pqcCiphertext.toList
    ++ (leU16 params.classicalAlgorithmId
    ++ (leU16 params.pqcAlgorithmId
    ++ (params.envelopeId.toList
    ++ leI64 (expiresI64 params.expiresAt))))))))))

variable (platform : TransferPlatform)

/-- `compute_transcript_hash`. -/
def computeTranscriptHash (params : TranscriptParams) : U8Array 32 :=
  platform.kdf.sha256 params.transcript

/-- What an opener recomputes the transcript of an envelope from. -/
def TransferEnvelope.transcriptParams (envelope : TransferEnvelope)
    (anonymousRecipientPublicKey : Option X25519PublicKey) : TranscriptParams where
  transferProfile := envelope.transferProfile
  senderDeviceId := envelope.senderDeviceId
  senderClassicalEphemeralPublicKey := envelope.classicalEphemeralPublicKey
  recipientDeviceId := envelope.recipientDeviceId
  anonymousRecipientPublicKey
  pqcCiphertext := envelope.pqcCiphertext
  classicalAlgorithmId := classicalAlgIdX25519
  pqcAlgorithmId := pqcAlgIdMlkem768
  envelopeId := envelope.envelopeId
  expiresAt := envelope.expiresAt

/-- `validate_envelope`. -/
def validateEnvelope (now : Timestamp) (envelope : TransferEnvelope)
    (anonymousRecipientPublicKey : Option X25519PublicKey) : TransferRes Unit := do
  rejectIf (envelope.version ≠ 1) .unknownProfile
  rejectIf (envelope.transferProfile.value ≠ transferProfileV1Id) .unknownProfile
  rejectIf (isExpired now envelope.expiresAt = true) .expiredEnvelope
  let computed :=
    computeTranscriptHash platform (envelope.transcriptParams anonymousRecipientPublicKey)
  rejectIf (computed ≠ envelope.transcriptHash) .transcriptMismatch

-- ======================================================== signed payload

/-- `encode_signed_payload`. -/
def encodeSignedPayload (signature : Signature) (plaintextPayload : Bytes) : TransferRes Bytes := do
  let signatureLen ← okOr (u32TryFrom signature.bytes.length) .signingFailed
  return leU16 signature.algorithm.toU16 ++ (leU32 signatureLen ++ (signature.bytes
    ++ plaintextPayload))

/-- `decode_signed_payload`. -/
def decodeSignedPayload (bytes : Bytes) : TransferRes (Signature × Bytes) := do
  let header ← okOr (slice? bytes 0 6) .verificationFailed
  let algorithmBytes ← okOr (slice? header 0 2) .verificationFailed
  let algorithmBytes ← okOr (tryArray 2 algorithmBytes) .verificationFailed
  let algorithm ← orErr (SigningAlgorithmId.fromU16 (u16OfLE algorithmBytes)) .verificationFailed
  let lenBytes ← okOr (slice? header 2 6) .verificationFailed
  let lenBytes ← okOr (tryArray 4 lenBytes) .verificationFailed
  let signatureLen := (u32OfLE lenBytes).toNat
  let signatureEnd ← okOr (checkedAdd 6 signatureLen) .verificationFailed
  let signatureBytes ← okOr (slice? bytes 6 signatureEnd) .verificationFailed
  let payload ← okOr (slice? bytes signatureEnd bytes.length) .verificationFailed
  return (⟨algorithm, signatureBytes⟩, payload)

-- ========================================================== create and open

/-- The sender's transcript. -/
def CreateEnvelopeParams.transcriptParams (params : CreateEnvelopeParams)
    (ephemeralPublic : X25519PublicKey) (pqcCiphertext : MlKemCiphertext)
    (envelopeId : EnvelopeId) : TranscriptParams where
  transferProfile := .v1
  senderDeviceId := params.senderDeviceId
  senderClassicalEphemeralPublicKey := ephemeralPublic
  recipientDeviceId := params.recipientDeviceId
  anonymousRecipientPublicKey := params.anonymousRecipientPublicKey
  pqcCiphertext
  classicalAlgorithmId := classicalAlgIdX25519
  pqcAlgorithmId := pqcAlgIdMlkem768
  envelopeId
  expiresAt := params.expiresAt

/-- `create_envelope`. -/
def createEnvelope (now : Timestamp) (draws : EnvelopeDraws) (params : CreateEnvelopeParams) :
    TransferRes TransferEnvelope := do
  rejectIf (isExpired now params.expiresAt = true) .expiredEnvelope
  rejectIf (params.recipientDeviceId = none ∧ params.anonymousRecipientPublicKey = none)
    .missingAnonymousRecipientPublicKey
  let envelopeId := draws.envelopeId
  let (ephemeralPrivate, ephemeralPublic) := x25519Keypair platform draws.ephemeralPrivate
  let (pqcCiphertext, pqcSharedSecret) ←
    okOr (platform.pqc.mlKemEncapsulate params.recipientPqcPublicKey draws.encapsulation)
      .keyDerivationFailed
  let transcriptHash :=
    computeTranscriptHash platform
      (params.transcriptParams ephemeralPublic pqcCiphertext envelopeId)
  let transferKey ←
    orErr (deriveTransferKey platform ephemeralPrivate ephemeralPublic
      params.recipientClassicalPublicKey pqcCiphertext pqcSharedSecret transcriptHash)
      .keyDerivationFailed
  let signature ←
    orErr (signWithDomain platform.pqc params.senderSigningPrivateKey transferEnvelopeSigningDomain
      transcriptHash.toList) .signingFailed
  let sealedPayload ← encodeSignedPayload signature params.plaintextPayload
  let (ciphertext, nonce) ←
    orErrUnwind (encrypt platform.cipher draws.nonce transferKey sealedPayload
      transcriptHash.toList)
      .encryptionFailed
  return {
    version := 1
    transferProfile := .v1
    envelopeId
    senderDeviceId := params.senderDeviceId
    recipientDeviceId := params.recipientDeviceId
    classicalEphemeralPublicKey := ephemeralPublic
    pqcCiphertext
    transcriptHash
    encryptedPayload := ciphertext
    nonce
    expiresAt := params.expiresAt }

/-- The key an opener binds an anonymous envelope to. -/
def openerBinding (envelope : TransferEnvelope) (params : OpenEnvelopeParams) :
    Option X25519PublicKey :=
  match envelope.recipientDeviceId with
  | none => some params.recipientClassicalPublicKey
  | some _ => none

/-- `open_envelope` up to the verification of the sender's signature: the
payload, not yet released. -/
def authenticateEnvelope (now : Timestamp) (envelope : TransferEnvelope)
    (params : OpenEnvelopeParams) : TransferRes Bytes := do
  validateEnvelope platform now envelope (openerBinding envelope params)
  let transferKey ←
    orErr (receiveTransferKey platform params.recipientClassicalPrivateKey
      params.recipientClassicalPublicKey envelope.classicalEphemeralPublicKey envelope.pqcCiphertext
      params.recipientPqcPrivateKey envelope.transcriptHash) .keyDerivationFailed
  let plaintext ←
    orErr (decrypt platform.cipher transferKey envelope.nonce envelope.encryptedPayload
      envelope.transcriptHash.toList) .decryptionFailed
  let (signature, payload) ← decodeSignedPayload plaintext
  orErr (verifyWithDomain platform.pqc params.senderSigningPublicKey.signingPublicKey
    transferEnvelopeSigningDomain envelope.transcriptHash.toList signature) .verificationFailed
  return payload

/-- `open_envelope`. -/
def openEnvelope (clock : OpenClock) (envelope : TransferEnvelope) (params : OpenEnvelopeParams)
    (seen : SeenEnvelopeIds) : TransferRes Bytes × SeenEnvelopeIds :=
  match authenticateEnvelope platform clock.validate envelope params with
  | .error e => (.error e, seen)
  | .ok payload =>
      match seen.checkAndInsert clock.evict clock.insert envelope.envelopeId envelope.expiresAt with
      | (.error e, seen) => (.error e, seen)
      | (.ok (), seen) => (.ok payload, seen)

-- ================================================== what the operations do

variable {platform}

theorem validateEnvelope_eq_ok {now : Timestamp} {envelope : TransferEnvelope}
    {key : Option X25519PublicKey} {u : Unit} :
    validateEnvelope platform now envelope key = .ok u
      ↔ envelope.version = 1 ∧ envelope.transferProfile = .v1 ∧ ¬ Expired now envelope.expiresAt
        ∧ computeTranscriptHash platform (envelope.transcriptParams key)
          = envelope.transcriptHash := by
  simp only [validateEnvelope, bind_eq_ok, rejectIf_eq_ok, Decidable.not_not, Bool.not_eq_true,
    not_isExpired_iff]
  constructor
  · rintro ⟨-, hversion, -, hprofile, -, hlive, hhash⟩
    exact ⟨hversion, congrArg TransferProfileId.mk hprofile, hlive, hhash⟩
  · rintro ⟨hversion, hprofile, hlive, hhash⟩
    exact ⟨(), hversion, (), congrArg TransferProfileId.value hprofile, (), hlive, hhash⟩

/-- What an opening can come to: refused before the store is asked,
refused by the store, or accepted. -/
theorem openEnvelope_cases (platform : TransferPlatform) (clock : OpenClock)
    (envelope : TransferEnvelope) (params : OpenEnvelopeParams) (seen : SeenEnvelopeIds) :
    (∃ e, authenticateEnvelope platform clock.validate envelope params = .error e
        ∧ openEnvelope platform clock envelope params seen = (.error e, seen))
      ∨ (∃ payload e, authenticateEnvelope platform clock.validate envelope params = .ok payload
        ∧ openEnvelope platform clock envelope params seen
          = (.error e, seen.evictExpired clock.evict)
        ∧ ((e = .expiredEnvelope ∧ Expired clock.insert envelope.expiresAt)
          ∨ (e = .replayedEnvelopeId ∧ envelope.envelopeId ∈ (seen.evictExpired clock.evict).ids)))
      ∨ (∃ payload seen', authenticateEnvelope platform clock.validate envelope params = .ok payload
        ∧ openEnvelope platform clock envelope params seen = (.ok payload, seen')
        ∧ ¬ Expired clock.insert envelope.expiresAt
        ∧ envelope.envelopeId ∉ (seen.evictExpired clock.evict).ids
        ∧ seen'.entries = (seen.evictExpired clock.evict).entries
          ++ [(envelope.envelopeId, envelope.expiresAt)]) := by
  unfold openEnvelope
  cases hauth : authenticateEnvelope platform clock.validate envelope params with
  | error e => exact .inl ⟨e, rfl, rfl⟩
  | ok payload =>
      right
      rcases SeenEnvelopeIds.checkAndInsert_cases seen clock.evict clock.insert envelope.envelopeId
        envelope.expiresAt with ⟨e, hrun, hwhy⟩ | ⟨seen', hrun, hlive, hnew, hentries⟩
      · left
        rw [hrun]
        refine ⟨payload, e, rfl, rfl, ?_⟩
        rcases hwhy with hexpired | ⟨he, -, hseen⟩
        · exact .inl hexpired
        · exact .inr ⟨he, hseen⟩
      · right
        rw [hrun]
        exact ⟨payload, seen', rfl, rfl, hlive, hnew, hentries⟩

/-- What was opened was live and new, and is held from then on. -/
theorem accepted_of_open {clock : OpenClock} {envelope : TransferEnvelope}
    {params : OpenEnvelopeParams} {seen seen' : SeenEnvelopeIds} {payload : Bytes}
    (h : openEnvelope platform clock envelope params seen = (.ok payload, seen')) :
    ¬ Expired clock.insert envelope.expiresAt
      ∧ envelope.envelopeId ∉ (seen.evictExpired clock.evict).ids
      ∧ seen'.entries = (seen.evictExpired clock.evict).entries
        ++ [(envelope.envelopeId, envelope.expiresAt)] := by
  rcases openEnvelope_cases platform clock envelope params seen with
    ⟨e, -, hrun⟩ | ⟨payload', e, -, hrun, -⟩ | ⟨payload', seen'', -, hrun, hlive, hnew, hentries⟩
  · rw [hrun] at h
    cases h
  · rw [hrun] at h
    cases h
  · rw [hrun] at h
    obtain ⟨-, rfl⟩ := Prod.mk.inj h
    exact ⟨hlive, hnew, hentries⟩

/-- An authentic envelope that has not expired and whose id is
not held opens. -/
theorem openEnvelope_of_new {clock : OpenClock} {envelope : TransferEnvelope}
    {params : OpenEnvelopeParams} {seen : SeenEnvelopeIds} {payload : Bytes}
    (hauth : authenticateEnvelope platform clock.validate envelope params = .ok payload)
    (hlive : ¬ Expired clock.insert envelope.expiresAt) (hnew : envelope.envelopeId ∉ seen.ids) :
    ∃ seen', openEnvelope platform clock envelope params seen = (.ok payload, seen')
      ∧ seen'.entries = (seen.evictExpired clock.evict).entries
        ++ [(envelope.envelopeId, envelope.expiresAt)] := by
  rcases openEnvelope_cases platform clock envelope params seen with
    ⟨e, hfail, -⟩ | ⟨payload', e, -, -, ⟨-, hexpired⟩ | ⟨-, hseen⟩⟩
      | ⟨payload', seen', hauth', hrun, -, -, hentries⟩
  · rw [hauth] at hfail
    cases hfail
  · exact absurd hexpired hlive
  · exact absurd (SeenEnvelopeIds.mem_ids_of_evictExpired hseen) hnew
  · rw [hauth, Except.ok.injEq] at hauth'
    rw [hauth']
    exact ⟨seen', hrun, hentries⟩

end MeissnerSeal
