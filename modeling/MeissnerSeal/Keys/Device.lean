/-
Device identities, and the transfer operations a device offers over
them.

# End to end

`openReceivedTransferEnvelope` of what `createSignedTransferEnvelope`
made, through the wire, is the payload, for every pair of generated
devices (`transfer_delivers_iff`). The wire's `u32` length is the one
limit.
-/
import MeissnerSeal.Transfer.Wire

namespace MeissnerSeal

open ByteCodec ExceptRules ReplayWindow

/-- What a device is trusted for, from the first contact to the last. -/
inductive DeviceTrustState where
  | untrusted
  | pendingInbound
  | pendingOutbound
  | verified
  | approved
  | revoked
  | expired
  deriving DecidableEq, Repr

/-- What others know of a device. -/
structure DeviceIdentity where
  deviceId : DeviceId
  displayName : String
  classicalPublicKey : X25519PublicKey
  pqcPublicKey : MlKemPublicKey
  signingPublicKey : Option SigningPublicKey
  createdAt : Timestamp
  trustState : DeviceTrustState

/-- What only the device has. -/
structure DeviceKeypair where
  classicalPrivateKey : X25519PrivateKey
  pqcPrivateKey : MlKemPrivateKey
  signingPrivateKey : SigningPrivateKey

inductive DeviceIdentityError where
  | unimplemented
  | invalidFileFormat
  | emptyDisplayName
  | missingSigningKey
  | invalidSigningPublicKeyLength
  | randomBytesLength
  | keyGenerationFailed
  | timestampOverflow
  | signingFailed
  | sealingFailed
  | openFailed
  | identityFingerprintMismatch
  /-- No error of the crate: a generator that fails panics. -/
  | panic
  deriving DecidableEq, Repr

instance : ExceptRules.Panics DeviceIdentityError := ⟨.panic⟩

/-- What one `generate` draws, and its reading of the clock. -/
structure GenerateDraws where
  deviceId : DeviceId
  classical : Key
  mlKem : U8Array 64
  signing : U8Array 32
  createdAt : Except DeviceIdentityError Timestamp

def deviceEnrollmentSigningDomain : Bytes := utf8 "meissnerseal.device.enrollment.v1" ++ [0]
def devicePairingSigningDomain : Bytes := utf8 "meissnerseal.device.pairing.v1" ++ [0]

/-- `TrustedSender::from_verified`. -/
def TrustedSender.fromVerified (identity : DeviceIdentity) : TransferRes TrustedSender := do
  rejectIf (identity.trustState ≠ .verified ∧ identity.trustState ≠ .approved) .untrustedSender
  let signingPublicKey ← okOr identity.signingPublicKey .untrustedSender
  return ⟨signingPublicKey⟩

variable (platform : TransferPlatform)

/-- `device::generate`. -/
def generate (draws : GenerateDraws) (displayName : String) :
    Except DeviceIdentityError (DeviceIdentity × DeviceKeypair) := do
  rejectIf (displayName = "") .emptyDisplayName
  let deviceId := draws.deviceId
  let (classicalPrivate, classicalPublic) := x25519Keypair platform draws.classical
  let (pqcPublic, pqcPrivate) := platform.pqc.mlKemKeypair draws.mlKem
  let (signingPublic, signingPrivate) := ed25519Keypair platform.pqc draws.signing
  let createdAt ← draws.createdAt
  return ({
      deviceId
      displayName
      classicalPublicKey := classicalPublic
      pqcPublicKey := pqcPublic
      signingPublicKey := some signingPublic
      createdAt
      trustState := .untrusted },
    ⟨classicalPrivate, pqcPrivate, signingPrivate⟩)

/-- `sign_enrollment_message`. -/
def signEnrollmentMessage (privateKey : SigningPrivateKey) (message : Bytes) :
    Except DeviceIdentityError Signature :=
  orErr (signWithDomain platform.pqc privateKey deviceEnrollmentSigningDomain message)
    .signingFailed

/-- `sign_pairing_message`; its only error is `PairingError::Unimplemented`. -/
def signPairingMessage (privateKey : SigningPrivateKey) (message : Bytes) : Option Signature :=
  (signWithDomain platform.pqc privateKey devicePairingSigningDomain message).toOption

/-- `create_signed_transfer_envelope`. -/
def createSignedTransferEnvelope (now : Timestamp) (draws : EnvelopeDraws)
    (senderDeviceId : DeviceId) (senderKeypair : DeviceKeypair)
    (recipientDeviceId : Option DeviceId) (recipientClassicalPublicKey : X25519PublicKey)
    (recipientPqcPublicKey : MlKemPublicKey) (plaintext : Bytes) (expiresAt : Option Timestamp) :
    TransferRes TransferEnvelope :=
  createEnvelope platform now draws {
    senderDeviceId
    recipientDeviceId
    anonymousRecipientPublicKey :=
      if recipientDeviceId.isNone then some recipientClassicalPublicKey else none
    recipientClassicalPublicKey
    recipientPqcPublicKey
    senderSigningPrivateKey := senderKeypair.signingPrivateKey
    plaintextPayload := plaintext
    expiresAt }

/-- `open_received_transfer_envelope`. -/
def openReceivedTransferEnvelope (clock : OpenClock) (envelope : TransferEnvelope)
    (recipientKeypair : DeviceKeypair) (recipientClassicalPublicKey : X25519PublicKey)
    (senderSigningPublicKey : TrustedSender) (seen : SeenEnvelopeIds) :
    TransferRes Bytes × SeenEnvelopeIds :=
  openEnvelope platform clock envelope {
    recipientClassicalPrivateKey := recipientKeypair.classicalPrivateKey
    recipientClassicalPublicKey
    recipientPqcPrivateKey := recipientKeypair.pqcPrivateKey
    senderSigningPublicKey } seen

-- ============================================================ end to end

variable {platform} {senderDraws recipientDraws : GenerateDraws} {senderName recipientName : String}
  {sender recipient : DeviceIdentity} {senderKeypair recipientKeypair : DeviceKeypair}

/-- A generated identity and its keypair. -/
theorem generate_eq_ok {draws : GenerateDraws} {name : String} {identity : DeviceIdentity}
    {keypair : DeviceKeypair} (h : generate platform draws name = .ok (identity, keypair)) :
    identity.classicalPublicKey = platform.pqc.x25519Public keypair.classicalPrivateKey
      ∧ platform.pqc.mlKemKeypair draws.mlKem = (identity.pqcPublicKey, keypair.pqcPrivateKey)
      ∧ identity.signingPublicKey = some (ed25519Keypair platform.pqc draws.signing).1
      ∧ keypair.signingPrivateKey = (ed25519Keypair platform.pqc draws.signing).2 := by
  simp only [generate, x25519Keypair, bind_eq_ok, pure_eq_ok, Except.ok.injEq, Prod.mk.injEq] at h
  obtain ⟨-, -, createdAt, -, rfl, rfl⟩ := h
  exact ⟨rfl, rfl, rfl, rfl⟩

/-- Verified and approved senders are trusted with their signing key. -/
theorem fromVerified_eq {identity : DeviceIdentity} {key : SigningPublicKey}
    (hkey : identity.signingPublicKey = some key)
    (hstate : identity.trustState = .verified ∨ identity.trustState = .approved) :
    TrustedSender.fromVerified identity = .ok ⟨key⟩ := by
  have htrusted : ¬ (identity.trustState ≠ .verified ∧ identity.trustState ≠ .approved) := by
    rintro ⟨hverified, happroved⟩
    rcases hstate with h | h
    · exact hverified h
    · exact happroved h
  rw [TrustedSender.fromVerified, rejectIf_neg _ htrusted, hkey]
  rfl

/-- The payload of a created envelope is its plaintext and 86 bytes. -/
theorem CreatedFrom.length_payload {draws : EnvelopeDraws} {params : CreateEnvelopeParams}
    {envelope : TransferEnvelope} (h : CreatedFrom platform draws params envelope) :
    envelope.encryptedPayload.length = params.plaintextPayload.length + 86 := by
  obtain ⟨secret, key, seed, sealedPayload, -, -, -, hsealed, hencrypt⟩ := h.payload
  simp only [encodeSignedPayload, bind_eq_ok, okOr_eq_ok, pure_eq_ok, Except.ok.injEq] at hsealed
  obtain ⟨len, -, rfl⟩ := hsealed
  have hlen := platform.cipher.length_encrypt hencrypt
  have htag : tagLen = 16 := rfl
  simp only [List.length_append, length_leU16, length_leU32,
    List.Vector.toList_length, htag] at hlen
  omega

/-- Early validation of an envelope a consistent sender created. -/
theorem CreatedFrom.validate_early {draws : EnvelopeDraws} {params : CreateEnvelopeParams}
    {envelope : TransferEnvelope} (h : CreatedFrom platform draws params envelope) {now : Timestamp}
    (hlive : ¬ Expired now envelope.expiresAt) (hid : envelope.recipientDeviceId.isSome) :
    validateEnvelope platform now envelope none = .ok () := by
  refine validateEnvelope_eq_ok.mpr ⟨h.version, h.transferProfile, hlive, ?_⟩
  obtain ⟨id, hid⟩ := Option.isSome_iff_exists.mp hid
  rw [h.transcriptHash, computeTranscriptHash, computeTranscriptHash]
  simp only [TranscriptParams.transcript, TransferEnvelope.transcriptParams, hid, recipientBinding]

/-- The wire passes on an envelope with a payload that fits its length
field, and no longer one. -/
theorem CreatedFrom.fromBytes_iff {draws : EnvelopeDraws} {params : CreateEnvelopeParams}
    {envelope : TransferEnvelope} (h : CreatedFrom platform draws params envelope) {now : Timestamp}
    (hlive : ¬ Expired now envelope.expiresAt) :
    envelopeFromBytes platform now (envelopeToBytes envelope)
      = if params.plaintextPayload.length + 86 < 2 ^ 32 then .ok envelope
        else .error .unknownProfile := by
  have hpayload := h.length_payload
  by_cases hlen : params.plaintextPayload.length + 86 < 2 ^ 32
  · have hne : envelope.encryptedPayload ≠ [] := by
      intro hnil
      rw [hnil, List.length_nil] at hpayload
      omega
    rw [if_pos hlen, envelopeFromBytes,
      parseEnvelopeBytes_of_toBytes h.version h.transferProfile hne (by omega), ok_bind]
    by_cases hid : envelope.recipientDeviceId.isSome = true
    · rw [if_pos hid, h.validate_early hlive hid]
      rfl
    · have hexpired : ¬ isExpired now envelope.expiresAt = true :=
        fun h => hlive (isExpired_iff.mp h)
      rw [if_neg hid, rejectIf_neg _ hexpired]
      rfl
  · rw [if_neg hlen, envelopeFromBytes,
      parseEnvelopeBytes_of_overlong h.version h.transferProfile (by omega)]
    rfl

/-- What the recipient makes of the bytes it received. -/
def receiveTransfer (platform : TransferPlatform) (wireNow : Timestamp) (clock : OpenClock)
    (bytes : Bytes) (recipientKeypair : DeviceKeypair)
    (recipientClassicalPublicKey : X25519PublicKey)
    (sender : DeviceIdentity) (seen : SeenEnvelopeIds) : TransferRes Bytes := do
  let envelope ← envelopeFromBytes platform wireNow bytes
  let trusted ← TrustedSender.fromVerified sender
  (openReceivedTransferEnvelope platform clock envelope recipientKeypair recipientClassicalPublicKey
    trusted seen).1

/-- The parameters a device creates an envelope with. -/
def signedParams (sender : DeviceIdentity) (senderKeypair : DeviceKeypair) (mode : Option DeviceId)
    (recipient : DeviceIdentity) (payload : Bytes) (expiresAt : Option Timestamp) :
    CreateEnvelopeParams where
  senderDeviceId := sender.deviceId
  recipientDeviceId := mode
  anonymousRecipientPublicKey := if mode.isNone then some recipient.classicalPublicKey else none
  recipientClassicalPublicKey := recipient.classicalPublicKey
  recipientPqcPublicKey := recipient.pqcPublicKey
  senderSigningPrivateKey := senderKeypair.signingPrivateKey
  plaintextPayload := payload
  expiresAt

/-- A generated recipient is the opener of what a generated sender
makes for it. -/
theorem openerOf_generated
    (hsender : generate platform senderDraws senderName = .ok (sender, senderKeypair))
    (hrecipient : generate platform recipientDraws recipientName
      = .ok (recipient, recipientKeypair))
    (mode : Option DeviceId) (payload : Bytes) (expiresAt : Option Timestamp) :
    OpenerOf platform.pqc (signedParams sender senderKeypair mode recipient payload expiresAt)
      ⟨recipientKeypair.classicalPrivateKey, recipient.classicalPublicKey,
        recipientKeypair.pqcPrivateKey, ⟨(ed25519Keypair platform.pqc senderDraws.signing).1⟩⟩ := by
  obtain ⟨hclassical, hpqc, -, -⟩ := generate_eq_ok hrecipient
  obtain ⟨-, -, -, hsigningPrivate⟩ := generate_eq_ok hsender
  exact ⟨rfl, hclassical, ⟨recipientDraws.mlKem, hpqc⟩, ⟨senderDraws.signing, hsigningPrivate, rfl⟩⟩

/-- The recipient opens the envelope to the payload, unless the store
holds its id. -/
theorem openReceived_of_created (hcorrect : platform.pqc.Correct)
    (hsender : generate platform senderDraws senderName = .ok (sender, senderKeypair))
    (hrecipient : generate platform recipientDraws recipientName
      = .ok (recipient, recipientKeypair))
    {mode : Option DeviceId} {payload : Bytes} {expiresAt : Option Timestamp}
    {draws : EnvelopeDraws}
    {envelope : TransferEnvelope}
    (hfrom : CreatedFrom platform draws
      (signedParams sender senderKeypair mode recipient payload expiresAt) envelope)
    {clock : OpenClock} (hvalidate : ¬ Expired clock.validate expiresAt)
    (hinsert : ¬ Expired clock.insert expiresAt) {seen : SeenEnvelopeIds}
    (hnew : draws.envelopeId ∉ seen.ids) :
    ∃ seen', openReceivedTransferEnvelope platform clock envelope recipientKeypair
        recipient.classicalPublicKey ⟨(ed25519Keypair platform.pqc senderDraws.signing).1⟩ seen
          = (.ok payload, seen')
      ∧ seen'.entries = (seen.evictExpired clock.evict).entries
        ++ [(envelope.envelopeId, envelope.expiresAt)] := by
  have hopener := openerOf_generated hsender hrecipient mode payload expiresAt
  have hexpiry : envelope.expiresAt = expiresAt := hfrom.expiresAt
  have hconsistent : (signedParams sender senderKeypair mode recipient payload
    expiresAt).Consistent := by
    rintro rfl
    rfl
  have hvalid : validateEnvelope platform clock.validate envelope (openerBinding envelope
      ⟨recipientKeypair.classicalPrivateKey, recipient.classicalPublicKey,
        recipientKeypair.pqcPrivateKey, ⟨(ed25519Keypair platform.pqc senderDraws.signing).1⟩⟩)
      = .ok () := by
    refine validateEnvelope_eq_ok.mpr ⟨hfrom.version, hfrom.transferProfile, ?_, ?_⟩
    · rw [hexpiry]
      exact hvalidate
    · rw [hfrom.transcriptHash, computeTranscriptHash, computeTranscriptHash,
        hfrom.transcript_eq hopener hconsistent]
  have hauth := hfrom.authenticate hcorrect hopener hvalid
  have hinsert' : ¬ Expired clock.insert envelope.expiresAt := by
    rw [hexpiry]
    exact hinsert
  have hnew' : envelope.envelopeId ∉ seen.ids := by
    rw [hfrom.envelopeId]
    exact hnew
  exact openEnvelope_of_new hauth hinsert' hnew'

/-- Between any two generated devices, in either recipient mode, a payload
is created, and received through the wire as it was, exactly when its
envelope fits the wire's payload length. -/
theorem transfer_delivers_iff (hcorrect : platform.pqc.Correct)
    (hexpand : ∀ prk info, (platform.kdf.expand prk info).isSome)
    (hsender : generate platform senderDraws senderName = .ok (sender, senderKeypair))
    (hrecipient : generate platform recipientDraws recipientName
      = .ok (recipient, recipientKeypair))
    {trusted : DeviceTrustState} (htrusted : trusted = .verified ∨ trusted = .approved)
    (mode : Option DeviceId) (payload : Bytes) {expiresAt : Option Timestamp}
    {draws : EnvelopeDraws}
    (hnonce : draws.nonce.isSome) (createNow wireNow : Timestamp) (clock : OpenClock)
    (hcreate : ¬ Expired createNow expiresAt) (hwire : ¬ Expired wireNow expiresAt)
    (hvalidate : ¬ Expired clock.validate expiresAt) (hinsert : ¬ Expired clock.insert expiresAt)
    {seen : SeenEnvelopeIds} (hnew : draws.envelopeId ∉ seen.ids) :
    let created := createSignedTransferEnvelope platform createNow draws
      sender.deviceId senderKeypair
      mode recipient.classicalPublicKey recipient.pqcPublicKey payload expiresAt
    (payload.length + 70 < 2 ^ 32 → ∃ envelope, created = .ok envelope)
      ∧ ∀ envelope, created = .ok envelope →
        (receiveTransfer platform wireNow clock (envelopeToBytes envelope) recipientKeypair
            recipient.classicalPublicKey { sender with trustState := trusted } seen = .ok payload
          ↔ payload.length + 86 < 2 ^ 32) := by
  intro created
  have hopener := openerOf_generated hsender hrecipient mode payload expiresAt
  have hsigningPublic := (generate_eq_ok hsender).2.2.1
  constructor
  · intro hlen
    obtain ⟨nonce, hnonce⟩ := Option.isSome_iff_exists.mp hnonce
    refine exists_createEnvelope hcorrect.toAgrees hexpand hnonce hcreate ?_ hopener hlen
    cases mode with
    | none => exact .inr fun h => nomatch h
    | some id => exact .inl fun h => nomatch h
  · intro envelope henvelope
    have hfrom : CreatedFrom platform draws
        (signedParams sender senderKeypair mode recipient payload expiresAt) envelope :=
      CreatedFrom.of_create henvelope
    have hexpiry : envelope.expiresAt = expiresAt := hfrom.expiresAt
    have hpayload : (signedParams sender senderKeypair mode recipient payload
      expiresAt).plaintextPayload = payload := rfl
    have hlive : ¬ Expired wireNow envelope.expiresAt := by
      rw [hexpiry]
      exact hwire
    have htrust : TrustedSender.fromVerified { sender with trustState := trusted }
        = .ok ⟨(ed25519Keypair platform.pqc senderDraws.signing).1⟩ :=
      fromVerified_eq hsigningPublic htrusted
    rw [receiveTransfer, hfrom.fromBytes_iff hlive, hpayload]
    by_cases hlen : payload.length + 86 < 2 ^ 32
    · rw [if_pos hlen]
      simp only [ok_bind, htrust, hlen, iff_true]
      obtain ⟨seen', hrun, -⟩ := openReceived_of_created hcorrect hsender hrecipient hfrom hvalidate
        hinsert hnew
      rw [hrun]
    · rw [if_neg hlen]
      simp only [error_bind, reduceCtorEq, hlen]

-- ============================================================= inhabited

def sampleGenerateDraws : GenerateDraws where
  deviceId := numberedId 1
  classical := List.Vector.replicate 32 0
  mlKem := List.Vector.replicate 64 0
  signing := List.Vector.replicate 32 0
  createdAt := .ok 0

/-- A device of any cryptography. -/
theorem sample_generated (platform : TransferPlatform) :
    ∃ identity keypair, generate platform sampleGenerateDraws "device" = .ok
      (identity, keypair) := by
  have hname : ¬ "device" = "" := by decide
  cases h : generate platform sampleGenerateDraws "device" with
  | error e =>
      rw [generate, rejectIf_neg _ hname] at h
      cases h
  | ok pair => exact ⟨pair.1, pair.2, rfl⟩

/-- No expiry never expires. -/
theorem not_expired_none {now : Timestamp} : ¬ Expired now none := fun ⟨_, h, _⟩ => nomatch h

/-- Three bytes to an anonymous recipient. -/
theorem transfer_delivers_iff_of_anonymous :
    ∃ (sender : DeviceIdentity) (senderKeypair : DeviceKeypair) (envelope : TransferEnvelope),
      createSignedTransferEnvelope TransferPlatform.transparent 0 sampleEnvelopeDraws
        sender.deviceId senderKeypair none sender.classicalPublicKey sender.pqcPublicKey
          [1, 2, 3] none
          = .ok envelope
      ∧ receiveTransfer TransferPlatform.transparent 0 ⟨0, 0, 0⟩ (envelopeToBytes envelope)
        senderKeypair sender.classicalPublicKey { sender with trustState := .approved } .new
          = .ok [1, 2, 3] := by
  obtain ⟨device, keypair, hdevice⟩ := sample_generated TransferPlatform.transparent
  have hnew : sampleEnvelopeDraws.envelopeId ∉ SeenEnvelopeIds.new.ids := List.not_mem_nil
  obtain ⟨hcreate, hopen⟩ := transfer_delivers_iff TransferPlatform.transparent_correct
    (fun _ _ => rfl) hdevice hdevice (.inr rfl) none [1, 2, 3] rfl 0 0 ⟨0, 0, 0⟩ not_expired_none
    not_expired_none not_expired_none not_expired_none hnew
  obtain ⟨envelope, henvelope⟩ := hcreate (by decide)
  exact ⟨device, keypair, envelope, henvelope, (hopen envelope henvelope).mpr (by decide)⟩

/-- A payload of `2 ^ 32 - 86` bytes is created and never received. -/
theorem overlong_payload_undeliverable :
    ∃ (sender : DeviceIdentity) (senderKeypair : DeviceKeypair) (envelope : TransferEnvelope),
      generate TransferPlatform.transparent sampleGenerateDraws "device" = .ok
        (sender, senderKeypair)
      ∧ createSignedTransferEnvelope TransferPlatform.transparent 0 sampleEnvelopeDraws
        sender.deviceId senderKeypair none sender.classicalPublicKey sender.pqcPublicKey
          (List.replicate (2 ^ 32 - 86) 0) none = .ok envelope
      ∧ receiveTransfer TransferPlatform.transparent 0 ⟨0, 0, 0⟩ (envelopeToBytes envelope)
        senderKeypair sender.classicalPublicKey { sender with trustState := .approved } .new
          = .error .unknownProfile := by
  obtain ⟨device, keypair, hdevice⟩ := sample_generated TransferPlatform.transparent
  have hlen : (List.replicate (2 ^ 32 - 86) (0 : UInt8)).length = 2 ^ 32 - 86 :=
    List.length_replicate
  generalize List.replicate (2 ^ 32 - 86) (0 : UInt8) = payload at hlen
  obtain ⟨envelope, henvelope⟩ : ∃ envelope, createEnvelope TransferPlatform.transparent 0
      sampleEnvelopeDraws (signedParams device keypair none device payload none)
        = .ok envelope := by
    refine exists_createEnvelope TransferPlatform.transparent_correct.toAgrees (fun _ _ => rfl) rfl
      not_expired_none (.inr fun h => nomatch h)
        (openerOf_generated hdevice hdevice none payload none)
      ?_
    show payload.length + 70 < 2 ^ 32
    omega
  have hfrom := CreatedFrom.of_create henvelope
  have hlive : ¬ Expired 0 envelope.expiresAt := by
    have hexpiry : envelope.expiresAt = none := hfrom.expiresAt
    rw [hexpiry]
    exact not_expired_none
  refine ⟨device, keypair, envelope, hdevice, henvelope, ?_⟩
  have hoverlong : ¬ (signedParams device keypair none device payload
    none).plaintextPayload.length + 86
      < 2 ^ 32 := by
    show ¬ payload.length + 86 < 2 ^ 32
    omega
  rw [receiveTransfer, hfrom.fromBytes_iff hlive, if_neg hoverlong]
  rfl

end MeissnerSeal
