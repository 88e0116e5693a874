/-
Authentication of the sender: what an opened envelope says of its
origin.

# The signer

The holder of a signing key creates envelopes and signs enrollment and
pairing messages, in any order (`HolderCall`). Signatures are ideal:
one verifies only on a message the holder has signed and given out
(`Unforgeable`). The hash is collision-free on the transcripts of the
run and of the envelope opened.

# Agreement

The transcript encodes its fields in one way (`transcript_inj`): two are
equal only for the same fields and recipient (`transcript_binds`). The
three signing domains are apart, so an envelope that opens is, in every
field the transcript binds, one the holder created (`open_agrees`).
-/
import MeissnerSeal.Transfer.ReplaySafety

namespace MeissnerSeal

open ByteCodec ExceptRules ReplayWindow

-- ============================================================ transcript

/-- Whom a transcript binds: a device, else the key of an anonymous
recipient, else no one. -/
inductive BoundRecipient where
  | device (id : DeviceId)
  | anonymous (key : X25519PublicKey)
  | nobody

def boundRecipient : Option DeviceId → Option X25519PublicKey → BoundRecipient
  | some id, _ => .device id
  | none, some key => .anonymous key
  | none, none => .nobody

/-- A device id has 16 bytes, a key 32. -/
def BoundRecipient.bytes : BoundRecipient → Bytes
  | .device id => id.toList
  | .anonymous key => key.toList
  | .nobody => []

theorem BoundRecipient.bytes_injective : Function.Injective BoundRecipient.bytes := by
  intro recipient recipient' h
  have hlen := congrArg List.length h
  cases recipient with
  | device id =>
      cases recipient' with
      | device id' => exact congrArg device (List.Vector.toList_injective h)
      | anonymous key' => simp [bytes] at hlen
      | nobody => simp [bytes] at hlen
  | anonymous key =>
      cases recipient' with
      | device id' => simp [bytes] at hlen
      | anonymous key' => exact congrArg anonymous (List.Vector.toList_injective h)
      | nobody => simp [bytes] at hlen
  | nobody =>
      cases recipient' with
      | device id' => simp [bytes] at hlen
      | anonymous key' => simp [bytes] at hlen
      | nobody => rfl

theorem recipientBinding_eq_bytes (id : Option DeviceId) (key : Option X25519PublicKey) :
    recipientBinding id key = (boundRecipient id key).bytes := by
  cases id with
  | some id => rfl
  | none => cases key <;> rfl

/-- The binding's bytes tell a device id, a key and none apart. -/
theorem recipientBinding_inj {id id' : Option DeviceId} {key key' : Option X25519PublicKey} :
    recipientBinding id key = recipientBinding id' key'
      ↔ boundRecipient id key = boundRecipient id' key' := by
  rw [recipientBinding_eq_bytes, recipientBinding_eq_bytes, BoundRecipient.bytes_injective.eq_iff]

/-- Every part of a transcript but the binding has one length. -/
theorem length_transcript (params : TranscriptParams) :
    params.transcript.length = 1205
      + (recipientBinding params.recipientDeviceId params.anonymousRecipientPublicKey).length := by
  have hdomain : transferTranscriptDomain.length = 35 := rfl
  simp only [TranscriptParams.transcript, List.length_append, hdomain, length_leU16, length_leU32,
    length_leI64, List.Vector.toList_length]
  omega

/-- The cast to `i64` loses nothing: cast back, it is the expiry. -/
theorem toUInt64_expiresI64 (expiresAt : Option Timestamp) :
    (expiresI64 expiresAt).toUInt64 = expiresAt.getD 0 := by
  cases expiresAt with
  | none => rfl
  | some timestamp => exact timestamp.toUInt64_toInt64

/-- A transcript determines what it binds; an absent expiry and one of zero
are written alike. -/
theorem transcript_inj {p q : TranscriptParams} (h : p.transcript = q.transcript) :
    p.transferProfile = q.transferProfile ∧ p.senderDeviceId = q.senderDeviceId
      ∧ p.senderClassicalEphemeralPublicKey = q.senderClassicalEphemeralPublicKey
      ∧ boundRecipient p.recipientDeviceId p.anonymousRecipientPublicKey
        = boundRecipient q.recipientDeviceId q.anonymousRecipientPublicKey
      ∧ p.pqcCiphertext = q.pqcCiphertext ∧ p.classicalAlgorithmId = q.classicalAlgorithmId
      ∧ p.pqcAlgorithmId = q.pqcAlgorithmId ∧ p.envelopeId = q.envelopeId
      ∧ p.expiresAt.getD 0 = q.expiresAt.getD 0 := by
  have hlen := congrArg List.length h
  rw [length_transcript, length_transcript] at hlen
  simp only [TranscriptParams.transcript] at h
  obtain ⟨hprofile, h⟩ := leU16_append_inj (List.append_cancel_left h)
  obtain ⟨hsender, h⟩ := array_append_inj h
  obtain ⟨hephemeral, h⟩ := array_append_inj h
  -- the lengths agree, and of the parts only the binding's can differ
  obtain ⟨hbinding, h⟩ := List.append_inj h (by omega)
  obtain ⟨-, h⟩ := leU32_append_inj h
  obtain ⟨hciphertext, h⟩ := array_append_inj h
  obtain ⟨hclassical, h⟩ := leU16_append_inj h
  obtain ⟨hpqc, h⟩ := leU16_append_inj h
  obtain ⟨hid, hexpiry⟩ := array_append_inj h
  have hexpiry' := congrArg Int64.toUInt64 (leI64_inj hexpiry)
  rw [toUInt64_expiresI64, toUInt64_expiresI64] at hexpiry'
  refine ⟨?_, hsender, hephemeral, recipientBinding_inj.mp hbinding, hciphertext, hclassical, hpqc,
    hid, hexpiry'⟩
  rw [← TransferProfileId.mk.injEq] at hprofile
  exact hprofile

/-- Where zero is no expiry, zero for an absent one is unmistakable. -/
theorem expiry_eq_of_getD {a b : Option Timestamp} (ha : a ≠ some 0) (hb : b ≠ some 0)
    (h : a.getD 0 = b.getD 0) : a = b := by
  cases a with
  | none =>
      cases b with
      | none => rfl
      | some b => exact absurd (congrArg some (Option.getD_none.symm.trans h).symm) hb
  | some a =>
      cases b with
      | none => exact absurd (congrArg some h) ha
      | some b => exact congrArg some h

/-- Of params whose expiry is not zero the transcript binds every field, the
expiry over all of `u64`, and of the recipient's two the one that is used:
two transcripts are equal just where all of these are. -/
theorem transcript_binds {p q : TranscriptParams} (hp : p.expiresAt ≠ some 0)
    (hq : q.expiresAt ≠ some 0) :
    p.transcript = q.transcript
      ↔ p.transferProfile = q.transferProfile ∧ p.senderDeviceId = q.senderDeviceId
        ∧ p.senderClassicalEphemeralPublicKey = q.senderClassicalEphemeralPublicKey
        ∧ boundRecipient p.recipientDeviceId p.anonymousRecipientPublicKey
          = boundRecipient q.recipientDeviceId q.anonymousRecipientPublicKey
        ∧ p.pqcCiphertext = q.pqcCiphertext ∧ p.classicalAlgorithmId = q.classicalAlgorithmId
        ∧ p.pqcAlgorithmId = q.pqcAlgorithmId ∧ p.envelopeId = q.envelopeId
        ∧ p.expiresAt = q.expiresAt := by
  constructor
  · intro h
    obtain ⟨hprofile, hsender, hephemeral, hrecipient, hciphertext, hclassical, hpqc,
      hid, hexpiry⟩ :=
      transcript_inj h
    exact ⟨hprofile, hsender, hephemeral, hrecipient, hciphertext, hclassical, hpqc, hid,
      expiry_eq_of_getD hp hq hexpiry⟩
  · rintro ⟨hprofile, hsender, hephemeral, hrecipient, hciphertext, hclassical, hpqc, hid, hexpiry⟩
    rw [TranscriptParams.transcript, TranscriptParams.transcript, hprofile, hsender, hephemeral,
      recipientBinding_inj.mpr hrecipient, hciphertext, hclassical, hpqc, hid, hexpiry]

/-- To a device, expiring in the last millisecond of `u64`. -/
def sampleTranscriptParams (anonymousRecipientPublicKey : Option X25519PublicKey) :
    TranscriptParams where
  transferProfile := .v1
  senderDeviceId := List.Vector.replicate 16 1
  senderClassicalEphemeralPublicKey := List.Vector.replicate 32 2
  recipientDeviceId := some (List.Vector.replicate 16 3)
  anonymousRecipientPublicKey
  pqcCiphertext := List.Vector.replicate 1088 4
  classicalAlgorithmId := classicalAlgIdX25519
  pqcAlgorithmId := pqcAlgIdMlkem768
  envelopeId := List.Vector.replicate 16 5
  expiresAt := some 0xffffffffffffffff

/-- An anonymous key beside a device id is not bound. -/
theorem transcript_binds_of_device :
    (sampleTranscriptParams none).transcript
      = (sampleTranscriptParams (some (List.Vector.replicate 32 6))).transcript :=
  (@transcript_binds (sampleTranscriptParams none)
    (sampleTranscriptParams (some (List.Vector.replicate 32 6))) (by decide) (by decide)).mpr
    ⟨rfl, rfl, rfl, rfl, rfl, rfl, rfl, rfl, rfl⟩

-- ================================================================ signing

/-- What the holder of a signing key does with it. -/
inductive HolderCall where
  | create (now : Timestamp) (draws : EnvelopeDraws) (params : CreateEnvelopeParams)
  | enroll (message : Bytes)
  | pair (message : Bytes)

section Signing

variable (platform : TransferPlatform) (key : SigningPrivateKey)

/-- The holder creates with its own key. -/
def holderCreate (now : Timestamp) (draws : EnvelopeDraws) (params : CreateEnvelopeParams) :
    TransferRes TransferEnvelope :=
  createEnvelope platform now draws { params with senderSigningPrivateKey := key }

/-- The messages a call gives out a signature on. -/
def HolderCall.signed : HolderCall → List Bytes
  | .create now draws params =>
      match holderCreate platform key now draws params with
      | .ok envelope => [transferEnvelopeSigningDomain ++ envelope.transcriptHash.toList]
      | .error _ => []
  | .enroll message =>
      match signEnrollmentMessage platform key message with
      | .ok _ => [deviceEnrollmentSigningDomain ++ message]
      | .error _ => []
  | .pair message =>
      match signPairingMessage platform key message with
      | some _ => [devicePairingSigningDomain ++ message]
      | none => []

/-- A signature verifies under the holder's public key only on a message
of the run. -/
def Unforgeable (publicKey : SigningPublicKey) (calls : List HolderCall) : Prop :=
  ∀ message signature, verify platform.pqc publicKey message signature = .ok () →
    ∃ call ∈ calls, message ∈ call.signed platform key

/-- The transcripts the run hashed for the envelopes it created. -/
def createdTranscripts (calls : List HolderCall) : Set Bytes :=
  { t | ∃ now draws params envelope, HolderCall.create now draws params ∈ calls
      ∧ holderCreate platform key now draws params = .ok envelope
      ∧ t = (envelope.transcriptParams params.anonymousRecipientPublicKey).transcript }

end Signing

variable {platform : TransferPlatform} {key : SigningPrivateKey}

/-- What is authenticated carries a signature on its hash. -/
theorem verify_of_authenticate {now : Timestamp} {envelope : TransferEnvelope}
    {opener : OpenEnvelopeParams} {payload : Bytes}
    (h : authenticateEnvelope platform now envelope opener = .ok payload) :
    validateEnvelope platform now envelope (openerBinding envelope opener) = .ok ()
      ∧ ∃ signature, verify platform.pqc opener.senderSigningPublicKey.signingPublicKey
        (transferEnvelopeSigningDomain ++ envelope.transcriptHash.toList) signature = .ok () := by
  simp only [authenticateEnvelope, bind_eq_ok, orErr_eq_ok, Prod.exists] at h
  obtain ⟨_, hvalid, transferKey, _, plaintext, _, signature, payload'', _, _, hverify, _⟩ := h
  exact ⟨hvalid, signature, hverify⟩

/-- An opening verified the sender's signature on the envelope's hash. -/
theorem verify_of_open {clock : OpenClock} {envelope : TransferEnvelope}
    {opener : OpenEnvelopeParams}
    {seen seen' : SeenEnvelopeIds} {payload : Bytes}
    (h : openEnvelope platform clock envelope opener seen = (.ok payload, seen')) :
    validateEnvelope platform clock.validate envelope (openerBinding envelope opener) = .ok ()
      ∧ ∃ signature, verify platform.pqc opener.senderSigningPublicKey.signingPublicKey
        (transferEnvelopeSigningDomain ++ envelope.transcriptHash.toList) signature = .ok () := by
  rcases openEnvelope_cases platform clock envelope opener seen with
    ⟨e, -, hrun⟩ | ⟨payload', e, -, hrun, -⟩ | ⟨payload', seen'', hauth, -⟩
  · rw [hrun] at h
    cases h
  · rw [hrun] at h
    cases h
  · exact verify_of_authenticate hauth

end MeissnerSeal
