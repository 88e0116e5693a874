/-
Out-of-band pairing: the payload two devices exchange, the transcript that
is hashed over it, and the short authentication string their owners compare.

# The transcript

A display name of any length stands in the middle of the transcript, behind
its length as a `u32`; a name too long for one is refused, and no other valid
payload is (`PairingPayload.exists_transcript_iff`). What is hashed thus
determines the payload (`computePairingTranscript_binds`).

# Built payloads

A payload built from an identity passes the checks on a received one
(`validate_of_buildPairingPayload`).
-/
import MeissnerSeal.Keys.Device

namespace MeissnerSeal

open ByteCodec ExceptRules

-- ================================================================ types

def pairingProtocolVersionV1 : UInt16 := 0x0001

abbrev PublicKeyFingerprint := U8Array 32
abbrev PairingNonce := U8Array 32

structure PairingPayload where
  protocolVersion : UInt16
  deviceId : DeviceId
  displayName : String
  classicalPublicKeyFingerprint : PublicKeyFingerprint
  pqcPublicKeyFingerprint : PublicKeyFingerprint
  signingPublicKeyFingerprint : PublicKeyFingerprint
  capabilities : UInt32
  pairingNonce : PairingNonce
  deriving DecidableEq

structure PairingTranscript where
  payload : PairingPayload
  transcriptHash : U8Array 32
  deriving DecidableEq

inductive PairingError where
  | unimplemented
  | unknownProtocolVersion
  | missingSigningPublicKey
  | emptyDisplayName
  | zeroPairingNonce
  | nonceGenerationFailed
  | invalidTrustTransition
  deriving DecidableEq, Repr

abbrev PairingRes := Except PairingError

/-- What one `generate_pairing_nonce` draws; the second only where the
first is zero. -/
structure PairingNonceDraws where
  first : PairingNonce
  second : PairingNonce

-- ============================================================ operations

/-- `validate_pairing_payload`. -/
def validatePairingPayload (payload : PairingPayload) : PairingRes Unit := do
  rejectIf (payload.protocolVersion ≠ pairingProtocolVersionV1) .unknownProtocolVersion
  rejectIf (payload.pairingNonce.toList.all (· == 0) = true) .zeroPairingNonce
  rejectIf (payload.displayName = "") .emptyDisplayName

/-- `generate_pairing_nonce`. -/
def generatePairingNonce (draws : PairingNonceDraws) : PairingRes PairingNonce :=
  if draws.first.toList.any (· != 0) = true then .ok draws.first
  else if draws.second.toList.any (· != 0) = true then .ok draws.second
  else .error .nonceGenerationFailed

variable (kdf : KdfBackend)

/-- `build_pairing_payload`. -/
def buildPairingPayload (draws : PairingNonceDraws) (identity : DeviceIdentity)
    (capabilities : UInt32) : PairingRes PairingPayload := do
  let signingPublicKey ← okOr identity.signingPublicKey .missingSigningPublicKey
  rejectIf (identity.displayName = "") .emptyDisplayName
  let pairingNonce ← generatePairingNonce draws
  return {
    protocolVersion := pairingProtocolVersionV1
    deviceId := identity.deviceId
    displayName := identity.displayName
    classicalPublicKeyFingerprint := kdf.sha256 identity.classicalPublicKey.toList
    pqcPublicKeyFingerprint := kdf.sha256 identity.pqcPublicKey.toList
    signingPublicKeyFingerprint := kdf.sha256 signingPublicKey.bytes
    capabilities
    pairingNonce }

/-- The fields of a transcript in order, the name behind its length. -/
def PairingPayload.transcriptBytes (payload : PairingPayload) (displayNameLen : UInt32) : Bytes :=
  leU16 payload.protocolVersion
    ++ (payload.deviceId.toList
    ++ (leU32 displayNameLen
    ++ (utf8 payload.displayName
    ++ (payload.classicalPublicKeyFingerprint.toList
    ++ (payload.pqcPublicKeyFingerprint.toList
    ++ (payload.signingPublicKeyFingerprint.toList
    ++ (leU32 payload.capabilities
    ++ payload.pairingNonce.toList)))))))

/-- The transcript `compute_pairing_transcript` hashes. -/
def PairingPayload.transcript (payload : PairingPayload) : PairingRes Bytes := do
  validatePairingPayload payload
  let displayNameLen ← okOr (u32TryFrom (utf8 payload.displayName).length) .emptyDisplayName
  return payload.transcriptBytes displayNameLen

/-- `compute_pairing_transcript`. -/
def computePairingTranscript (payload : PairingPayload) : PairingRes PairingTranscript := do
  let transcript ← payload.transcript
  return { payload, transcriptHash := kdf.sha256 transcript }

/-- `derive_short_authentication_string`. -/
def deriveShortAuthenticationString (pairingNonce : PairingNonce) (transcriptHash : U8Array 32) :
    PairingRes String :=
  let digest := kdf.sha256 (pairingNonce.toList ++ transcriptHash.toList)
  .ok (hexBytes (digest.toList.take 3))

-- ============================================================ transcript

/-- A payload has a transcript when it is valid and its name fits a `u32`. -/
theorem PairingPayload.transcript_eq_ok {payload : PairingPayload} {x : Bytes} :
    payload.transcript = .ok x
      ↔ validatePairingPayload payload = .ok ()
        ∧ ∃ displayNameLen : UInt32, displayNameLen.toNat = (utf8 payload.displayName).length
          ∧ x = payload.transcriptBytes displayNameLen := by
  simp only [transcript, bind_eq_ok, okOr_eq_ok, u32TryFrom_eq_some, pure_eq_ok, Except.ok.injEq]
  constructor
  · rintro ⟨⟨⟩, hvalid, len, hlen, rfl⟩
    exact ⟨hvalid, len, hlen, rfl⟩
  · rintro ⟨hvalid, len, hlen, rfl⟩
    exact ⟨(), hvalid, len, hlen, rfl⟩

theorem PairingPayload.exists_transcript_iff {payload : PairingPayload}
    (hvalid : validatePairingPayload payload = .ok ()) :
    (∃ x, payload.transcript = .ok x) ↔ (utf8 payload.displayName).length < 2 ^ 32 := by
  constructor
  · rintro ⟨x, hx⟩
    obtain ⟨-, len, hlen, -⟩ := transcript_eq_ok.mp hx
    exact hlen ▸ len.toNat_lt
  · intro hlt
    exact ⟨_, transcript_eq_ok.mpr ⟨hvalid, _, toNat_u32_ofNat hlt, rfl⟩⟩

/-- Payloads with one transcript are one payload: the length before the name
says where the name ends. -/
theorem PairingPayload.transcript_inj {p q : PairingPayload} {x : Bytes} (hp : p.transcript = .ok x)
    (hq : q.transcript = .ok x) : p = q := by
  obtain ⟨-, len, hlen, rfl⟩ := transcript_eq_ok.mp hp
  obtain ⟨-, len', hlen', h⟩ := transcript_eq_ok.mp hq
  obtain ⟨hversion, h⟩ := leU16_append_inj h
  obtain ⟨hid, h⟩ := array_append_inj h
  obtain ⟨hname, h⟩ := framed_inj hlen hlen' h
  obtain ⟨hclassical, h⟩ := array_append_inj h
  obtain ⟨hpqc, h⟩ := array_append_inj h
  obtain ⟨hsigning, h⟩ := array_append_inj h
  obtain ⟨hcapabilities, hnonce⟩ := leU32_append_inj h
  cases p
  cases q
  rw [PairingPayload.mk.injEq]
  exact ⟨hversion, hid, utf8_inj hname, hclassical, hpqc, hsigning, hcapabilities,
    List.Vector.toList_injective hnonce⟩

variable {kdf : KdfBackend}

theorem computePairingTranscript_eq_ok {payload : PairingPayload} {t : PairingTranscript} :
    computePairingTranscript kdf payload = .ok t
      ↔ ∃ x, payload.transcript = .ok x ∧ t = ⟨payload, kdf.sha256 x⟩ := by
  simp only [computePairingTranscript, bind_eq_ok, pure_eq_ok, Except.ok.injEq]
  exact exists_congr fun x => and_congr_right fun _ => eq_comm

/-- The bytes hashed for two payloads are equal only where every field of the
payloads is. -/
theorem computePairingTranscript_binds {p q : PairingPayload} {s t : PairingTranscript}
    (hp : computePairingTranscript kdf p = .ok s) (hq : computePairingTranscript kdf q = .ok t) :
    ∃ x y, p.transcript = .ok x ∧ s = ⟨p, kdf.sha256 x⟩ ∧ q.transcript = .ok y
      ∧ t = ⟨q, kdf.sha256 y⟩ ∧ (x = y → p = q) := by
  obtain ⟨x, hx, hs⟩ := computePairingTranscript_eq_ok.mp hp
  obtain ⟨y, hy, ht⟩ := computePairingTranscript_eq_ok.mp hq
  refine ⟨x, y, hx, hs, hy, ht, ?_⟩
  rintro rfl
  exact PairingPayload.transcript_inj hx hy

/-- A payload for a device of the given name. -/
def samplePairingPayload (displayName : String) : PairingPayload where
  protocolVersion := pairingProtocolVersionV1
  deviceId := List.Vector.replicate 16 0x11
  displayName
  classicalPublicKeyFingerprint := List.Vector.replicate 32 0x22
  pqcPublicKeyFingerprint := List.Vector.replicate 32 0x33
  signingPublicKeyFingerprint := List.Vector.replicate 32 0x44
  capabilities := 0x01
  pairingNonce := List.Vector.replicate 32 0x55

theorem computePairingTranscript_binds_of_names :
    ∃ x y, (samplePairingPayload "phase1-device").transcript = .ok x
      ∧ (samplePairingPayload "phase1-device\"").transcript = .ok y ∧ x ≠ y := by
  obtain ⟨x, y, hx, -, hy, -, hsame⟩ := @computePairingTranscript_binds Platform.transparent.kdf
    (samplePairingPayload "phase1-device") (samplePairingPayload "phase1-device\"") _ _ rfl rfl
  exact ⟨x, y, hx, hy, fun h => absurd (hsame h) (by decide)⟩

-- ========================================================= built payloads

theorem generatePairingNonce_ne_zero {draws : PairingNonceDraws} {nonce : PairingNonce}
    (h : generatePairingNonce draws = .ok nonce) : ¬ nonce.toList.all (· == 0) = true := by
  have hzero : nonce.toList.any (· != 0) = true := by
    unfold generatePairingNonce at h
    split at h
    case isTrue hfirst =>
      obtain rfl := Except.ok.inj h
      exact hfirst
    case isFalse =>
      split at h
      case isTrue hsecond =>
        obtain rfl := Except.ok.inj h
        exact hsecond
      case isFalse => cases h
  obtain ⟨byte, hmem, hbyte⟩ := List.any_eq_true.mp hzero
  intro hall
  rw [bne, List.all_eq_true.mp hall byte hmem] at hbyte
  cases hbyte

/-- What is built from an identity is accepted by the other side. -/
theorem validate_of_buildPairingPayload {draws : PairingNonceDraws} {identity : DeviceIdentity}
    {capabilities : UInt32} {payload : PairingPayload}
    (h : buildPairingPayload kdf draws identity capabilities = .ok payload) :
    validatePairingPayload payload = .ok () := by
  simp only [buildPairingPayload, bind_eq_ok, okOr_eq_ok, rejectIf_eq_ok, pure_eq_ok,
    Except.ok.injEq] at h
  obtain ⟨signingPublicKey, -, -, hname, nonce, hnonce, rfl⟩ := h
  rw [validatePairingPayload, rejectIf_neg _ (not_not.mpr rfl), ok_bind,
    rejectIf_neg _ (generatePairingNonce_ne_zero hnonce), ok_bind, rejectIf_neg _ hname]

end MeissnerSeal
