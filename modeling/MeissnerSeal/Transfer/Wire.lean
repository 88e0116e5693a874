/-
The wire form of a transfer envelope.

# Round trip

An envelope the program created parses back as it was, as long as its
payload's length fits the `u32` of the wire (`parseEnvelopeBytes_of_toBytes`).
A longer payload is written behind a length of `u32::MAX`, and what
follows is then trailing garbage (`parseEnvelopeBytes_of_overlong`).

# One encoding

Every step of the parser determines the bytes it has read, the flags
included, so accepted bytes are the encoding of what they parse to
(`takeEnvelope_consumes`). Parser and encoder are inverse to each other on
the envelopes of this version that fit the wire
(`envelope_codec_bijective`).
-/
import MeissnerSeal.Transfer.Delivery

namespace MeissnerSeal

open ByteCodec ExceptRules ByteParser ReplayWindow

def transferEnvelopeMagic : Bytes := utf8 "MSENV" ++ [1]

/-- A flag byte, and the value if there is one. -/
def optionBytes {α : Type} (write : α → Bytes) : Option α → Bytes
  | some a => 1 :: write a
  | none => [0]

/-- `u32::try_from(len).unwrap_or(u32::MAX)`. -/
def u32Saturated (len : Nat) : UInt32 := (u32TryFrom len).getD 0xffffffff

/-- What stands in front of the payload's length. -/
def envelopeHeaderBytes (envelope : TransferEnvelope) : Bytes :=
  transferEnvelopeMagic
    ++ (leU16 envelope.version
    ++ (leU16 envelope.transferProfile.value
    ++ (envelope.envelopeId.toList
    ++ (envelope.senderDeviceId.toList
    ++ (optionBytes List.Vector.toList envelope.recipientDeviceId
    ++ (envelope.classicalEphemeralPublicKey.toList
    ++ (leU32 (u32Saturated envelope.pqcCiphertext.toList.length)
    ++ (envelope.pqcCiphertext.toList
    ++ (envelope.transcriptHash.toList
    ++ (envelope.nonce.toList
    ++ optionBytes leU64 envelope.expiresAt))))))))))

/-- `envelope_to_bytes`. -/
def envelopeToBytes (envelope : TransferEnvelope) : Bytes :=
  envelopeHeaderBytes envelope
    ++ (leU32 (u32Saturated envelope.encryptedPayload.length) ++ envelope.encryptedPayload)

/-- A flag byte and what it announces. -/
def takeOption {α : Type} (p : ByteParser TransferError α) :
    ByteParser TransferError (Option α) := do
  let flag ← takeU8 .unknownProfile
  if flag = 0 then return none
  else if flag = 1 then
    let a ← p
    return some a
  else throw .unknownProfile

/-- The fields of `parse_envelope_bytes`, up to its check for
trailing bytes. -/
def takeEnvelope : ByteParser TransferError TransferEnvelope := do
  let magic ← take .unknownProfile 6
  guardNot (magic ≠ transferEnvelopeMagic) .unknownProfile
  let version ← takeU16Le .unknownProfile
  guardNot (version ≠ 1) .unknownProfile
  let profile ← takeU16Le .unknownProfile
  let transferProfile ← StateT.lift (TransferProfileId.fromU16 profile)
  let envelopeId ← takeArray .unknownProfile 16
  let senderDeviceId ← takeArray .unknownProfile 16
  let recipientDeviceId ← takeOption (takeArray .unknownProfile 16)
  let classicalEphemeralPublicKey ← takeArray .unknownProfile 32
  let pqcCtLen ← takeU32Le .unknownProfile
  guardNot (pqcCtLen.toNat ≠ 1088) .unknownProfile
  let pqcCiphertext ← takeArray .unknownProfile 1088
  let transcriptHash ← takeArray .unknownProfile 32
  let nonce ← takeArray .unknownProfile 24
  let expiresAt ← takeOption (takeU64Le .unknownProfile)
  let payloadLen ← takeU32Le .unknownProfile
  guardNot (payloadLen.toNat = 0) .unknownProfile
  let encryptedPayload ← take .unknownProfile payloadLen.toNat
  return {
    version, transferProfile, envelopeId, senderDeviceId, recipientDeviceId,
    classicalEphemeralPublicKey, pqcCiphertext, transcriptHash, encryptedPayload, nonce, expiresAt }

/-- `parse_envelope_bytes`. -/
def parseEnvelopeBytes (bytes : Bytes) : TransferRes TransferEnvelope := do
  let (envelope, rest) ← takeEnvelope bytes
  rejectIf (rest ≠ []) .unknownProfile
  return envelope

section FromBytes

variable (platform : TransferPlatform)

/-- `UntrustedTransferEnvelope::validate_for_open`, and
`envelope_from_bytes`, which unwraps it. -/
def envelopeFromBytes (now : Timestamp) (bytes : Bytes) : TransferRes TransferEnvelope := do
  let envelope ← parseEnvelopeBytes bytes
  if envelope.recipientDeviceId.isSome then validateEnvelope platform now envelope none
  else rejectIf (isExpired now envelope.expiresAt = true) .expiredEnvelope
  return envelope

end FromBytes

-- ============================================================ round trip

theorem reads_takeOption {α : Type} {p : ByteParser TransferError α} {write : α → Bytes}
    (hp : ∀ a, Reads p (write a) a) (o : Option α) :
    Reads (takeOption p) (optionBytes write o) o := by
  cases o with
  | none =>
      show Reads _ ([0] ++ []) none
      exact (reads_takeU8 TransferError.unknownProfile 0).bind (Reads.pure none)
  | some a =>
      show Reads _ ([1] ++ write a) (some a)
      exact (reads_takeU8 TransferError.unknownProfile 1).bind ((hp a).return rfl)

/-- The fields of an envelope of this version, behind a payload length that
is the payload's. -/
theorem reads_takeEnvelope {envelope : TransferEnvelope} (hversion : envelope.version = 1)
    (hprofile : envelope.transferProfile = .v1) {len : UInt32} {payload : Bytes}
    (hlen : len.toNat = payload.length) (hne : payload ≠ []) :
    Reads takeEnvelope (envelopeHeaderBytes envelope ++ (leU32 len ++ payload))
      { envelope with encryptedPayload := payload } := by
  have hctLen : u32Saturated envelope.pqcCiphertext.toList.length = 1088 := by
    rw [List.Vector.toList_length]
    rfl
  have hpayload : ¬ len.toNat = 0 := by
    rw [hlen]
    exact fun h => hne (List.eq_nil_of_length_eq_zero h)
  have hpayloadReads := reads_take TransferError.unknownProfile payload
  rw [← hlen] at hpayloadReads
  simp only [envelopeHeaderBytes, hctLen, hversion, hprofile, List.append_assoc]
  refine (reads_take TransferError.unknownProfile transferEnvelopeMagic).bind ?_
  refine Reads.guardNot (fun h => h rfl) ?_
  refine (reads_takeU16Le TransferError.unknownProfile 1).bind ?_
  refine Reads.guardNot (fun h => h rfl) ?_
  refine (reads_takeU16Le TransferError.unknownProfile transferProfileV1Id).bind ?_
  have hv1 : TransferProfileId.fromU16 transferProfileV1Id = .ok .v1 := rfl
  refine Reads.lift hv1 ?_
  refine (reads_takeArray TransferError.unknownProfile envelope.envelopeId).bind ?_
  refine (reads_takeArray TransferError.unknownProfile envelope.senderDeviceId).bind ?_
  refine (reads_takeOption (reads_takeArray TransferError.unknownProfile)
    envelope.recipientDeviceId).bind ?_
  refine (reads_takeArray TransferError.unknownProfile envelope.classicalEphemeralPublicKey).bind ?_
  refine (reads_takeU32Le TransferError.unknownProfile 1088).bind ?_
  refine Reads.guardNot (fun h => h rfl) ?_
  refine (reads_takeArray TransferError.unknownProfile envelope.pqcCiphertext).bind ?_
  refine (reads_takeArray TransferError.unknownProfile envelope.transcriptHash).bind ?_
  refine (reads_takeArray TransferError.unknownProfile envelope.nonce).bind ?_
  refine (reads_takeOption (reads_takeU64Le TransferError.unknownProfile)
    envelope.expiresAt).bind ?_
  refine (reads_takeU32Le TransferError.unknownProfile len).bind ?_
  refine Reads.guardNot hpayload ?_
  exact hpayloadReads.return rfl

/-- A created envelope with a payload that fits its length
field parses back. -/
theorem parseEnvelopeBytes_of_toBytes {envelope : TransferEnvelope}
    (hversion : envelope.version = 1)
    (hprofile : envelope.transferProfile = .v1) (hne : envelope.encryptedPayload ≠ [])
    (hlen : envelope.encryptedPayload.length < 2 ^ 32) :
    parseEnvelopeBytes (envelopeToBytes envelope) = .ok envelope := by
  have hlen' : (u32Saturated envelope.encryptedPayload.length).toNat
      = envelope.encryptedPayload.length := by
    rw [u32Saturated, u32TryFrom_of_lt hlen, Option.getD_some, toNat_u32_ofNat hlen]
  rw [parseEnvelopeBytes, envelopeToBytes, (reads_takeEnvelope hversion hprofile hlen' hne).run]
  rfl

/-- A longer one does not. -/
theorem parseEnvelopeBytes_of_overlong {envelope : TransferEnvelope}
    (hversion : envelope.version = 1) (hprofile : envelope.transferProfile = .v1)
    (hlen : 2 ^ 32 ≤ envelope.encryptedPayload.length) :
    parseEnvelopeBytes (envelopeToBytes envelope) = .error .unknownProfile := by
  have hmax : (0xffffffff : UInt32).toNat = 2 ^ 32 - 1 := rfl
  have hsaturated : u32Saturated envelope.encryptedPayload.length = 0xffffffff := by
    rw [u32Saturated, u32TryFrom, if_neg (by omega)]
    rfl
  -- the parser takes as much as the length field says, and leaves the rest
  have hsplit := List.take_append_drop (2 ^ 32 - 1) envelope.encryptedPayload
  have hread : (0xffffffff : UInt32).toNat
    = (envelope.encryptedPayload.take (2 ^ 32 - 1)).length := by
    rw [hmax, List.length_take]
    omega
  have hne : envelope.encryptedPayload.take (2 ^ 32 - 1) ≠ [] := by
    intro h
    rw [h, List.length_nil, hmax] at hread
    omega
  have hrest : envelope.encryptedPayload.drop (2 ^ 32 - 1) ≠ [] := by
    intro h
    have hlength := congrArg List.length h
    rw [List.length_drop, List.length_nil] at hlength
    omega
  have hparse := reads_takeEnvelope hversion hprofile hread hne
    (envelope.encryptedPayload.drop (2 ^ 32 - 1))
  rw [List.append_assoc, List.append_assoc, hsplit] at hparse
  rw [parseEnvelopeBytes, envelopeToBytes, hsaturated, hparse]
  simp only [ok_bind, rejectIf_pos _ hrest, error_bind]

-- ============================================================ one encoding

/-- What the wire carries: an envelope of this version and profile whose
payload is not empty and fits its length. -/
structure TransferEnvelope.OnWire (envelope : TransferEnvelope) : Prop where
  version : envelope.version = 1
  profile : envelope.transferProfile = .v1
  payload : envelope.encryptedPayload ≠ []
  length : envelope.encryptedPayload.length < 2 ^ 32

theorem consumes_takeOption {α : Type} {p : ByteParser TransferError α} {write : α → Bytes}
    (hp : Consumes p write) : Consumes (takeOption p) (optionBytes write) := by
  intro bytes o rest h
  obtain ⟨flag, mid, hbytes, h⟩ := (consumes_takeU8 _).peel h
  by_cases hzero : flag = 0
  · rw [if_pos hzero, pure_apply, Except.ok.injEq, Prod.mk.injEq] at h
    rw [hbytes, ← h.1, ← h.2, hzero]
    rfl
  · rw [if_neg hzero] at h
    by_cases hone : flag = 1
    · rw [if_pos hone] at h
      obtain ⟨a, rest', hmid, h⟩ := hp.peel h
      rw [pure_apply, Except.ok.injEq, Prod.mk.injEq] at h
      rw [hbytes, hmid, ← h.1, ← h.2, hone]
      rfl
    · rw [if_neg hone] at h
      cases h

theorem TransferProfileId.fromU16_eq_ok {value : UInt16} {profile : TransferProfileId} :
    TransferProfileId.fromU16 value = .ok profile ↔ value = 1 ∧ profile = .v1 := by
  unfold TransferProfileId.fromU16
  by_cases hvalue : value = transferProfileV1Id
  · rw [if_pos hvalue, Except.ok.injEq, hvalue]
    exact ⟨fun h => ⟨rfl, h.symm⟩, fun h => h.2.symm⟩
  · rw [if_neg hvalue]
    exact ⟨fun h => (by cases h), fun h => absurd h.1 hvalue⟩

/-- Field by field, what was read off is what the encoder writes. -/
theorem takeEnvelope_consumes {bytes rest : Bytes} {envelope : TransferEnvelope}
    (h : takeEnvelope bytes = .ok (envelope, rest)) :
    bytes = envelopeToBytes envelope ++ rest ∧ envelope.OnWire := by
  unfold takeEnvelope at h
  obtain ⟨magic, afterMagic, hbytes, -, h⟩ := take_peel h
  obtain ⟨hmagic, h⟩ := guardNot_peel h
  obtain ⟨version, afterVersion, hafterMagic, h⟩ := (consumes_takeU16Le _).peel h
  obtain ⟨hversion, h⟩ := guardNot_peel h
  obtain ⟨profileValue, afterProfile, hafterVersion, h⟩ := (consumes_takeU16Le _).peel h
  obtain ⟨profile, hprofile, h⟩ := lift_peel h
  obtain ⟨rfl, rfl⟩ := TransferProfileId.fromU16_eq_ok.mp hprofile
  obtain ⟨envelopeId, afterId, hafterProfile, h⟩ := (consumes_takeArray _ 16).peel h
  obtain ⟨sender, afterSender, hafterId, h⟩ := (consumes_takeArray _ 16).peel h
  obtain ⟨recipient, afterRecipient, hafterSender, h⟩ :=
    (consumes_takeOption (consumes_takeArray _ 16)).peel h
  obtain ⟨ephemeral, afterEphemeral, hafterRecipient, h⟩ := (consumes_takeArray _ 32).peel h
  obtain ⟨ctLen, afterCtLen, hafterEphemeral, h⟩ := (consumes_takeU32Le _).peel h
  obtain ⟨hctLen, h⟩ := guardNot_peel h
  obtain ⟨ciphertext, afterCiphertext, hafterCtLen, h⟩ := (consumes_takeArray _ 1088).peel h
  obtain ⟨transcriptHash, afterHash, hafterCiphertext, h⟩ := (consumes_takeArray _ 32).peel h
  obtain ⟨nonce, afterNonce, hafterHash, h⟩ := (consumes_takeArray _ 24).peel h
  obtain ⟨expiresAt, afterExpiry, hafterNonce, h⟩ :=
    (consumes_takeOption (consumes_takeU64Le _)).peel h
  obtain ⟨payloadLen, afterLen, hafterExpiry, h⟩ := (consumes_takeU32Le _).peel h
  obtain ⟨hpayloadLen, h⟩ := guardNot_peel h
  obtain ⟨payload, rest', hafterLen, hpayload, h⟩ := take_peel h
  rw [pure_apply, Except.ok.injEq, Prod.mk.injEq] at h
  obtain ⟨rfl, rfl⟩ := h
  rw [Decidable.not_not] at hmagic hversion hctLen
  have hlt : payload.length < 2 ^ 32 := by
    rw [hpayload]
    exact payloadLen.toNat_lt
  -- both length fields hold what the encoder computes
  have hct : ctLen = u32Saturated ciphertext.toList.length := by
    rw [List.Vector.toList_length]
    exact UInt32.toNat_inj.mp hctLen
  have hlen : payloadLen = u32Saturated payload.length := by
    rw [u32Saturated, u32TryFrom_of_lt hlt, Option.getD_some, hpayload, UInt32.ofNat_toNat]
  constructor
  · rw [hbytes, hafterMagic, hafterVersion, hafterProfile, hafterId, hafterSender, hafterRecipient,
      hafterEphemeral, hafterCtLen, hafterCiphertext, hafterHash, hafterNonce, hafterExpiry,
      hafterLen, hmagic, hversion, hct, hlen]
    simp only [envelopeToBytes, envelopeHeaderBytes, List.append_assoc]
    rfl
  · have hne : payload ≠ [] := by
      intro hnil
      rw [hnil, List.length_nil] at hpayload
      exact hpayloadLen hpayload.symm
    exact ⟨hversion, rfl, hne, hlt⟩

theorem takeEnvelope_of_onWire {envelope : TransferEnvelope} (hwire : envelope.OnWire)
    (rest : Bytes) : takeEnvelope (envelopeToBytes envelope ++ rest) = .ok (envelope, rest) := by
  have hlen : (u32Saturated envelope.encryptedPayload.length).toNat
      = envelope.encryptedPayload.length := by
    rw [u32Saturated, u32TryFrom_of_lt hwire.length, Option.getD_some, toNat_u32_ofNat hwire.length]
  exact reads_takeEnvelope hwire.version hwire.profile hlen hwire.payload rest

theorem parseEnvelopeBytes_eq_ok {bytes : Bytes} {envelope : TransferEnvelope} :
    parseEnvelopeBytes bytes = .ok envelope
      ↔ envelopeToBytes envelope = bytes ∧ envelope.OnWire := by
  constructor
  · intro h
    rw [parseEnvelopeBytes, bind_eq_ok] at h
    obtain ⟨⟨parsed, rest⟩, htake, h⟩ := h
    rw [bind_eq_ok] at h
    obtain ⟨_, hrest, h⟩ := h
    rw [rejectIf_eq_ok, Decidable.not_not] at hrest
    rw [pure_eq_ok, Except.ok.injEq] at h
    obtain ⟨hbytes, hwire⟩ := takeEnvelope_consumes htake
    rw [hrest, List.append_nil] at hbytes
    rw [← h]
    exact ⟨hbytes.symm, hwire⟩
  · rintro ⟨rfl, hwire⟩
    exact parseEnvelopeBytes_of_toBytes hwire.version hwire.profile hwire.payload hwire.length

/-- Encoder and parser are inverse to each other: an envelope the wire can
carry is parsed back as it was, and accepted bytes are those the encoder
writes for what they parse to. So bytes that parse to one envelope are
equal, and nothing may follow them. -/
theorem envelope_codec_bijective :
    (∀ envelope : TransferEnvelope, envelope.version = 1 → envelope.transferProfile = .v1 →
        envelope.encryptedPayload ≠ [] → envelope.encryptedPayload.length < 2 ^ 32 →
        parseEnvelopeBytes (envelopeToBytes envelope) = .ok envelope)
      ∧ (∀ bytes envelope, parseEnvelopeBytes bytes = .ok envelope →
        envelopeToBytes envelope = bytes)
      ∧ (∀ bytes bytes' envelope, parseEnvelopeBytes bytes = .ok envelope →
        parseEnvelopeBytes bytes' = .ok envelope → bytes = bytes')
      ∧ ∀ bytes envelope trailing, parseEnvelopeBytes bytes = .ok envelope → trailing ≠ [] →
        parseEnvelopeBytes (bytes ++ trailing) = .error .unknownProfile := by
  refine ⟨fun envelope => parseEnvelopeBytes_of_toBytes, ?_, ?_, ?_⟩
  · intro bytes envelope h
    exact (parseEnvelopeBytes_eq_ok.mp h).1
  · intro bytes bytes' envelope h h'
    rw [← (parseEnvelopeBytes_eq_ok.mp h).1, (parseEnvelopeBytes_eq_ok.mp h').1]
  · intro bytes envelope trailing h htrailing
    obtain ⟨rfl, hwire⟩ := parseEnvelopeBytes_eq_ok.mp h
    rw [parseEnvelopeBytes, takeEnvelope_of_onWire hwire, ok_bind]
    simp only [rejectIf_pos _ htrailing, error_bind]

/-- An envelope with an expiry and no recipient, there and back. -/
theorem envelope_codec_bijective_of_sample :
    ∃ envelope : TransferEnvelope, envelope.recipientDeviceId = none
      ∧ envelope.expiresAt = some 7
      ∧ parseEnvelopeBytes (envelopeToBytes envelope) = .ok envelope :=
  ⟨{ version := 1
     transferProfile := .v1
     envelopeId := List.Vector.replicate 16 1
     senderDeviceId := List.Vector.replicate 16 2
     recipientDeviceId := none
     classicalEphemeralPublicKey := List.Vector.replicate 32 3
     pqcCiphertext := List.Vector.replicate 1088 4
     transcriptHash := List.Vector.replicate 32 5
     encryptedPayload := [6]
     nonce := List.Vector.replicate 24 6
     expiresAt := some 7 }, rfl, rfl,
    envelope_codec_bijective.1 _ rfl rfl (List.cons_ne_nil _ _) (by decide)⟩

end MeissnerSeal
