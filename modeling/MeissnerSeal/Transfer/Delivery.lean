/-
Creation and opening agree: what `create_envelope` returns, its recipient
opens.

# The recipient, twice

The parameters name the recipient by the keys the payload is sealed to
and, separately, by what the transcript binds. Creation asks for an
anonymous binding where there is no device id, and does not ask that it
be the key sealed to; an opener binds its own key. The envelope opens
exactly when the two are one (`created_opens_iff`).
-/
import MeissnerSeal.Transfer.Envelope

namespace MeissnerSeal

open ByteCodec ExceptRules ReplayWindow

variable {platform : TransferPlatform}

-- ========================================================== signed payload

/-- A signed payload decodes to what was encoded. -/
theorem decodeSignedPayload_of_encode {signature : Signature} {payload bytes : Bytes}
    (h : encodeSignedPayload signature payload = .ok bytes) :
    decodeSignedPayload bytes = .ok (signature, payload) := by
  simp only [encodeSignedPayload, bind_eq_ok, okOr_eq_ok, u32TryFrom_eq_some, pure_eq_ok,
    Except.ok.injEq] at h
  obtain ⟨len, hlen, hbytes⟩ := h
  have hlt := len.toNat_lt
  have hmax : usizeMax = 2 ^ 64 - 1 := rfl
  have hseg := segAt_self bytes
  rw [← hbytes] at hseg
  simp only [segAt_append, length_leU16, length_leU32, Nat.zero_add] at hseg
  rw [hbytes] at hseg
  obtain ⟨halg, hlenSeg, hsig, hpayload⟩ := hseg
  have htotal := congrArg List.length hbytes
  simp only [List.length_append, length_leU16, length_leU32] at htotal
  -- the six bytes of the header
  obtain ⟨header, hheaderLen, hheader⟩ := exists_segAt (by omega : 0 + 6 ≤ bytes.length)
  have hheaderSlice : slice? bytes 0 6 = some header := slice?_eq_some_iff.mpr ⟨hheader, by omega⟩
  have halgSlice : slice? header 0 2 = some (leU16 signature.algorithm.toU16) := by
    refine slice?_eq_some_iff.mpr ⟨hheader.within halg ?_, rfl⟩
    rw [length_leU16]
    omega
  have hlenSlice : slice? header 2 6 = some (leU32 len) := by
    refine slice?_eq_some_iff.mpr ⟨hheader.within hlenSeg ?_, rfl⟩
    rw [length_leU32]
    omega
  have hend : checkedAdd 6 len.toNat = some (6 + signature.bytes.length) := by
    rw [hlen]
    exact checkedAdd_eq_some.mpr ⟨rfl, by omega⟩
  have hsigSlice : slice? bytes 6 (6 + signature.bytes.length) = some signature.bytes :=
    slice?_eq_some_iff.mpr ⟨hsig, rfl⟩
  have hpayloadSlice : slice? bytes (6 + signature.bytes.length) bytes.length = some payload :=
    slice?_eq_some_iff.mpr ⟨hpayload, by omega⟩
  have halgArray : tryArray 2 (leU16 signature.algorithm.toU16)
      = some (arrayLE16 signature.algorithm.toU16) := tryArray_eq_some.mpr rfl
  have hlenArray : tryArray 4 (leU32 len) = some (arrayLE32 len) := tryArray_eq_some.mpr rfl
  simp only [decodeSignedPayload, hheaderSlice, okOr_some, ok_bind, halgSlice, halgArray,
    u16OfLE_arrayLE16, SigningAlgorithmId.fromU16_toU16, orErr_ok, hlenSlice, hlenArray,
    u32OfLE_arrayLE32, hend, hsigSlice, hpayloadSlice, pure_eq_ok]

-- ================================================================= creation

/-- What a created envelope was made of. -/
structure CreatedFrom (platform : TransferPlatform) (draws : EnvelopeDraws)
    (params : CreateEnvelopeParams) (envelope : TransferEnvelope) : Prop where
  version : envelope.version = 1
  transferProfile : envelope.transferProfile = .v1
  envelopeId : envelope.envelopeId = draws.envelopeId
  senderDeviceId : envelope.senderDeviceId = params.senderDeviceId
  recipientDeviceId : envelope.recipientDeviceId = params.recipientDeviceId
  ephemeral : envelope.classicalEphemeralPublicKey
    = platform.pqc.x25519Public draws.ephemeralPrivate
  expiresAt : envelope.expiresAt = params.expiresAt
  bound : params.recipientDeviceId ≠ none ∨ params.anonymousRecipientPublicKey ≠ none
  transcriptHash : envelope.transcriptHash
    = computeTranscriptHash platform (envelope.transcriptParams params.anonymousRecipientPublicKey)
  payload : ∃ secret key seed sealedPayload,
    platform.pqc.mlKemEncapsulate params.recipientPqcPublicKey draws.encapsulation
      = some (envelope.pqcCiphertext, secret)
    ∧ deriveTransferKey platform draws.ephemeralPrivate envelope.classicalEphemeralPublicKey
      params.recipientClassicalPublicKey envelope.pqcCiphertext secret
        envelope.transcriptHash = .ok key
    ∧ params.senderSigningPrivateKey = (ed25519Keypair platform.pqc seed).2
    ∧ encodeSignedPayload ⟨.ed25519V1, (platform.pqc.ed25519Sign seed
        (transferEnvelopeSigningDomain ++ envelope.transcriptHash.toList)).toList⟩
        params.plaintextPayload = .ok sealedPayload
    ∧ platform.cipher.encrypt key envelope.nonce sealedPayload envelope.transcriptHash.toList
      = some envelope.encryptedPayload

/-- What `createEnvelope` returned says how it was made. -/
theorem CreatedFrom.of_create {now : Timestamp} {draws : EnvelopeDraws}
    {params : CreateEnvelopeParams} {envelope : TransferEnvelope}
    (h : createEnvelope platform now draws params = .ok envelope) :
    CreatedFrom platform draws params envelope := by
  simp only [createEnvelope, x25519Keypair, bind_eq_ok, rejectIf_eq_ok, okOr_eq_ok, orErr_eq_ok,
    orErrUnwind_eq_ok, signWithDomain, sign_eq_ok, pure_eq_ok, Except.ok.injEq, Prod.exists,
    encrypt_eq_ok] at h
  obtain ⟨-, -, -, hbound, ciphertext, secret, hencap, key, hkey, signature, ⟨seed, hseed, rfl⟩,
    sealedPayload, hsealed, encrypted, nonce, ⟨-, hencrypt⟩, rfl⟩ := h
  refine ⟨rfl, rfl, rfl, rfl, rfl, rfl, rfl, not_and_or.mp hbound, rfl, ?_⟩
  exact ⟨secret, key, seed, sealedPayload, hencap, hkey, hseed, hsealed, hencrypt⟩

/-- The keys of the recipient and the sender as the opener holds them. -/
structure OpenerOf (pqc : PqcBackend) (params : CreateEnvelopeParams)
    (opener : OpenEnvelopeParams) :
    Prop where
  classical : params.recipientClassicalPublicKey = opener.recipientClassicalPublicKey
  classicalPrivate :
    opener.recipientClassicalPublicKey = pqc.x25519Public opener.recipientClassicalPrivateKey
  pqcKey : ∃ seed, pqc.mlKemKeypair seed
    = (params.recipientPqcPublicKey, opener.recipientPqcPrivateKey)
  signing : ∃ seed, params.senderSigningPrivateKey = (ed25519Keypair pqc seed).2
    ∧ opener.senderSigningPublicKey.signingPublicKey = (ed25519Keypair pqc seed).1

section Open

variable {draws : EnvelopeDraws} {params : CreateEnvelopeParams} {envelope : TransferEnvelope}
  {opener : OpenEnvelopeParams}

/-- The opener recovers the secret that was encapsulated. -/
theorem OpenerOf.decapsulates (hopener : OpenerOf platform.pqc params opener)
    (hagrees : platform.pqc.Agrees) {draw : U8Array 32} {ciphertext : MlKemCiphertext}
    {secret : SharedSecret}
    (hencap : platform.pqc.mlKemEncapsulate params.recipientPqcPublicKey draw
      = some (ciphertext, secret)) :
    platform.pqc.mlKemDecapsulate opener.recipientPqcPrivateKey ciphertext = some secret := by
  obtain ⟨seed, hpqc⟩ := hopener.pqcKey
  obtain ⟨ciphertext', secret', hencap', hdecap⟩ := hagrees.encapsulate seed draw
  rw [hpqc] at hencap' hdecap
  obtain ⟨rfl, rfl⟩ := Prod.mk.inj (Option.some.inj (hencap.symm.trans hencap'))
  exact hdecap

/-- The opener derives the sender's key. -/
theorem CreatedFrom.receive_eq_derive (h : CreatedFrom platform draws params envelope)
    (hopener : OpenerOf platform.pqc params opener) (hagrees : platform.pqc.Agrees)
    {secret : SharedSecret}
    (hencap : platform.pqc.mlKemEncapsulate params.recipientPqcPublicKey draws.encapsulation
      = some (envelope.pqcCiphertext, secret)) :
    receiveTransferKey platform opener.recipientClassicalPrivateKey
        opener.recipientClassicalPublicKey envelope.classicalEphemeralPublicKey
        envelope.pqcCiphertext opener.recipientPqcPrivateKey envelope.transcriptHash
      = deriveTransferKey platform draws.ephemeralPrivate envelope.classicalEphemeralPublicKey
        params.recipientClassicalPublicKey envelope.pqcCiphertext secret
        envelope.transcriptHash := by
  rw [hopener.classical, hopener.classicalPrivate, h.ephemeral]
  exact receiveTransferKey_eq_derive hagrees (hopener.decapsulates hagrees hencap) _

/-- Past its validation, an envelope whose signature verifies opens
to the payload. -/
theorem CreatedFrom.authenticate_of_verify (h : CreatedFrom platform draws params envelope)
    (hagrees : platform.pqc.Agrees) (hopener : OpenerOf platform.pqc params opener)
    (hverify : ∀ seed, opener.senderSigningPublicKey.signingPublicKey
        = (ed25519Keypair platform.pqc seed).1 →
      verify platform.pqc (ed25519Keypair platform.pqc seed).1
        (transferEnvelopeSigningDomain ++ envelope.transcriptHash.toList)
        ⟨.ed25519V1, (platform.pqc.ed25519Sign seed
          (transferEnvelopeSigningDomain ++ envelope.transcriptHash.toList)).toList⟩ = .ok ())
    {now : Timestamp}
    (hvalid : validateEnvelope platform now envelope (openerBinding envelope opener) = .ok ()) :
    authenticateEnvelope platform now envelope opener = .ok params.plaintextPayload := by
  obtain ⟨secret, key, seed, sealedPayload, hencap, hkey, hseed, hsealed, hencrypt⟩ := h.payload
  obtain ⟨seed', hseed', hpublic⟩ := hopener.signing
  have hsame : seed = seed' := by
    rw [hseed] at hseed'
    exact List.Vector.toList_injective (SigningPrivateKey.mk.inj hseed').2
  subst hsame
  have hreceive := (h.receive_eq_derive hopener hagrees hencap).trans hkey
  have hverified : verifyWithDomain platform.pqc opener.senderSigningPublicKey.signingPublicKey
      transferEnvelopeSigningDomain envelope.transcriptHash.toList
      ⟨.ed25519V1, (platform.pqc.ed25519Sign seed
        (transferEnvelopeSigningDomain ++ envelope.transcriptHash.toList)).toList⟩ = .ok () := by
    rw [hpublic]
    exact hverify seed hpublic
  simp only [authenticateEnvelope, hvalid, ok_bind, hreceive, orErr_ok, decrypt_of_encrypt hencrypt,
    decodeSignedPayload_of_encode hsealed, hverified, pure_eq_ok]

/-- The recipient derives the key the sender sealed under, from the other
halves of both agreements. -/
theorem CreatedFrom.authenticate (h : CreatedFrom platform draws params envelope)
    (hcorrect : platform.pqc.Correct) (hopener : OpenerOf platform.pqc params opener)
    {now : Timestamp}
    (hvalid : validateEnvelope platform now envelope (openerBinding envelope opener) = .ok ()) :
    authenticateEnvelope platform now envelope opener = .ok params.plaintextPayload :=
  h.authenticate_of_verify hcorrect.toAgrees hopener
    (fun seed _ => verify_of_sign hcorrect seed _) hvalid

/-- The binding of sender and opener is one. -/
def CreateEnvelopeParams.Consistent (params : CreateEnvelopeParams) : Prop :=
  params.recipientDeviceId = none →
    params.anonymousRecipientPublicKey = some params.recipientClassicalPublicKey

/-- A consistent sender hashed the transcript the opener hashes. -/
theorem CreatedFrom.transcript_eq (h : CreatedFrom platform draws params envelope)
    (hopener : OpenerOf platform.pqc params opener) (hconsistent : params.Consistent) :
    (envelope.transcriptParams params.anonymousRecipientPublicKey).transcript
      = (envelope.transcriptParams (openerBinding envelope opener)).transcript := by
  have hbinding : recipientBinding envelope.recipientDeviceId params.anonymousRecipientPublicKey
      = recipientBinding envelope.recipientDeviceId (openerBinding envelope opener) := by
    rw [openerBinding]
    cases hid : envelope.recipientDeviceId with
    | some id => rfl
    | none =>
        have hkey := hconsistent (h.recipientDeviceId.symm.trans hid)
        rw [hkey, hopener.classical]
  simp only [TranscriptParams.transcript, TransferEnvelope.transcriptParams, hbinding]

/-- Two transcripts of one envelope can differ in the recipient's
binding alone. -/
theorem recipientBinding_of_transcript {key key' : Option X25519PublicKey}
    (h : (envelope.transcriptParams key).transcript = (envelope.transcriptParams key').transcript) :
    recipientBinding envelope.recipientDeviceId key
      = recipientBinding envelope.recipientDeviceId key' := by
  simp only [TranscriptParams.transcript, TransferEnvelope.transcriptParams,
    List.append_cancel_left_eq] at h
  exact List.append_cancel_right h

/-- Anonymous senders and openers hash one transcript only for one key. -/
theorem CreatedFrom.consistent_of_transcript (h : CreatedFrom platform draws params envelope)
    (hopener : OpenerOf platform.pqc params opener)
    (heq : (envelope.transcriptParams params.anonymousRecipientPublicKey).transcript
      = (envelope.transcriptParams (openerBinding envelope opener)).transcript) :
    params.Consistent := by
  intro hnone
  have hid : envelope.recipientDeviceId = none := h.recipientDeviceId.trans hnone
  have hbinding := recipientBinding_of_transcript heq
  rw [openerBinding, hid] at hbinding
  cases hanon : params.anonymousRecipientPublicKey with
  | none =>
      rcases h.bound with hbound | hbound
      · exact absurd hnone hbound
      · exact absurd hanon hbound
  | some key =>
      rw [hanon] at hbinding
      rw [hopener.classical]
      exact congrArg some (List.Vector.toList_injective hbinding)

/-- What `create_envelope` returns, the owner of the recipient's keys opens
before its expiry exactly when the recipient's two names agree: the
transcript binds a device id, or the very key the payload is sealed to. -/
theorem created_opens_iff (hcorrect : platform.pqc.Correct) {now : Timestamp}
    (hcreate : createEnvelope platform now draws params = .ok envelope)
    (hopener : OpenerOf platform.pqc params opener)
    (hhash : Set.InjOn platform.kdf.sha256
      {(envelope.transcriptParams params.anonymousRecipientPublicKey).transcript,
        (envelope.transcriptParams (openerBinding envelope opener)).transcript})
    (clock : OpenClock) (hvalidate : ¬ Expired clock.validate envelope.expiresAt)
    (hinsert : ¬ Expired clock.insert envelope.expiresAt) (seen : SeenEnvelopeIds)
    (hnew : envelope.envelopeId ∉ seen.ids) :
    (openEnvelope platform clock envelope opener seen).1 = .ok params.plaintextPayload
      ↔ params.Consistent := by
  have hfrom := CreatedFrom.of_create hcreate
  constructor
  · intro hopen
    have hvalid : ∃ payload, authenticateEnvelope platform clock.validate envelope opener
        = .ok payload := by
      rcases openEnvelope_cases platform clock envelope opener seen with
        ⟨e, -, hrun⟩ | ⟨payload, e, -, hrun, -⟩ | ⟨payload, seen', hauth, -⟩
      · rw [hrun] at hopen
        cases hopen
      · rw [hrun] at hopen
        cases hopen
      · exact ⟨payload, hauth⟩
    obtain ⟨payload, hauth⟩ := hvalid
    simp only [authenticateEnvelope, bind_eq_ok] at hauth
    obtain ⟨_, hvalid, _⟩ := hauth
    -- the transcript the opener computes has the hash that was sealed
    have hopenerHash := (validateEnvelope_eq_ok.mp hvalid).2.2.2
    refine hfrom.consistent_of_transcript hopener (hhash (.inl rfl) (.inr rfl) ?_)
    exact hfrom.transcriptHash.symm.trans hopenerHash.symm
  · intro hconsistent
    -- consistent parameters: both compute one transcript
    have htranscript := hfrom.transcript_eq hopener hconsistent
    have hvalid : validateEnvelope platform clock.validate envelope (openerBinding envelope opener)
        = .ok () := by
      refine validateEnvelope_eq_ok.mpr ⟨hfrom.version, hfrom.transferProfile, hvalidate, ?_⟩
      rw [hfrom.transcriptHash, computeTranscriptHash, computeTranscriptHash, htranscript]
    have hauth := hfrom.authenticate hcorrect hopener hvalid
    obtain ⟨seen', hrun, -⟩ := openEnvelope_of_new hauth hinsert hnew
    rw [hrun]

end Open

-- ============================================================== inhabited

/-- Creation succeeds for generated keys, where nothing it draws is
missing and the message fits the cipher. -/
theorem exists_createEnvelope (hagrees : platform.pqc.Agrees)
    (hexpand : ∀ prk info, (platform.kdf.expand prk info).isSome) {now : Timestamp}
    {draws : EnvelopeDraws} {params : CreateEnvelopeParams} {nonce : Nonce}
    (hnonce : draws.nonce = some nonce) (hlive : ¬ Expired now params.expiresAt)
    (hbound : params.recipientDeviceId ≠ none ∨ params.anonymousRecipientPublicKey ≠ none)
    {opener : OpenEnvelopeParams} (hopener : OpenerOf platform.pqc params opener)
    (hlen : params.plaintextPayload.length + 70 < 2 ^ 32) :
    ∃ envelope, createEnvelope platform now draws params = .ok envelope := by
  obtain ⟨pqcSeed, hpqc⟩ := hopener.pqcKey
  obtain ⟨seed, hseed, -⟩ := hopener.signing
  have hpublic : params.recipientPqcPublicKey = (platform.pqc.mlKemKeypair pqcSeed).1 := by
    rw [hpqc]
  -- the two agreements
  obtain ⟨ciphertext, secret, hencap, -⟩ := hagrees.encapsulate pqcSeed draws.encapsulation
  rw [← hpublic] at hencap
  have hpeer : params.recipientClassicalPublicKey
      = platform.pqc.x25519Public opener.recipientClassicalPrivateKey :=
    hopener.classical.trans hopener.classicalPrivate
  obtain ⟨ss, hss, -⟩ := x25519SharedSecret_comm hagrees draws.ephemeralPrivate
    opener.recipientClassicalPrivateKey
  rw [← hpeer] at hss
  generalize hhash : computeTranscriptHash platform (params.transcriptParams
    (platform.pqc.x25519Public draws.ephemeralPrivate) ciphertext draws.envelopeId) = hash
  obtain ⟨key, hkey⟩ : ∃ key, deriveTransferKey platform draws.ephemeralPrivate
      (platform.pqc.x25519Public draws.ephemeralPrivate)
        params.recipientClassicalPublicKey ciphertext
      secret hash = .ok key := by
    simp only [deriveTransferKey, hss, ok_bind, deriveTransferKeyFromSharedParts, okOr_eq_ok]
    exact Option.isSome_iff_exists.mp (hexpand _ _)
  have hsign : signWithDomain platform.pqc params.senderSigningPrivateKey
      transferEnvelopeSigningDomain hash.toList = .ok ⟨.ed25519V1, (platform.pqc.ed25519Sign seed
        (transferEnvelopeSigningDomain ++ hash.toList)).toList⟩ :=
    sign_eq_ok.mpr ⟨seed, hseed, rfl⟩
  generalize hsignature : platform.pqc.ed25519Sign seed
    (transferEnvelopeSigningDomain ++ hash.toList) = signature at hsign
  have hsigLen : signature.toList.length = 64 := signature.toList_length
  -- what is sealed: the signature before the payload, 70 bytes longer
  obtain ⟨sealedPayload, hsealed, hsealedLen⟩ : ∃ sealedPayload,
      encodeSignedPayload ⟨.ed25519V1, signature.toList⟩ params.plaintextPayload = .ok sealedPayload
        ∧ sealedPayload.length = params.plaintextPayload.length + 70 := by
    refine ⟨_, by rw [encodeSignedPayload, hsigLen]; rfl, ?_⟩
    simp only [List.length_append, length_leU16, length_leU32, hsigLen]
    omega
  obtain ⟨encrypted, hencrypt⟩ : ∃ encrypted,
      platform.cipher.encrypt key nonce sealedPayload hash.toList = some encrypted :=
    exists_encrypt key nonce hash.toList (by omega)
  have hencrypt' : encrypt platform.cipher draws.nonce key sealedPayload hash.toList
      = .ok (encrypted, nonce) := encrypt_eq_ok.mpr ⟨hnonce, hencrypt⟩
  have hexpired : ¬ isExpired now params.expiresAt = true := fun h => hlive (isExpired_iff.mp h)
  rw [createEnvelope, rejectIf_neg _ hexpired, ok_bind, rejectIf_neg _ (not_and_or.mpr hbound)]
  simp only [x25519Keypair, hencap, okOr_some, ok_bind, hhash, hkey, orErr_ok,
    orErrUnwind_ok, hsign, hsealed, hencrypt', pure_eq_ok, Except.ok.injEq, exists_eq']

/-- Cryptography without secrets. The digest of a transcript is what
stands at the place of an anonymous recipient's key. -/
def TransferPlatform.transparent : TransferPlatform where
  cipher := Platform.transparent.cipher
  kdf :=
    { Platform.transparent.kdf with
      sha256 := fun bytes =>
        (tryArray 32 ((bytes.drop 85).take 32)).getD (List.Vector.replicate 32 0) }
  pqc :=
    { x25519Public := fun _ => List.Vector.replicate 32 9
      diffieHellman := fun _ _ => List.Vector.replicate 32 1
      wasContributory := fun _ => true
      mlKemKeypair := fun _ => (List.Vector.replicate 1184 0, List.Vector.replicate 2400 0)
      mlKemEncapsulate := fun _ _ => some (List.Vector.replicate 1088 0, List.Vector.replicate 32 0)
      mlKemDecapsulate := fun _ _ => some (List.Vector.replicate 32 0)
      ed25519Public := id
      ed25519Sign := fun _ _ => List.Vector.replicate 64 0
      isVerifyingKey := fun _ => true
      verifyStrict := fun _ _ _ => true }

/-- The backend of the examples agrees with itself. -/
theorem TransferPlatform.transparent_correct : TransferPlatform.transparent.pqc.Correct where
  diffieHellman_comm _ _ := rfl
  contributory _ _ := rfl
  x25519Public_ne _ := by
    show List.Vector.replicate 32 9 ≠ List.Vector.replicate 32 0xff
    decide
  encapsulate _ _ := ⟨_, _, rfl, rfl⟩
  isVerifyingKey _ := rfl
  verify_sign _ _ := rfl

/-- A sender's parameters and the recipient they are for. -/
def sampleParams (anonymousRecipientPublicKey : X25519PublicKey) : CreateEnvelopeParams where
  senderDeviceId := numberedId 1
  recipientDeviceId := none
  anonymousRecipientPublicKey := some anonymousRecipientPublicKey
  recipientClassicalPublicKey := List.Vector.replicate 32 9
  recipientPqcPublicKey := List.Vector.replicate 1184 0
  senderSigningPrivateKey := ⟨.ed25519V1, List.replicate 32 0⟩
  plaintextPayload := [1, 2, 3]
  expiresAt := none

/-- The recipient's keys, and the sender's key to verify with. -/
def sampleOpener : OpenEnvelopeParams where
  recipientClassicalPrivateKey := List.Vector.replicate 32 0
  recipientClassicalPublicKey := List.Vector.replicate 32 9
  recipientPqcPrivateKey := List.Vector.replicate 2400 0
  senderSigningPublicKey := ⟨⟨.ed25519V1, List.replicate 32 0⟩⟩

def sampleEnvelopeDraws : EnvelopeDraws where
  envelopeId := numberedId 2
  ephemeralPrivate := List.Vector.replicate 32 0
  encapsulation := List.Vector.replicate 32 0
  nonce := some (List.Vector.replicate 24 0)

theorem sampleOpener_of (key : X25519PublicKey) :
    OpenerOf TransferPlatform.transparent.pqc (sampleParams key) sampleOpener where
  classical := rfl
  classicalPrivate := rfl
  pqcKey := ⟨List.Vector.replicate 64 0, rfl⟩
  signing := ⟨List.Vector.replicate 32 0, rfl, rfl⟩

theorem sample_created (key : X25519PublicKey) :
    ∃ envelope, createEnvelope TransferPlatform.transparent 0 sampleEnvelopeDraws (sampleParams key)
      = .ok envelope :=
  exists_createEnvelope TransferPlatform.transparent_correct.toAgrees (fun _ _ => rfl) rfl
    (fun ⟨_, h, _⟩ => nomatch h) (.inr (fun h => nomatch h)) (sampleOpener_of key)
    (by show 3 + 70 < 2 ^ 32; decide)

/-- The digest of an anonymous transcript is its key. -/
theorem transparent_hash {envelope : TransferEnvelope} (key : X25519PublicKey)
    (hid : envelope.recipientDeviceId = none) :
    computeTranscriptHash TransferPlatform.transparent
      (envelope.transcriptParams (some key)) = key := by
  have hdomain : transferTranscriptDomain.length = 35 := rfl
  have hkey : (((envelope.transcriptParams (some key)).transcript.drop 85).take 32)
    = key.toList := by
    simp only [TranscriptParams.transcript, TransferEnvelope.transcriptParams, hid,
      recipientBinding]
    rw [List.drop_append, List.drop_eq_nil_of_le (by omega), hdomain, List.nil_append,
      List.drop_append, List.drop_eq_nil_of_le (by rw [length_leU16]; omega), length_leU16,
      List.nil_append, List.drop_append, List.drop_eq_nil_of_le (by simp), List.nil_append,
      List.drop_append, List.drop_eq_nil_of_le (by simp), List.nil_append]
    simp only [List.Vector.toList_length, Nat.reduceSub, List.drop_zero]
    exact List.take_left' key.toList_length
  show (tryArray 32 _).getD _ = key
  rw [hkey, tryArray_toList]
  rfl

/-- An anonymous envelope sealed to its binding opens. -/
theorem created_opens_iff_of_anonymous :
    ∃ envelope, createEnvelope TransferPlatform.transparent 0 sampleEnvelopeDraws
        (sampleParams (List.Vector.replicate 32 9)) = .ok envelope
      ∧ (openEnvelope TransferPlatform.transparent ⟨0, 0, 0⟩ envelope sampleOpener .new).1
        = .ok [1, 2, 3] := by
  obtain ⟨envelope, hcreate⟩ := sample_created (List.Vector.replicate 32 9)
  have hfrom := CreatedFrom.of_create hcreate
  have hopener := sampleOpener_of (List.Vector.replicate 32 9)
  have hconsistent : (sampleParams (List.Vector.replicate 32 9)).Consistent := fun _ => rfl
  have hexpiry : envelope.expiresAt = none := hfrom.expiresAt
  have hlive : ¬ Expired (0 : Timestamp) envelope.expiresAt := by
    rw [hexpiry]
    exact fun ⟨_, h, _⟩ => nomatch h
  refine ⟨envelope, hcreate, (created_opens_iff TransferPlatform.transparent_correct hcreate hopener
    ?_ ⟨0, 0, 0⟩ hlive hlive .new List.not_mem_nil).mpr hconsistent⟩
  rw [hfrom.transcript_eq hopener hconsistent, Set.pair_eq_singleton]
  exact Set.injOn_singleton ..

/-- An anonymous envelope bound to another key than it is sealed to is
returned, and opens for nobody. -/
theorem mismatched_binding_unopenable :
    ∃ envelope, createEnvelope TransferPlatform.transparent 0 sampleEnvelopeDraws
        (sampleParams (List.Vector.replicate 32 1)) = .ok envelope
      ∧ OpenerOf TransferPlatform.transparent.pqc (sampleParams (List.Vector.replicate 32 1))
        sampleOpener
      ∧ (openEnvelope TransferPlatform.transparent ⟨0, 0, 0⟩ envelope sampleOpener .new).1
        = .error .transcriptMismatch := by
  obtain ⟨envelope, hcreate⟩ := sample_created (List.Vector.replicate 32 1)
  have hfrom := CreatedFrom.of_create hcreate
  have hid : envelope.recipientDeviceId = none := hfrom.recipientDeviceId
  have hversion : ¬ envelope.version ≠ 1 := fun h => h hfrom.version
  have hprofile : ¬ envelope.transferProfile.value ≠ transferProfileV1Id := fun h =>
    h (congrArg TransferProfileId.value hfrom.transferProfile)
  have hlive : ¬ isExpired 0 envelope.expiresAt = true := by
    have hexpiry : envelope.expiresAt = none := hfrom.expiresAt
    rw [hexpiry]
    decide
  have hsender : envelope.transcriptHash = List.Vector.replicate 32 1 :=
    hfrom.transcriptHash.trans (transparent_hash _ hid)
  have hopener : computeTranscriptHash TransferPlatform.transparent
      (envelope.transcriptParams (openerBinding envelope sampleOpener))
        = List.Vector.replicate 32 9 := by
    rw [openerBinding, hid]
    exact transparent_hash _ hid
  have hmismatch : (List.Vector.replicate 32 9 : U8Array 32) ≠ List.Vector.replicate 32 1 := by
    decide
  have hvalid : validateEnvelope TransferPlatform.transparent 0 envelope
      (openerBinding envelope sampleOpener) = .error .transcriptMismatch := by
    rw [validateEnvelope, rejectIf_neg _ hversion, ok_bind, rejectIf_neg _ hprofile, ok_bind,
      rejectIf_neg _ hlive, ok_bind, hopener, hsender]
    exact rejectIf_pos _ hmismatch
  refine ⟨envelope, hcreate, sampleOpener_of _, ?_⟩
  rw [openEnvelope, authenticateEnvelope, hvalid]
  rfl

end MeissnerSeal
