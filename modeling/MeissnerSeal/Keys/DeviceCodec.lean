/-
Identities and keypairs as bytes, both ways.

# Identities

What is accepted is the one encoding of a valid identity, whose signing key
is absent or an Ed25519 key (`serializeIdentity_of_deserialize`); such an
identity reads back whenever it can be written, which is to say while the
length of its name fits a `u32`.

# Keypairs

The writer takes any signing key, of any length. The reader insists on 32
bytes for an Ed25519 key, so a keypair reads back exactly when its signing
key is sized (`deserializeKeypair_of_serialize_iff`).
-/
import MeissnerSeal.Keys.KeyFile

namespace MeissnerSeal

open ByteCodec ExceptRules ByteParser

variable {identity : DeviceIdentity} {keypair : DeviceKeypair} {bytes rest : Bytes}

/-- No signing key, or an Ed25519 key of its length. -/
def DeviceIdentity.KeyReadable (identity : DeviceIdentity) : Prop :=
  ∀ key, identity.signingPublicKey = some key → key.algorithm = .ed25519V1 ∧ key.bytes.length = 32

-- ============================================================= identities

theorem deviceTrustStateToU8_of_fromU8 {value : UInt8} {state : DeviceTrustState}
    (h : deviceTrustStateFromU8 value = .ok state) : deviceTrustStateToU8 state = value := by
  unfold deviceTrustStateFromU8 at h
  split at h <;> cases h <;> rfl

/-- A signing key that was taken is one the writer puts there. -/
theorem signingKeyBytes_of_take {key : Option SigningPublicKey}
    (h : takeSigningKey bytes = .ok (key, rest)) :
    ∃ x, signingKeyBytes key = .ok x ∧ bytes = x ++ rest
      ∧ ∀ k, key = some k → k.algorithm = .ed25519V1 ∧ k.bytes.length = 32 := by
  unfold takeSigningKey at h
  obtain ⟨flag, afterFlag, hbytes, h⟩ := (consumes_takeU8 _).peel h
  split_ifs at h with hnone hsome
  · rw [pure_apply, Except.ok.injEq, Prod.mk.injEq] at h
    obtain ⟨rfl, rfl⟩ := h
    refine ⟨[0], rfl, by rw [hbytes, hnone], ?_⟩
    intro k hk
    cases hk
  · obtain ⟨value, afterValue, hafterFlag, h⟩ := (consumes_takeU16Le _).peel h
    obtain ⟨algorithm, halgorithm, h⟩ := lift_peel h
    obtain ⟨len, afterLen, hafterValue, h⟩ := (consumes_takeU32Le _).peel h
    obtain ⟨keyBytes, afterKey, hafterLen, hlen, h⟩ := take_peel h
    obtain ⟨k, hk, h⟩ := lift_peel h
    rw [pure_apply, Except.ok.injEq, Prod.mk.injEq] at h
    obtain ⟨rfl, rfl⟩ := h
    obtain ⟨rfl, h32, rfl⟩ := tryNewSigningPublicKey_eq_ok.mp hk
    have hvalue := SigningAlgorithmId.fromU16_eq_ok.mp (orErr_eq_ok.mp halgorithm)
    have hlen' : u32TryFrom keyBytes.length = some len := u32TryFrom_eq_some.mpr hlen.symm
    refine ⟨[1] ++ (leU16 value ++ (leU32 len ++ keyBytes)), ?_, ?_, ?_⟩
    · rw [signingKeyBytes, hlen', hvalue]
      rfl
    · rw [hbytes, hafterFlag, hafterValue, hafterLen, hsome]
      simp only [List.append_assoc]
    · intro k hk
      cases hk
      exact ⟨rfl, h32⟩
  · cases h

/-- An identity that was taken stands at the front, as the writer
puts it there. -/
theorem serializeIdentity_of_take (h : takeIdentity bytes = .ok (identity, rest)) :
    identity.KeyReadable ∧ ∃ x, serializeIdentityBytes identity = .ok x ∧ bytes = x ++ rest := by
  unfold takeIdentity at h
  obtain ⟨version, afterVersion, hbytes, h⟩ := (consumes_takeU8 _).peel h
  obtain ⟨hversion, h⟩ := guardNot_peel h
  obtain ⟨deviceId, afterId, hafterVersion, h⟩ := (consumes_takeArray _ 16).peel h
  obtain ⟨nameLen, afterNameLen, hafterId, h⟩ := (consumes_takeU32Le _).peel h
  obtain ⟨nameBytes, afterName, hafterNameLen, hnameLen, h⟩ := take_peel h
  obtain ⟨displayName, hname, h⟩ := lift_peel h
  obtain ⟨classicalPublicKey, afterClassical, hafterName, h⟩ := (consumes_takeArray _ 32).peel h
  obtain ⟨pqcPublicKey, afterPqc, hafterClassical, h⟩ := (consumes_takeArray _ 1184).peel h
  rw [bind_apply, bind_eq_ok] at h
  obtain ⟨⟨key, afterKey⟩, hkey, h⟩ := h
  obtain ⟨createdAt, afterCreated, hafterKey, h⟩ := (consumes_takeU64Le _).peel h
  obtain ⟨state, afterState, hafterCreated, h⟩ := (consumes_takeU8 _).peel h
  obtain ⟨trustState, hstate, h⟩ := lift_peel h
  rw [pure_apply, Except.ok.injEq, Prod.mk.injEq] at h
  obtain ⟨rfl, rfl⟩ := h
  obtain ⟨signing, hsigning, hafterPqc, hreadable⟩ := signingKeyBytes_of_take hkey
  obtain rfl := utf8_of_fromUtf8 (okOr_eq_ok.mp hname)
  have hlen : u32TryFrom (utf8 displayName).length = some nameLen :=
    u32TryFrom_eq_some.mpr hnameLen.symm
  refine ⟨hreadable, ?_⟩
  simp only [serializeIdentityBytes, hlen, okOr_some, ok_bind, hsigning, pure_eq_ok,
    Except.ok.injEq, exists_eq_left', List.append_assoc, deviceTrustStateToU8_of_fromU8 hstate]
  simp only at hafterKey
  rw [hbytes, hafterVersion, hafterId, hafterNameLen, hafterName, hafterClassical, hafterPqc,
    hafterKey, hafterCreated, not_not.mp hversion]

/-- Accepted bytes are the encoding of the identity they decode to. -/
theorem serializeIdentity_of_deserialize (h : deserializeIdentityBytes bytes = .ok identity) :
    identity.validate = .ok () ∧ identity.KeyReadable
      ∧ serializeIdentityBytes identity = .ok bytes := by
  simp only [deserializeIdentityBytes, bind_eq_ok, Prod.exists, rejectIf_eq_ok, not_not, pure_eq_ok,
    Except.ok.injEq] at h
  obtain ⟨taken, rest, htake, -, rfl, ⟨⟩, hvalid, rfl⟩ := h
  obtain ⟨hreadable, x, hx, rfl⟩ := serializeIdentity_of_take htake
  rw [List.append_nil]
  exact ⟨hvalid, hreadable, hx⟩

/-- An identity whose key the reader accepts can be written iff the length
of its name fits. -/
theorem exists_serializeIdentityBytes_iff (hreadable : identity.KeyReadable) :
    (∃ bytes, serializeIdentityBytes identity = .ok bytes)
      ↔ (utf8 identity.displayName).length < 2 ^ 32 := by
  obtain ⟨signing, hsigning⟩ : ∃ x, signingKeyBytes identity.signingPublicKey = .ok x := by
    cases hkey : identity.signingPublicKey with
    | none => exact ⟨[0], rfl⟩
    | some key =>
        have h32 := (hreadable key hkey).2
        rw [signingKeyBytes, u32TryFrom_of_lt (by omega : key.bytes.length < 2 ^ 32)]
        exact ⟨_, rfl⟩
  simp only [serializeIdentityBytes, hsigning, ok_bind, bind_eq_ok, okOr_eq_ok, u32TryFrom_eq_some,
    pure_eq_ok, Except.ok.injEq]
  constructor
  · rintro ⟨_, len, hlen, -⟩
    rw [← hlen]
    exact len.toNat_lt
  · intro hlt
    exact ⟨_, UInt32.ofNat _, toNat_u32_ofNat hlt, rfl⟩

-- =============================================================== keypairs

/-- What a keypair was read from is what the writer puts there. -/
theorem serializeKeypair_of_take {deviceId : DeviceId} {publicKey : X25519PublicKey}
    (h : takeKeypair bytes = .ok ((deviceId, publicKey, keypair), rest)) :
    keypair.signingPrivateKey.Sized
      ∧ ∀ identity : DeviceIdentity, identity.deviceId = deviceId →
          identity.classicalPublicKey = publicKey →
          bytes = serializeKeypairBytes identity keypair ++ rest := by
  unfold takeKeypair at h
  obtain ⟨version, afterVersion, hbytes, h⟩ := (consumes_takeU8 _).peel h
  obtain ⟨hversion, h⟩ := guardNot_peel h
  obtain ⟨id, afterId, hafterVersion, h⟩ := (consumes_takeArray _ 16).peel h
  obtain ⟨classicalPublicKey, afterPublic, hafterId, h⟩ := (consumes_takeArray _ 32).peel h
  obtain ⟨classicalPrivateKey, afterPrivate, hafterPublic, h⟩ := (consumes_takeArray _ 32).peel h
  obtain ⟨pqcPrivateKey, afterPqc, hafterPrivate, h⟩ := (consumes_takeArray _ 2400).peel h
  obtain ⟨value, afterValue, hafterPqc, h⟩ := (consumes_takeU16Le _).peel h
  obtain ⟨algorithm, halgorithm, h⟩ := lift_peel h
  obtain ⟨len, afterLen, hafterValue, h⟩ := (consumes_takeU32Le _).peel h
  obtain ⟨hguard, h⟩ := guardNot_peel h
  obtain ⟨key, afterKey, hafterLen, hlen, h⟩ := take_peel h
  rw [pure_apply, Except.ok.injEq, Prod.mk.injEq, Prod.mk.injEq, Prod.mk.injEq] at h
  obtain ⟨⟨rfl, rfl, rfl⟩, rfl⟩ := h
  obtain rfl := SigningAlgorithmId.fromU16_eq_ok.mp (orErr_eq_ok.mp halgorithm)
  have hlt : key.length < 2 ^ 32 := by
    rw [hlen]
    exact len.toNat_lt
  have hu32 : u32Saturated key.length = len := by
    apply UInt32.toNat_inj.mp
    rw [u32Saturated_toNat hlt, hlen]
  refine ⟨⟨hlt, fun hed25519 => ?_⟩, ?_⟩
  · rw [hlen]
    by_contra hne
    exact hguard ⟨hed25519, hne⟩
  · rintro identity rfl rfl
    unfold serializeKeypairBytes
    rw [hbytes, hafterVersion, hafterId, hafterPublic, hafterPrivate, hafterPqc, hafterValue,
      hafterLen, not_not.mp hversion, hu32]
    simp only [List.append_assoc]

/-- Accepted bytes are the encoding of the keypair they decode to. -/
theorem serializeKeypair_of_deserialize {pqc : PqcBackend} {deviceId : DeviceId}
    {publicKey : X25519PublicKey}
    (h : deserializeKeypairBytes pqc bytes = .ok (deviceId, publicKey, keypair)) :
    publicKey = pqc.x25519Public keypair.classicalPrivateKey ∧ keypair.signingPrivateKey.Sized
      ∧ ∀ identity : DeviceIdentity, identity.deviceId = deviceId →
          identity.classicalPublicKey = publicKey →
          serializeKeypairBytes identity keypair = bytes := by
  simp only [deserializeKeypairBytes, bind_eq_ok, Prod.exists, rejectIf_eq_ok, not_not, pure_eq_ok,
    Except.ok.injEq, Prod.mk.injEq] at h
  obtain ⟨_, _, _, rest, htake, -, rfl, -, hpublic, rfl, rfl, rfl⟩ := h
  obtain ⟨hsized, hwritten⟩ := serializeKeypair_of_take htake
  refine ⟨hpublic, hsized, fun identity hid hkey => ?_⟩
  rw [hwritten identity hid hkey, List.append_nil]

/-- A keypair that matches the identity's X25519 key reads back iff its
signing key is sized. -/
theorem deserializeKeypair_of_serialize_iff {pqc : PqcBackend}
    (hclassical : identity.classicalPublicKey = pqc.x25519Public keypair.classicalPrivateKey) :
    deserializeKeypairBytes pqc (serializeKeypairBytes identity keypair)
        = .ok (identity.deviceId, identity.classicalPublicKey, keypair)
      ↔ keypair.signingPrivateKey.Sized := by
  exact ⟨fun h => (serializeKeypair_of_deserialize h).2.1,
    deserializeKeypairBytes_of_serialize hclassical⟩

-- ============================================================ both codecs

/-- The two codecs of a device, both ways: what is written reads back, within
the exact bounds of the writer and of the reader, and what reads back was
written so. -/
theorem device_codec (pqc : PqcBackend) :
    (∀ identity : DeviceIdentity, identity.validate = .ok () → identity.KeyReadable →
        ((∃ bytes, serializeIdentityBytes identity = .ok bytes)
            ↔ (utf8 identity.displayName).length < 2 ^ 32)
          ∧ ∀ bytes, serializeIdentityBytes identity = .ok bytes →
              deserializeIdentityBytes bytes = .ok identity)
      ∧ (∀ (bytes : Bytes) (identity : DeviceIdentity),
          deserializeIdentityBytes bytes = .ok identity →
          serializeIdentityBytes identity = .ok bytes)
      ∧ (∀ (identity : DeviceIdentity) (keypair : DeviceKeypair),
          identity.classicalPublicKey = pqc.x25519Public keypair.classicalPrivateKey →
          (deserializeKeypairBytes pqc (serializeKeypairBytes identity keypair)
              = .ok (identity.deviceId, identity.classicalPublicKey, keypair)
            ↔ keypair.signingPrivateKey.Sized))
      ∧ ∀ (bytes : Bytes) (deviceId : DeviceId) (publicKey : X25519PublicKey)
          (keypair : DeviceKeypair),
          deserializeKeypairBytes pqc bytes = .ok (deviceId, publicKey, keypair) →
          publicKey = pqc.x25519Public keypair.classicalPrivateKey
          ∧ ∀ identity : DeviceIdentity, identity.deviceId = deviceId →
              identity.classicalPublicKey = publicKey →
              serializeKeypairBytes identity keypair = bytes := by
  refine ⟨fun identity hvalid hreadable => ?_, fun bytes identity h => ?_,
    fun identity keypair => deserializeKeypair_of_serialize_iff, fun bytes id key keypair h => ?_⟩
  · exact ⟨exists_serializeIdentityBytes_iff hreadable,
      fun bytes => deserializeIdentityBytes_of_serialize hvalid hreadable⟩
  · exact (serializeIdentity_of_deserialize h).2.2
  · obtain ⟨hpublic, -, hwritten⟩ := serializeKeypair_of_deserialize h
    exact ⟨hpublic, hwritten⟩

/-- A device known by its name alone, whose X25519 keys match. -/
def namedIdentity (name : String) : DeviceIdentity where
  deviceId := List.Vector.replicate 16 1
  displayName := name
  classicalPublicKey := DevicePlatform.transparent.pqc.x25519Public (List.Vector.replicate 32 1)
  pqcPublicKey := List.Vector.replicate 1184 1
  signingPublicKey := none
  createdAt := 0
  trustState := .untrusted

/-- Private keys to go with it; the signing key is an Ed25519 key
of any length. -/
def keypairSigning (key : Bytes) : DeviceKeypair where
  classicalPrivateKey := List.Vector.replicate 32 1
  pqcPrivateKey := List.Vector.replicate 2400 1
  signingPrivateKey := ⟨.ed25519V1, key⟩

theorem keyReadable_namedIdentity (name : String) : (namedIdentity name).KeyReadable := by
  intro key hkey
  cases hkey

theorem validate_namedIdentity {name : String} (h : name ≠ "") :
    (namedIdentity name).validate = .ok () := by
  have hname : ¬ (namedIdentity name).displayName = "" := h
  rw [DeviceIdentity.validate, rejectIf_neg _ hname, ok_bind, rejectIf_neg]
  rintro ⟨hstate | hstate, -⟩
  · cases hstate
  · cases hstate

/-- A device with a short name and a 32-byte signing key. -/
theorem device_codec_of_named :
    (∃ bytes, serializeIdentityBytes (namedIdentity "device") = .ok bytes
        ∧ deserializeIdentityBytes bytes = .ok (namedIdentity "device"))
      ∧ deserializeKeypairBytes DevicePlatform.transparent.pqc
          (serializeKeypairBytes (namedIdentity "device") (keypairSigning (List.replicate 32 7)))
        = .ok ((namedIdentity "device").deviceId, (namedIdentity "device").classicalPublicKey,
            keypairSigning (List.replicate 32 7)) := by
  obtain ⟨hidentity, -, hkeypair, -⟩ := device_codec DevicePlatform.transparent.pqc
  obtain ⟨hexists, hback⟩ := hidentity (namedIdentity "device")
    (validate_namedIdentity (by decide)) (keyReadable_namedIdentity "device")
  obtain ⟨bytes, hbytes⟩ := hexists.mpr (by decide)
  refine ⟨⟨bytes, hbytes, hback bytes hbytes⟩, ?_⟩
  exact (hkeypair _ _ rfl).mpr ⟨by decide, fun _ => by decide⟩

theorem length_utf8_replicate (n : Nat) :
    (utf8 (String.ofList (List.replicate n 'n'))).length = n := by
  induction n with
  | zero => rfl
  | succ n ih =>
      have hcons : 'n' :: List.replicate n 'n' = ['n'] ++ List.replicate n 'n' := rfl
      rw [List.replicate_succ, hcons, String.ofList_append, utf8_append, List.length_append, ih]
      exact Nat.add_comm 1 n

/-- A name whose length does not fit is not written; an Ed25519 key of no
bytes is, and does not read back. -/
theorem device_unreadable :
    ((namedIdentity (String.ofList (List.replicate (2 ^ 32) 'n'))).validate = .ok ()
        ∧ (namedIdentity (String.ofList (List.replicate (2 ^ 32) 'n'))).signingPublicKey = none
        ∧ ¬ ∃ bytes, serializeIdentityBytes
            (namedIdentity (String.ofList (List.replicate (2 ^ 32) 'n'))) = .ok bytes)
      ∧ (namedIdentity "device").classicalPublicKey
        = DevicePlatform.transparent.pqc.x25519Public (keypairSigning []).classicalPrivateKey
      ∧ deserializeKeypairBytes DevicePlatform.transparent.pqc
          (serializeKeypairBytes (namedIdentity "device") (keypairSigning []))
        ≠ .ok ((namedIdentity "device").deviceId, (namedIdentity "device").classicalPublicKey,
            keypairSigning []) := by
  generalize hname : String.ofList (List.replicate (2 ^ 32) 'n') = name
  have hlen : (utf8 name).length = 2 ^ 32 := by
    rw [← hname]
    exact length_utf8_replicate (2 ^ 32)
  have hne : name ≠ "" := by
    rintro rfl
    exact absurd hlen (by decide)
  refine ⟨⟨validate_namedIdentity hne, rfl, fun hexists => ?_⟩, rfl, fun hback => ?_⟩
  · have hlt := (exists_serializeIdentityBytes_iff (keyReadable_namedIdentity name)).mp hexists
    exact absurd hlt (not_lt.mpr hlen.ge)
  · have hsized := (deserializeKeypair_of_serialize_iff rfl).mp hback
    exact absurd (hsized.2 rfl) (by decide)

end MeissnerSeal
