/-
Key derivation: the Argon2id and HKDF-SHA256 wrappers, over the
third-party primitives as parameters. Only determinism is assumed of
them, so every derivation below is a plain function of its inputs.
-/
import MeissnerSeal.Crypto.Aead

namespace MeissnerSeal

open ByteCodec ExceptRules

/-- Explicit Argon2id parameter set for `KDF_ARGON2ID_V1`. -/
structure Argon2Params where
  mCostKib : UInt32
  tCost : UInt32
  pLanes : UInt32
  outputLen : Nat
  deriving DecidableEq, Repr

def argon2MaxMCostKib : UInt32 := 262144
def argon2MaxTCost : UInt32 := 16
def argon2MaxPLanes : UInt32 := 16
def argon2MinMCostKib : UInt32 := 65536
def argon2MinTCost : UInt32 := 3
def argon2MinPLanes : UInt32 := 4

inductive KdfError where
  | invalidInput
  | backend
  deriving DecidableEq, Repr

/-- The third-party primitives: Argon2id version 0x13 with 32 bytes of
output, SHA-256, and HKDF-SHA256 extract and 32-byte expand. -/
structure KdfBackend where
  argon2id : (password salt : Bytes) → (mCostKib tCost pLanes : UInt32) → Option Key
  sha256 : Bytes → U8Array 32
  extract : (salt ikm : Bytes) → Key
  expand : (prk : Key) → (info : Bytes) → Option Key

/-- The cryptography the vault crate is handed. -/
structure Platform where
  cipher : XChaCha20Poly1305
  kdf : KdfBackend

/-- The key derivations never fail on the inputs the crate hands them. -/
structure KdfBackend.Total (kdf : KdfBackend) : Prop where
  argon2id : ∀ password salt mCostKib tCost pLanes,
    (kdf.argon2id password salt mCostKib tCost pLanes).isSome
  expand : ∀ prk info, (kdf.expand prk info).isSome

/-- A platform that meets what is documented of its parts and keeps no
secret: the cipher appends a constant tag, every derived key is zero. -/
def Platform.transparent : Platform where
  cipher :=
    { encrypt := fun _ _ msg _ => some (msg ++ List.replicate tagLen 0)
      decrypt := fun _ _ ciphertext _ => some (ciphertext.take (ciphertext.length - tagLen))
      decrypt_encrypt := by
        intro _ _ msg _ ciphertext h
        rw [Option.some.injEq] at h
        simp [← h]
      length_encrypt := by
        intro _ _ msg _ ciphertext h
        rw [Option.some.injEq] at h
        simp [← h]
      encrypt_isSome := fun _ _ _ _ _ => rfl }
  kdf :=
    { argon2id := fun _ _ _ _ _ => some (List.Vector.replicate 32 0)
      sha256 := fun _ => List.Vector.replicate 32 0
      extract := fun _ _ => List.Vector.replicate 32 0
      expand := fun _ _ => some (List.Vector.replicate 32 0) }

theorem Platform.transparent_total : Platform.transparent.kdf.Total where
  argon2id := fun _ _ _ _ _ => rfl
  expand := fun _ _ => rfl

def argon2idSaltDomainV1 : Bytes := utf8 "meissnerseal-argon2id-salt-v1"
def vkekSaltDomainV1 : Bytes := utf8 "meissnerseal-vkek-salt-v1"
def vkekInfoV1 : Bytes := utf8 "meissnerseal:vault-kek:v1"
def exportBundleInfo : Bytes := utf8 "meissnerseal:export-bundle:v1"
def rootSaltDomainV1 : Bytes := utf8 "meissnerseal-root-salt-v1"

variable (kdf : KdfBackend)

def constructArgon2idSalt (vaultId : U8Array 16) : Bytes :=
  argon2idSaltDomainV1 ++ vaultId.toList

/-- The range check `derive` and `derive_device_keypair_key` share. -/
def Argon2Params.invalidInput (params : Argon2Params) : Bool :=
  params.mCostKib == 0 || params.tCost == 0 || params.pLanes == 0
    || params.outputLen != 32
    || params.mCostKib < argon2MinMCostKib || params.tCost < argon2MinTCost
    || params.pLanes < argon2MinPLanes
    || params.mCostKib > argon2MaxMCostKib || params.tCost > argon2MaxTCost
    || params.pLanes > argon2MaxPLanes

/-- `kdf::argon2::derive`: the Master Unlock Key. -/
def derive (password : Bytes) (vaultId : U8Array 16) (params : Argon2Params) :
    Except KdfError Key := do
  rejectIf params.invalidInput .invalidInput
  okOr (kdf.argon2id password (constructArgon2idSalt vaultId)
    params.mCostKib params.tCost params.pLanes) .backend

/-- `hkdf::expand::<32>`. -/
def expand (prk : Key) (info : Bytes) : Except KdfError Key :=
  okOr (kdf.expand prk info) .invalidInput

/-- `derive_vkek`: the Vault Key Encryption Key. -/
def deriveVkek (masterUnlockKey : Key) (vaultId : U8Array 16) : Except KdfError Key :=
  expand kdf (kdf.extract (vkekSaltDomainV1 ++ vaultId.toList) masterUnlockKey.toList) vkekInfoV1

/-- `derive_export_bundle_key`: the export AEAD key. -/
def deriveExportBundleKey (passphrase : Bytes) (sourceVaultId : U8Array 16)
    (params : Argon2Params) : Except KdfError Key := do
  let muk ← derive kdf passphrase sourceVaultId params
  expand kdf muk exportBundleInfo

def deviceKeypairKdfDomain : Bytes := utf8 "meissnerseal-device-keypair-v1" ++ [0]

/-- `derive_device_keypair_key`: the key of a sealed device keypair file. -/
def deriveDeviceKeypairKey (passphrase : Bytes) (randomSalt : U8Array 32) (params : Argon2Params) :
    Except KdfError Key := do
  rejectIf params.invalidInput .invalidInput
  okOr (kdf.argon2id passphrase (deviceKeypairKdfDomain ++ randomSalt.toList)
    params.mCostKib params.tCost params.pLanes) .backend

-- ==================================================== subkey registry

inductive SubkeyPurpose where
  | itemKeyWrappingKey
  | metadataEncryptionKey
  | localAuditEventKey
  | syncEnvelopeKey
  | deviceEnrollmentKey
  | recoveryWrappingKey
  | exportBundleKey
  deriving DecidableEq, Repr

def SubkeyPurpose.infoLabel : SubkeyPurpose → String
  | .itemKeyWrappingKey => "item-wrap"
  | .metadataEncryptionKey => "metadata"
  | .localAuditEventKey => "audit"
  | .syncEnvelopeKey => "sync-envelope"
  | .deviceEnrollmentKey => "device-enroll"
  | .recoveryWrappingKey => "recovery-wrap"
  | .exportBundleKey => "export-bundle"

def SubkeyPurpose.needsAead : SubkeyPurpose → Bool
  | .itemKeyWrappingKey | .metadataEncryptionKey => true
  | _ => false

/-- One lower-case hexadecimal digit. -/
def hexDigit (n : Nat) : Char := "0123456789abcdef".toList.getD n '0'

/-- `{byte:02x}`. -/
def hexByte (b : UInt8) : List Char := [hexDigit (b.toNat / 16), hexDigit (b.toNat % 16)]

/-- Lower-case hexadecimal rendering of a byte string. -/
def hexBytes (bytes : Bytes) : String := String.ofList (bytes.flatMap hexByte)

theorem hexDigit_inj : ∀ n < 16, ∀ k < 16, hexDigit n = hexDigit k → n = k := by decide

theorem hexByte_inj {a b : UInt8} (h : hexByte a = hexByte b) : a = b := by
  have ha := a.toNat_lt
  have hb := b.toNat_lt
  obtain ⟨hhigh, htail⟩ := List.cons.inj h
  obtain ⟨hlow, -⟩ := List.cons.inj htail
  have hdiv := hexDigit_inj _ (by omega) _ (by omega) hhigh
  have hmod := hexDigit_inj _ (by omega) _ (by omega) hlow
  exact UInt8.toNat_inj.mp (by omega)

theorem hexBytes_inj {a b : Bytes} (h : hexBytes a = hexBytes b) : a = b := by
  have hchars : a.flatMap hexByte = b.flatMap hexByte := by
    have hlist := congrArg String.toList h
    rwa [hexBytes, hexBytes, String.toList_ofList, String.toList_ofList] at hlist
  clear h
  induction a generalizing b with
  | nil =>
      cases b with
      | nil => rfl
      | cons y b => cases hchars
  | cons x a ih =>
      cases b with
      | nil => cases hchars
      | cons y b =>
          rw [List.flatMap_cons, List.flatMap_cons] at hchars
          obtain ⟨hbyte, hrest⟩ := List.append_inj hchars rfl
          rw [hexByte_inj hbyte, ih hrest]

theorem length_hexBytes (bytes : Bytes) : (hexBytes bytes).length = 2 * bytes.length := by
  rw [hexBytes, String.length_ofList]
  induction bytes with
  | nil => rfl
  | cons b bytes ih =>
      rw [List.flatMap_cons, List.length_append, ih, List.length_cons, hexByte]
      simp only [List.length_cons, List.length_nil]
      omega

/-- `build_subkey_info`. -/
def buildSubkeyInfo (purpose : SubkeyPurpose) (vaultId : U8Array 16) (aeadId : Option UInt16) :
    Except KdfError String :=
  let info := "meissnerseal:" ++ purpose.infoLabel ++ ":v1:vault:" ++ hexBytes vaultId.toList
  match purpose.needsAead, aeadId with
  | true, some id => .ok (info ++ ":aead:" ++ toString id.toNat)
  | true, none => .error .invalidInput
  | false, none => .ok info
  | false, some _ => .error .invalidInput

/-- `derive_subkey`. -/
def deriveSubkey (rootPrk : Key) (purpose : SubkeyPurpose) (vaultId : U8Array 16)
    (aeadId : Option UInt16) : Except KdfError Key := do
  let info ← buildSubkeyInfo purpose vaultId aeadId
  expand kdf rootPrk (utf8 info)

/-- `derive_root_prk`. -/
def deriveRootPrk (vaultRootKey : Key) (vaultId : U8Array 16) (headerNonce : Nonce) : Key :=
  kdf.extract (kdf.sha256 (rootSaltDomainV1 ++ vaultId.toList ++ headerNonce.toList)).toList
    vaultRootKey.toList

end MeissnerSeal
