/-
The vault engine: `create`, `unlock` and the checks an untrusted vault
file passes on its way to a session.
-/
import MeissnerSeal.Vault.Fs

namespace MeissnerSeal

open ByteCodec ExceptRules

def headerLenOffset : Nat := 10
def recordTableLenOffset : Nat := 14

/-- The operational ceiling on a vault file, 64 MiB. -/
def maxVaultFileLen : Nat := 64 * 1024 * 1024

/-- `UntrustedVaultFile`. -/
structure UntrustedVaultFile where
  bytes : Bytes
  header : VaultHeader
  recordTableLen : Nat
  wrkFrameOffset : Nat
  wrkFrameLen : UInt32

/-- A `u32` of the file prefix as `parse_and_validate` reads it. -/
def readPrefixField (bytes : Bytes) (offset : Nat) (outOfBounds readError : String) : Res Nat := do
  let raw ← okOr (slice? bytes offset (offset + 4)) (formatError outOfBounds)
  return (u32OfLE (← readArray 4 raw readError)).toNat

/-- `UntrustedVaultFile::parse_and_validate`. -/
def UntrustedVaultFile.parseAndValidate (bytes : Bytes) : Res UntrustedVaultFile := do
  rejectIf (bytes.length > maxVaultFileLen) (formatError "vault file exceeds maximum length")
  let header ← parseHeader bytes
  rejectIf (bytes.length < headerMinLen + 8) (formatError "vault prefix too short")
  let headerLen ← readPrefixField bytes headerLenOffset "header_len out of bounds"
    "header_len read error"
  let recordTableLen ← readPrefixField bytes recordTableLenOffset
    "record_table_len out of bounds" "record_table_len read error"
  let wrkFrameOffset ← okOr (checkedAdd headerMinLen headerLen)
    (formatError "WRK frame offset overflow")
  let wrkFrameLen ← recordFrameLenAt bytes wrkFrameOffset
  return { bytes, header, recordTableLen, wrkFrameOffset, wrkFrameLen }

/-- `AuthenticatedVaultContext`. -/
structure AuthenticatedVaultContext where
  vaultId : U8Array 16
  headerNonce : Nonce
  profileSet : VaultProfileSet
  deriving DecidableEq

/-- `Vault<Unlocked>`. -/
structure UnlockedVault where
  path : Path
  keys : UnlockedKeys
  context : AuthenticatedVaultContext
  deriving DecidableEq

/-- The random values one `create` draws (`none` is a failed draw) and
what `unix_time_millis` returns to it. -/
structure CreateDraws where
  vaultId : Option (U8Array 16)
  recordId : Option (U8Array 16)
  revisionId : Option (U8Array 16)
  headerNonce : Option Nonce
  rootKey : Option Key
  wrkNonce : Option Nonce
  tableNonce : Option Nonce
  createdAt : Res UInt64

variable (platform : Platform)

/-- The vault file `persist_vault_inner` serializes. -/
def createdVaultBytes (draws : CreateDraws) (vaultId : U8Array 16) (headerNonce : Nonce)
    (kdfParams : HeaderKdfParams) (recordId revisionId : U8Array 16) (wrkCiphertext : Bytes)
    (wrkNonce : Nonce) (aad : U8Array recordAadLen) (metadataKey : Key) : Res Bytes := do
  let createdAt ← draws.createdAt
  let aeadProfile ← AeadProfileId.new aeadXchacha20Poly1305V1
  let pqcProfile ← PqcProfileId.new pqcNone
  let kdfProfile ← KdfProfileId.new kdfArgon2idV1
  let schema ← SchemaProfileId.new schemaMeissnerRecordsV2
  let header : VaultHeader :=
    { profileSet := { aeadProfile, pqcProfile, kdfProfile, schema }, vaultId, createdAt,
      formatVersion := formatVersion, schemaProfile := schemaMeissnerRecordsV2,
      aeadProfile := aeadXchacha20Poly1305V1, kdfProfile := kdfArgon2idV1, kdfParams,
      pqcProfile := pqcNone, headerNonce }
  let headerBytes ← serializeHeader header
  let ciphertextLen ← okOr (u32TryFrom wrkCiphertext.length)
    (formatError "ciphertext length overflow")
  let frame : RecordFrame :=
    { frameVersion := formatVersion, recordId, revisionId, nonce := wrkNonce, storedAad := aad,
      ciphertextLen, ciphertext := wrkCiphertext }
  let frameBytes ← serializeRecordFrame frame aad
  let recordTableBytes ← serializeSealedRecordTableV2 platform.cipher draws.tableNonce []
    metadataKey vaultId schemaMeissnerRecordsV2
  serializeVaultFile headerBytes recordTableBytes frameBytes

/-- `persist_vault`: claim the target, then write the vault as a
mutation does; on any error remove the temporary file, and the target if
this call claimed it. -/
def persistVault (io : IoFaults) (path : Path) (recordId : U8Array 16)
    (vaultBytes : Res Bytes) : FsM Unit :=
  let tmpPath := uniqueTmpPath path recordId
  let inner : FsM Unit := do
    let vaultBytes ← FsM.lift vaultBytes
    writeTmp io tmpPath vaultBytes
    renameFile io.rename tmpPath path
    fsyncParent io
  fun fs =>
    match createNewFile io.claim path fs with
    | (.error e, fs) => (.error e, (removeFile io.tmpRemove tmpPath fs).2)
    | (.ok (), fs) =>
        match vaultBytes with
        -- a panic unwinds past the cleanup
        | .error .panic => (.error .panic, fs)
        | _ => (inner.onError (fun fs =>
            removeFile io.targetRemove path (removeFile io.tmpRemove tmpPath fs).2)) fs

/-- Behind its claim `persist_vault` does the rest, and cleans up after it. -/
theorem persistVault_of_claim {io : IoFaults} {path : Path} {recordId : U8Array 16}
    {vaultBytes : Res Bytes} {fs fs' : Fs} (hclaim : createNewFile io.claim path fs = (.ok (), fs'))
    (hpanic : vaultBytes ≠ .error .panic) :
    persistVault io path recordId vaultBytes fs
      = ((do
          let vaultBytes ← FsM.lift vaultBytes
          writeTmp io (uniqueTmpPath path recordId) vaultBytes
          renameFile io.rename (uniqueTmpPath path recordId) path
          fsyncParent io : FsM Unit).onError fun fs =>
            removeFile io.targetRemove path
              (removeFile io.tmpRemove (uniqueTmpPath path recordId) fs).2) fs' := by
  simp only [persistVault, hclaim]

/-- `Vault::create`. -/
def create (io : IoFaults) (draws : CreateDraws) (path : Path) (password : Bytes) : FsM Unit := do
  FsM.lift (rejectIf (password = []) (.invalidState "empty password"))
  let vaultId ← FsM.lift (okOr draws.vaultId .panic)
  let recordId ← FsM.lift (okOr draws.recordId .panic)
  let revisionId ← FsM.lift (okOr draws.revisionId .panic)
  let headerNonce ← FsM.lift (okOr draws.headerNonce .panic)
  let aad := buildAad vaultId formatVersion schemaMeissnerRecordsV2 1 1 0 recordId revisionId
    recordKindWrappedRootKey
  let kdfParams := canonicalArgon2idV1
  let aeadProfile ← FsM.lift (AeadProfileId.new aeadXchacha20Poly1305V1)
  let (keys, wrkCiphertext, wrkNonce) ← FsM.lift (createSessionKeys platform draws.rootKey
    draws.wrkNonce password vaultId headerNonce aeadProfile kdfParams aad)
  persistVault io path recordId (createdVaultBytes platform draws vaultId headerNonce kdfParams
    recordId revisionId wrkCiphertext wrkNonce aad keys.metadataKey)

/-- The part of `unlock_impl` after the file read. -/
def unlockBytes (path : Path) (password bytes : Bytes) : Res UnlockedVault := do
  let untrusted ← UntrustedVaultFile.parseAndValidate bytes
  let bytes := untrusted.bytes
  let header := untrusted.header
  let wrkFrameOffset := untrusted.wrkFrameOffset
  let wrkFrameLen := untrusted.wrkFrameLen
  let context : AuthenticatedVaultContext :=
    { vaultId := header.vaultId, headerNonce := header.headerNonce,
      profileSet := header.profileSet }
  let frameSlice ← okOr (slice? bytes wrkFrameOffset bytes.length)
    (formatError "frame offset out of bounds")
  let frame ← parseRecordFrame frameSlice wrkFrameLen context.profileSet.aeadProfile.value
  let aad := buildAad context.vaultId header.formatVersion context.profileSet.schema.value
    context.profileSet.aeadProfile.value context.profileSet.kdfProfile.value
    context.profileSet.pqcProfile.value frame.recordId frame.revisionId recordKindWrappedRootKey
  validateStoredRecordAad frame.storedAad.toList aad
  let keys ← deriveSessionKeys platform password context.vaultId context.headerNonce
    context.profileSet.aeadProfile header.kdfParams frame.ciphertext frame.nonce aad
  let wrkFrameEnd ← okOr (checkedAdd wrkFrameOffset wrkFrameLen.toNat)
    (formatError "record table offset overflow")
  let recordTableOffset ← okOr (checkedAdd wrkFrameOffset wrkFrameLen.toNat)
    (formatError "record table offset overflow")
  let _ ← openSealedRecordTableV2 platform.cipher bytes recordTableOffset
    untrusted.recordTableLen keys.metadataKey context.vaultId context.profileSet.schema.value
    wrkFrameEnd bytes.length
  return { path, keys, context }

/-- `unlock_impl`. -/
def unlock (io : IoFaults) (path : Path) (password : Bytes) : FsM UnlockedVault := do
  FsM.lift (rejectIf (password = []) (.invalidState "empty password"))
  let bytes ← readFile io.read path
  FsM.lift (unlockBytes platform path password bytes)

end MeissnerSeal
