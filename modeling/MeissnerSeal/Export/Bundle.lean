/-
Encrypted export and import: the `.msexp` container, the item set it
seals, and the two operations over a vault.

# Environment

One `export` reads the vault once for the list and once for each item;
one `import` issues an `add` for each item and, when one fails, a
`delete` for each item it had added. Each of these calls has its own
draws and its own faults.
-/
import MeissnerSeal.Item.Store

namespace MeissnerSeal

open ByteCodec ExceptRules

def msexpMagic : Bytes := [0x4d, 0x53, 0x45, 0x58, 0x50, 0x01, 0x00, 0x00]

/-- `MSEXP_VERSION_V1`. -/
def msexpVersionV1 : UInt16 := 1

def magicLen : Nat := 8
def versionLen : Nat := 2
def vaultIdLen : Nat := 16
def kdfParamsLenField : Nat := 4
def nonceLen : Nat := 24
def ciphertextLenField : Nat := 4

/-- The import-side ceiling on a bundle's item count. -/
def maxExportItemCount : Nat := 4096

def minBundleLen : Nat :=
  magicLen + versionLen + vaultIdLen + kdfParamsLenField + nonceLen + ciphertextLenField

/-- `ParsedBundle`. -/
structure ParsedBundle where
  version : UInt16
  sourceVaultId : U8Array 16
  kdfParams : Bytes
  nonce : Nonce
  ciphertextAndTag : Bytes

-- =============================================================== framing

/-- `export_aad`. -/
def exportAad (sourceVaultId : U8Array 16) (version : UInt16) : Bytes :=
  sourceVaultId.toList ++ msexpMagic ++ leU16 version

/-- `serialize_bundle`. -/
def serializeBundle (sourceVaultId : U8Array 16) (kdfParams nonce ciphertextAndTag : Bytes) :
    Res Bytes := do
  rejectIf (nonce.length ≠ nonceLen) (formatError "invalid export nonce length")
  let kdfLen ← u32Len kdfParams.length "export KDF params length overflow"
  let ciphertextLen ← u32Len ciphertextAndTag.length "export ciphertext length overflow"
  let overflow := formatError "export bundle length overflow"
  let capacity ← okOr (checkedAdd minBundleLen kdfParams.length) overflow
  let _ ← okOr (checkedAdd capacity ciphertextAndTag.length) overflow
  return msexpMagic ++ leU16 msexpVersionV1 ++ sourceVaultId.toList ++ leU32 kdfLen ++ kdfParams
    ++ nonce ++ leU32 ciphertextLen ++ ciphertextAndTag

/-- `read_u16`, at a cursor of the item set or of the framing. -/
def readExportU16 (bytes : Bytes) (offset : Nat) : Res UInt16 := do
  let stop ← okOr (checkedAdd offset 2) (formatError "field offset overflow")
  let raw ← okOr (slice? bytes offset stop) (formatError "truncated field")
  return u16OfLE (← readArray 2 raw "field read error")

/-- `read_u32`. -/
def readExportU32 (bytes : Bytes) (offset : Nat) : Res UInt32 := do
  let stop ← okOr (checkedAdd offset 4) (formatError "field offset overflow")
  let raw ← okOr (slice? bytes offset stop) (formatError "truncated field")
  return u32OfLE (← readArray 4 raw "field read error")

/-- `parse_bundle`. -/
def parseBundle (bundle : Bytes) : Res ParsedBundle := do
  rejectIf (bundle.length < minBundleLen) (formatError "truncated export bundle")
  let magic ← okOr (slice? bundle 0 magicLen) (formatError "truncated export magic")
  rejectIf (magic ≠ msexpMagic) (formatError "wrong export magic")
  let version ← readExportU16 bundle magicLen
  rejectIf (version ≠ msexpVersionV1) (formatError "unsupported export version")
  let sourceVaultIdOffset := magicLen + versionLen
  let raw ← okOr (slice? bundle sourceVaultIdOffset (sourceVaultIdOffset + vaultIdLen))
    (formatError "truncated export vault id")
  let sourceVaultId ← readArray 16 raw "export vault id read error"
  let kdfLenOffset := sourceVaultIdOffset + vaultIdLen
  let kdfLen := (← readExportU32 bundle kdfLenOffset).toNat
  let kdfParamsOffset ← okOr (checkedAdd kdfLenOffset kdfParamsLenField)
    (formatError "export KDF params offset overflow")
  let kdfParamsEnd ← okOr (checkedAdd kdfParamsOffset kdfLen)
    (formatError "export KDF params length overflow")
  let kdfParams ← okOr (slice? bundle kdfParamsOffset kdfParamsEnd)
    (formatError "truncated export KDF params")
  let nonceEnd ← okOr (checkedAdd kdfParamsEnd nonceLen)
    (formatError "export nonce offset overflow")
  let raw ← okOr (slice? bundle kdfParamsEnd nonceEnd) (formatError "truncated export nonce")
  let nonce ← readArray 24 raw "export nonce read error"
  let ciphertextLenOffset := nonceEnd
  let ciphertextLen := (← readExportU32 bundle ciphertextLenOffset).toNat
  let ciphertextOffset ← okOr (checkedAdd ciphertextLenOffset ciphertextLenField)
    (formatError "export ciphertext offset overflow")
  let ciphertextEnd ← okOr (checkedAdd ciphertextOffset ciphertextLen)
    (formatError "export ciphertext length overflow")
  rejectIf (ciphertextEnd ≠ bundle.length) (formatError "export bundle trailing garbage")
  let ciphertextAndTag ← okOr (slice? bundle ciphertextOffset ciphertextEnd)
    (formatError "truncated export ciphertext")
  return { version, sourceVaultId, kdfParams, nonce, ciphertextAndTag }

-- ============================================================== item set

/-- `write_len_bytes`: the bytes one call appends. -/
def writeLenBytes (bytes : Bytes) (overflow : String) : Res Bytes := do
  let len ← okOr (u32TryFrom bytes.length) (formatError overflow)
  return leU32 len ++ bytes

/-- The tag loop of the `with_item` closure. -/
def exportTags : List String → Res Bytes
  | [] => .ok []
  | tag :: tags => do
      let written ← writeLenBytes (utf8 tag) "export tag length overflow"
      return written ++ (← exportTags tags)

/-- What the `with_item` closure of `serialize_live_item_set` appends. -/
def exportItem (view : DecodedItem) : Res Bytes := do
  let label ← writeLenBytes (utf8 view.label) "export label length overflow"
  let tagCount ← okOr (u32TryFrom view.tags.length) (formatError "export tag count overflow")
  let tags ← exportTags view.tags
  let secret ← writeLenBytes view.secret "export secret length overflow"
  return leU16 view.kind.asU16 ++ label ++ leU32 tagCount ++ tags ++ secret

/-- `take_u16`: the value and the advanced cursor. -/
def takeExportU16 (bytes : Bytes) (cursor : Nat) : Res (UInt16 × Nat) := do
  let value ← readExportU16 bytes cursor
  let cursor ← okOr (checkedAdd cursor 2) (formatError "field cursor overflow")
  return (value, cursor)

/-- `take_u32`. -/
def takeExportU32 (bytes : Bytes) (cursor : Nat) : Res (Nat × Nat) := do
  let value ← readExportU32 bytes cursor
  let cursor ← okOr (checkedAdd cursor 4) (formatError "field cursor overflow")
  return (value.toNat, cursor)

/-- `take_vec`. -/
def takeVec (bytes : Bytes) (cursor : Nat) : Res (Bytes × Nat) := do
  let (len, cursor) ← takeExportU32 bytes cursor
  let stop ← okOr (checkedAdd cursor len) (formatError "field length overflow")
  let value ← okOr (slice? bytes cursor stop) (formatError "truncated field")
  return (value, stop)

/-- `take_utf8`. -/
def takeUtf8 (bytes : Bytes) (cursor : Nat) : Res (String × Nat) := do
  let (raw, cursor) ← takeVec bytes cursor
  let text ← okOr (fromUtf8 raw) (formatError "invalid field encoding")
  return (text, cursor)

/-- The `for _ in 0..tag_count` loop of `deserialize_item_set`. -/
def takeExportTags (bytes : Bytes) : Nat → Nat → Res (List String × Nat)
  | 0, cursor => .ok ([], cursor)
  | count + 1, cursor => do
      let (tag, cursor) ← takeUtf8 bytes cursor
      let (tags, cursor) ← takeExportTags bytes count cursor
      return (tag :: tags, cursor)

/-- The body of the item loop of `deserialize_item_set`. -/
def takeItem (bytes : Bytes) (cursor : Nat) : Res (PlainItem × Nat) := do
  let (kindRaw, cursor) ← takeExportU16 bytes cursor
  let kind ← ItemKind.fromU16 kindRaw
  let (label, cursor) ← takeUtf8 bytes cursor
  let (tagCount, cursor) ← takeExportU32 bytes cursor
  rejectIf (tagCount > maxTagCount) (formatError "export tag count exceeds maximum")
  let (tags, cursor) ← takeExportTags bytes tagCount cursor
  let (secret, cursor) ← takeVec bytes cursor
  return ({ kind, label, secret, tags }, cursor)

/-- The `for _ in 0..item_count` loop of `deserialize_item_set`. -/
def takeItems (bytes : Bytes) : Nat → Nat → Res (List PlainItem × Nat)
  | 0, cursor => .ok ([], cursor)
  | count + 1, cursor => do
      let (item, cursor) ← takeItem bytes cursor
      let (items, cursor) ← takeItems bytes count cursor
      return (item :: items, cursor)

/-- `deserialize_item_set`. -/
def deserializeItemSet (bytes : Bytes) : Res (List PlainItem) := do
  let (itemCount, cursor) ← takeExportU32 bytes 0
  rejectIf (itemCount > maxExportItemCount) (formatError "export item count exceeds maximum")
  let (items, cursor) ← takeItems bytes itemCount cursor
  rejectIf (cursor ≠ bytes.length) (formatError "export payload trailing garbage")
  return items

-- ================================================================ export

variable (platform : Platform)

/-- `derive_export_key`. -/
def deriveExportKey (passphrase : Bytes) (sourceVaultId : U8Array 16)
    (kdfParams : HeaderKdfParams) : Res Key :=
  orErr (deriveExportBundleKey platform.kdf passphrase sourceVaultId kdfParams.argon2) .crypto

/-- The loop of `serialize_live_item_set`; the `i`-th read has fate `io i`. -/
def exportLoop (io : Nat → IoFaults) (session : UnlockedVault) :
    Nat → List ItemSummary → FsM Bytes
  | _, [] => pure []
  | i, summary :: summaries => do
      let written ← withItem platform (io i) session summary.id exportItem
      let rest ← exportLoop io session (i + 1) summaries
      return written ++ rest

/-- `serialize_live_item_set`: read `0` is the list's, read `i + 1` the
`i`-th item's. -/
def serializeLiveItemSet (io : Nat → IoFaults) (session : UnlockedVault) : FsM Bytes := do
  let summaries ← list platform (io 0) session
  let count ← FsM.lift (okOr (u32TryFrom summaries.length)
    (formatError "export item count overflow"))
  let items ← exportLoop platform io session 1 summaries
  return leU32 count ++ items

/-- `export::export`. -/
def exportBundle (io : Nat → IoFaults) (nonceDraw : Option Nonce) (session : UnlockedVault)
    (passphrase : Bytes) : FsM Bytes := do
  FsM.lift (rejectIf (passphrase = []) (.invalidState "empty export passphrase"))
  let sourceVaultId := session.context.vaultId
  let kdfParams := canonicalArgon2idV1
  let kdfParamsBytes ← FsM.lift (serializeKdfProfileParams kdfParams)
  let plaintext ← serializeLiveItemSet platform io session
  let exportKey ← FsM.lift (deriveExportKey platform passphrase sourceVaultId kdfParams)
  let aad := exportAad sourceVaultId msexpVersionV1
  let (ciphertext, nonce) ← FsM.lift
    (orErrUnwind (encrypt platform.cipher nonceDraw exportKey plaintext aad) .crypto)
  FsM.lift (serializeBundle sourceVaultId kdfParamsBytes nonce.toList ciphertext)

-- ================================================================ import

/-- `UntrustedExportBundle::authenticate`: the items of the bundle. -/
def authenticate (bundle passphrase : Bytes) : Res (List PlainItem) := do
  rejectIf (passphrase = []) (.invalidState "empty export passphrase")
  let parsed ← parseBundle bundle
  let kdfParams ← parseKdfProfileParams parsed.kdfParams
  let exportKey ← deriveExportKey platform passphrase parsed.sourceVaultId kdfParams
  let aad := exportAad parsed.sourceVaultId parsed.version
  let plaintext ← orErr
    (decrypt platform.cipher exportKey parsed.nonce parsed.ciphertextAndTag aad) .auth
  deserializeItemSet plaintext

/-- The environment of one `import`: that of its `i`-th `add` and of its
`i`-th rollback `delete`. -/
structure ImportEnv where
  adds : Nat → Env
  deletes : Nat → Env

/-- `imported_ids.iter().all(|&id| delete(session, id).is_ok())`, which
stops at the first failure. -/
def rollback (env : ImportEnv) (session : UnlockedVault) : Nat → List ItemId → FsM Bool
  | _, [] => pure true
  | i, id :: ids => fun fs =>
      match delete platform (env.deletes i) session id fs with
      | (.ok (), fs) => rollback env session (i + 1) ids fs
      -- a panic unwinds through the rollback
      | (.error .panic, fs) => (.error .panic, fs)
      | (.error _, fs) => (.ok false, fs)

/-- The item loop of `import`; `importedIds` are those of the items before. -/
def importLoop (env : ImportEnv) (session : UnlockedVault) :
    List ItemId → List PlainItem → FsM (List ItemId)
  | importedIds, [] => pure importedIds
  | importedIds, item :: items => fun fs =>
      match add platform (env.adds importedIds.length) session item fs with
      | (.ok id, fs) => importLoop env session (importedIds ++ [id]) items fs
      | (.error .panic, fs) => (.error .panic, fs)
      | (.error _, fs) =>
          match rollback platform env session 0 importedIds fs with
          | (.ok true, fs) =>
              (.error (.invalidState "import add failed; rollback succeeded"), fs)
          | (.ok false, fs) => (.error .partialImport, fs)
          | (.error e, fs) => (.error e, fs)

/-- `export::import`. -/
def importBundle (env : ImportEnv) (session : UnlockedVault) (bundle passphrase : Bytes) :
    FsM (List ItemId) := do
  let items ← FsM.lift (authenticate platform bundle passphrase)
  importLoop platform env session [] items

end MeissnerSeal
