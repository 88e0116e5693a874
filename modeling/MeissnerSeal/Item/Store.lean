/-
The item store: every operation re-reads the vault file, opens the
sealed table, and, when it changes something, rewrites the whole file.

# Phases

A mutation reads the file, plans (`planAdd`, `planUpdate`,
`planDelete`: all of its parsing, drawing, sealing and serializing, a
pure function of the bytes read) and persists the plan. The phases are
what two concurrent calls interleave; `mutate` runs them back to back.
-/
import MeissnerSeal.Vault.Engine

namespace MeissnerSeal

open ByteCodec ExceptRules

/-- `SEALED_TABLE_SECTION_OVERHEAD`. -/
def sealedTableSectionOverhead : Nat := 4 + 24 + tagLen

/-- `LoadedVault`. -/
structure LoadedVault where
  bytes : Bytes
  header : VaultHeader
  wrkFrameOffset : Nat
  wrkFrameLen : Nat
  entries : List RecordTableEntry

/-- `PendingRecord`. -/
structure PendingRecord where
  recordId : U8Array 16
  recordKind : UInt16
  revisionId : U8Array 16
  frameBytes : Bytes
  deriving DecidableEq

/-- The random values one mutation may draw; `none` is a failed draw. -/
structure Draws where
  recordId : Option (U8Array 16)
  revisionId : Option (U8Array 16)
  rek : Option Key
  payloadNonce : Option Nonce
  rekWrapNonce : Option Nonce
  frameNonce : Option Nonce
  tableNonce : Option Nonce
  uniqueSeed : Option (U8Array 16)
  deriving DecidableEq

/-- The environment of one call: its random draws and the fate of its
system calls. -/
structure Env where
  draws : Draws
  io : IoFaults := {}
  deriving DecidableEq

/-- `fresh_id`. -/
def freshId (draw : Option (U8Array 16)) : Res (U8Array 16) := okOr draw .panic

/-- `read_prefix_u32`. -/
def readPrefixU32 (bytes : Bytes) (offset : Nat) : Res Nat := do
  let stop ← okOr (checkedAdd offset 4) (formatError "vault prefix offset overflow")
  let raw ← okOr (slice? bytes offset stop) (formatError "truncated vault prefix")
  return (u32OfLE (← readArray 4 raw "prefix u32 read error")).toNat

/-- `id_hex`. -/
def idHex (id : U8Array 16) : String := hexBytes id.toList

variable (platform : Platform)

/-- `load_vault` after the file read, over the sort of `openSealedRecordTableV2With`. -/
def loadVaultBytesWith (sortExtents : List (Nat × Nat) → List (Nat × Nat))
    (session : UnlockedVault) (bytes : Bytes) : Res LoadedVault := do
  let header ← parseHeader bytes
  let headerLen ← readPrefixU32 bytes prefixHeaderLenOffset
  let tableLen ← readPrefixU32 bytes prefixRecordTableLenOffset
  let wrkFrameOffset ← okOr (checkedAdd headerMinLen headerLen)
    (formatError "WRK frame offset overflow")
  let wrkFrameLen ← recordFrameLenAt bytes wrkFrameOffset
  let tableOffset ← okOr (checkedAdd wrkFrameOffset wrkFrameLen.toNat)
    (formatError "record table offset overflow")
  let entries ← openSealedRecordTableV2With sortExtents platform.cipher bytes tableOffset tableLen
    session.keys.metadataKey header.vaultId header.schemaProfile tableOffset bytes.length
  return { bytes, header, wrkFrameOffset, wrkFrameLen := wrkFrameLen.toNat, entries }

/-- `load_vault` after the file read, with the sort of `openSealedRecordTableV2`. -/
def loadVaultBytes (session : UnlockedVault) (bytes : Bytes) : Res LoadedVault :=
  loadVaultBytesWith platform (List.mergeSort · fun left right => left.1 ≤ right.1) session bytes

/-- `load_vault`. -/
def loadVault (io : IoFaults) (session : UnlockedVault) : FsM LoadedVault := do
  let bytes ← readFile io.read session.path
  FsM.lift (loadVaultBytes platform session bytes)

/-- `item_record_aad`. -/
def itemRecordAad (header : VaultHeader) (recordId revisionId : U8Array 16)
    (recordKind : UInt16) : U8Array recordAadLen :=
  buildAad header.vaultId header.formatVersion header.schemaProfile header.aeadProfile
    header.kdfProfile header.pqcProfile recordId revisionId recordKind

/-- `build_record_frame`. -/
def buildRecordFrame (draws : Draws) (recordId revisionId : U8Array 16) (ciphertext : Bytes)
    (aad : U8Array recordAadLen) : Res Bytes := do
  let ciphertextLen ← u32Len ciphertext.length "item frame ciphertext length overflow"
  let nonce ← okOr draws.frameNonce .panic
  serializeRecordFrame
    { frameVersion := formatVersion, recordId, revisionId, nonce, storedAad := aad,
      ciphertextLen, ciphertext } aad

/-- `build_item_frame`. -/
def buildItemFrame (draws : Draws) (item : PlainItem) (itemWrapKey : Key)
    (header : VaultHeader) (recordId revisionId : U8Array 16) : Res Bytes := do
  let aad := itemRecordAad header recordId revisionId recordKindItem
  let payloadPlain ← serializeItemPayload item
  let rek ← okOr draws.rek .panic
  let (encryptedPayload, payloadNonce) ← orErrUnwind
    (encrypt platform.cipher draws.payloadNonce rek payloadPlain aad.toList) .crypto
  let (wrappedRek, rekWrapNonce) ← orErrUnwind
    (encrypt platform.cipher draws.rekWrapNonce itemWrapKey rek.toList aad.toList) .crypto
  let envelopeBytes ← serializeItemRecordFrameEnvelope
    { rekWrapNonce, wrappedRek, payloadNonce, encryptedPayload }
  buildRecordFrame draws recordId revisionId envelopeBytes aad

/-- `existing_frame_bytes`. -/
def existingFrameBytes (loaded : LoadedVault) (entry : RecordTableEntry) : Res Bytes := do
  let start := entry.frameOffset.toNat
  let stop ← okOr (checkedAdd start entry.frameLen.toNat) (formatError "frame bounds overflow")
  okOr (slice? loaded.bytes start stop) (formatError "frame out of bounds")

/-- `read_item`. -/
def readItem (session : UnlockedVault) (loaded : LoadedVault) (entry : RecordTableEntry) :
    Res DecodedItem := do
  let start := entry.frameOffset.toNat
  let frameSlice ← okOr (slice? loaded.bytes start loaded.bytes.length)
    (formatError "frame offset out of bounds")
  let frame ← parseRecordFrame frameSlice entry.frameLen loaded.header.aeadProfile
  rejectIf (frame.recordId ≠ entry.recordId ∨ frame.revisionId ≠ entry.revisionId) .auth
  let envelope ← parseItemRecordFrameEnvelope frame.ciphertext
  let aad := itemRecordAad loaded.header entry.recordId entry.revisionId recordKindItem
  let rekPlain ← orErr (decrypt platform.cipher session.keys.itemWrapKey envelope.rekWrapNonce
    envelope.wrappedRek aad.toList) CoreError.auth
  let rek ← orErr (readArray 32 rekPlain "") CoreError.crypto
  let payloadPlain ← orErr (decrypt platform.cipher rek envelope.payloadNonce
    envelope.encryptedPayload aad.toList) CoreError.auth
  deserializeItemPayload payloadPlain

/-- The record loop of `rewrite_vault`: the table entries and the
concatenated frames, laid out from `nextOffset`. -/
def layoutRecords : List PendingRecord → Nat → Res (List RecordTableEntry × Bytes)
  | [], _ => .ok ([], [])
  | record :: records, nextOffset => do
      let frameLen ← u32Len record.frameBytes.length "frame length overflow"
      let frameOffset ← okOr (u64TryFrom nextOffset) (formatError "frame offset overflow")
      let entry : RecordTableEntry :=
        { recordId := record.recordId, recordKind := record.recordKind,
          revisionId := record.revisionId, frameOffset, frameLen }
      let nextOffset ← okOr (checkedAdd nextOffset record.frameBytes.length)
        (formatError "frame offset overflow")
      let (entries, frames) ← layoutRecords records nextOffset
      return (entry :: entries, record.frameBytes ++ frames)

/-- The file `rewrite_vault` serializes. -/
def rewrittenVault (draws : Draws) (session : UnlockedVault) (loaded : LoadedVault)
    (records : List PendingRecord) : Res Bytes := do
  let headerBytes ← okOr (slice? loaded.bytes headerMinLen loaded.wrkFrameOffset)
    (formatError "header section out of bounds")
  let wrkEnd ← okOr (checkedAdd loaded.wrkFrameOffset loaded.wrkFrameLen)
    (formatError "WRK frame bounds overflow")
  let wrkBytes ← okOr (slice? loaded.bytes loaded.wrkFrameOffset wrkEnd)
    (formatError "WRK frame out of bounds")
  let paddedPlaintextLen ← sealedRecordTablePaddedPlaintextLen records.length
  let tableSectionLen ← okOr (checkedAdd sealedTableSectionOverhead paddedPlaintextLen)
    (formatError "sealed table length overflow")
  let nextOffset ← okOr (checkedAdd wrkEnd tableSectionLen) (formatError "frame offset overflow")
  let (entries, framesConcat) ← layoutRecords records nextOffset
  let tableBytes ← serializeSealedRecordTableV2 platform.cipher draws.tableNonce entries
    session.keys.metadataKey loaded.header.vaultId loaded.header.schemaProfile
  rejectIf (tableBytes.length ≠ tableSectionLen)
    (formatError "sealed table section length mismatch")
  let overflow := formatError "body length overflow"
  let bodyLen ← okOr (checkedAdd wrkBytes.length tableBytes.length) overflow
  let bodyLen ← okOr (checkedAdd bodyLen framesConcat.length) overflow
  let headerLen ← u32Len headerBytes.length "header length overflow"
  let tableLen ← u32Len tableBytes.length "record table length overflow"
  let bodyLen ← okOr (u64TryFrom bodyLen) overflow
  let prefixBytes ← serializePrefix formatVersion headerLen tableLen bodyLen
  return prefixBytes ++ headerBytes ++ wrkBytes ++ tableBytes ++ framesConcat

/-- The loop of `stage_records` over the remaining entries: the staged
records, and whether the replacement was used. -/
def stageEntries (loaded : LoadedVault) (position : Option Nat)
    (replacement : Option PendingRecord) :
    Nat → List RecordTableEntry → Res (List PendingRecord × Option PendingRecord)
  | _, [] => .ok ([], replacement)
  | index, entry :: entries =>
      if position = some index then do
        let pending ← okOr replacement (.invalidState "missing record replacement")
        let (records, unused) ← stageEntries loaded position none (index + 1) entries
        return (pending :: records, unused)
      else do
        let frameBytes ← existingFrameBytes loaded entry
        let record : PendingRecord :=
          { recordId := entry.recordId, recordKind := entry.recordKind,
            revisionId := entry.revisionId, frameBytes }
        let (records, unused) ← stageEntries loaded position replacement (index + 1) entries
        return (record :: records, unused)

/-- `stage_records`. -/
def stageRecords (loaded : LoadedVault) (position : Option Nat)
    (replacement : Option PendingRecord) : Res (List PendingRecord) := do
  let (records, unused) ← stageEntries loaded position replacement 0 loaded.entries
  match unused with
  -- append-only case (no position matched): used by `add`
  | some pending => return records ++ [pending]
  | none => return records

/-- `live_item_position`. -/
def liveItemPosition (loaded : LoadedVault) (itemId : ItemId) : Option Nat :=
  loaded.entries.findIdx? fun entry =>
    entry.recordId = itemId ∧ entry.recordKind = recordKindItem

-- ============================================================ mutations

/-- What a mutation decides from the bytes it read: its result, and the
file image and temporary-file seed to persist, unless it is a no-op. -/
structure Plan (α : Type) where
  value : α
  write : Option (Bytes × U8Array 16)

/-- `rewrite_vault` up to its persist. -/
def planRewrite {α : Type} (draws : Draws) (session : UnlockedVault) (loaded : LoadedVault)
    (records : List PendingRecord) (value : α) : Res (Plan α) := do
  let vaultBytes ← rewrittenVault platform draws session loaded records
  let uniqueSeed ← freshId draws.uniqueSeed
  return { value, write := some (vaultBytes, uniqueSeed) }

/-- `add` between its file read and its persist. -/
def planAdd (draws : Draws) (session : UnlockedVault) (item : PlainItem) (bytes : Bytes) :
    Res (Plan ItemId) := do
  let loaded ← loadVaultBytes platform session bytes
  let recordId ← freshId draws.recordId
  let revisionId ← freshId draws.revisionId
  let frameBytes ← buildItemFrame platform draws item session.keys.itemWrapKey loaded.header
    recordId revisionId
  let records ← stageRecords loaded none
    (some { recordId, recordKind := recordKindItem, revisionId, frameBytes })
  planRewrite platform draws session loaded records recordId

/-- `update` between its file read and its persist. -/
def planUpdate (draws : Draws) (session : UnlockedVault) (itemId : ItemId) (item : PlainItem)
    (bytes : Bytes) : Res (Plan Unit) := do
  let loaded ← loadVaultBytes platform session bytes
  let position ← okOr (liveItemPosition loaded itemId) (.notFound (idHex itemId))
  let revisionId ← freshId draws.revisionId
  let frameBytes ← buildItemFrame platform draws item session.keys.itemWrapKey loaded.header
    itemId revisionId
  let records ← stageRecords loaded (some position)
    (some { recordId := itemId, recordKind := recordKindItem, revisionId, frameBytes })
  planRewrite platform draws session loaded records ()

/-- `delete` between its file read and its persist. -/
def planDelete (draws : Draws) (session : UnlockedVault) (itemId : ItemId) (bytes : Bytes) :
    Res (Plan Unit) := do
  let loaded ← loadVaultBytes platform session bytes
  match liveItemPosition loaded itemId with
  | none =>
      let alreadyTombstoned := loaded.entries.any fun entry =>
        entry.recordId = itemId ∧ entry.recordKind = recordKindTombstone
      if alreadyTombstoned then return { value := (), write := none }
      else .error (.notFound (idHex itemId))
  | some position =>
      let revisionId ← freshId draws.revisionId
      let aad := itemRecordAad loaded.header itemId revisionId recordKindTombstone
      let frameBytes ← buildRecordFrame draws itemId revisionId [] aad
      let records ← stageRecords loaded (some position)
        (some { recordId := itemId, recordKind := recordKindTombstone, revisionId, frameBytes })
      planRewrite platform draws session loaded records ()

/-- Read, plan, persist. -/
def mutate {α : Type} (io : IoFaults) (path : Path) (plan : Bytes → Res (Plan α)) : FsM α := do
  let bytes ← readFile io.read path
  let planned ← FsM.lift (plan bytes)
  match planned.write with
  | none => return planned.value
  | some (vaultBytes, uniqueSeed) =>
      persistVaultMutationV2 io path vaultBytes uniqueSeed
      return planned.value

/-- `item::add`. -/
def add (env : Env) (session : UnlockedVault) (item : PlainItem) : FsM ItemId :=
  mutate env.io session.path (planAdd platform env.draws session item)

/-- `item::update`. -/
def update (env : Env) (session : UnlockedVault) (itemId : ItemId) (item : PlainItem) :
    FsM Unit :=
  mutate env.io session.path (planUpdate platform env.draws session itemId item)

/-- `item::delete`. -/
def delete (env : Env) (session : UnlockedVault) (itemId : ItemId) : FsM Unit :=
  mutate env.io session.path (planDelete platform env.draws session itemId)

-- ================================================================ reads

/-- The entry loop of `list`. -/
def summarizeEntries (session : UnlockedVault) (loaded : LoadedVault) :
    List RecordTableEntry → Res (List ItemSummary)
  | [] => .ok []
  | entry :: entries =>
      if entry.recordKind ≠ recordKindItem then
        summarizeEntries session loaded entries
      else do
        let decoded ← readItem platform session loaded entry
        return decoded.summary entry.recordId :: (← summarizeEntries session loaded entries)

/-- `item::list`. -/
def list (io : IoFaults) (session : UnlockedVault) : FsM (List ItemSummary) := do
  let loaded ← loadVault platform io session
  FsM.lift (summarizeEntries platform session loaded loaded.entries)

/-- The lookup and read of `with_item`. -/
def viewItem (session : UnlockedVault) (loaded : LoadedVault) (itemId : ItemId) :
    Res DecodedItem := do
  let found := loaded.entries.find? fun entry =>
    entry.recordId = itemId ∧ entry.recordKind = recordKindItem
  let entry ← okOr found (.notFound (idHex itemId))
  readItem platform session loaded entry

/-- `item::with_item`. The closure may carry out what it captured, as an
accumulating closure of the source does by mutation. -/
def withItem {α : Type} (io : IoFaults) (session : UnlockedVault) (itemId : ItemId)
    (f : DecodedItem → Res α) : FsM α := do
  let loaded ← loadVault platform io session
  let view ← FsM.lift (viewItem platform session loaded itemId)
  FsM.lift (f view)

end MeissnerSeal
