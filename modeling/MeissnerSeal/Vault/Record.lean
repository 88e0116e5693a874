/-
Record frames, item envelopes and the MEK-sealed record table of
`vault_format_v1` sections 5 to 7, with the two frame-length functions
of the vault engine.
-/
import MeissnerSeal.Vault.Header
import Mathlib.Data.Nat.Log

namespace MeissnerSeal

open ByteCodec ExceptRules

-- ============================================================ constants

def aadDomain : Bytes := utf8 "meissnerseal-aad-v1"
def recordTableCountLen : Nat := 4
def recordTableEntryLen : Nat := 46
def recordFrameFixedPrefixLen : Nat := 2 + 16 + 16 + 2 + 1
def xchacha20NonceLen : Nat := 24
def recordKindWrappedRootKey : UInt16 := 0x0002
def recordKindItem : UInt16 := 0x0001
def recordKindTombstone : UInt16 := 0x0006

-- ================================================================ types

/-- `RecordTableEntry`. -/
structure RecordTableEntry where
  recordId : U8Array 16
  recordKind : UInt16
  revisionId : U8Array 16
  frameOffset : UInt64
  frameLen : UInt32
  deriving DecidableEq

/-- `RecordFrame`. -/
structure RecordFrame where
  frameVersion : UInt16
  recordId : U8Array 16
  revisionId : U8Array 16
  nonce : Nonce
  storedAad : U8Array recordAadLen
  ciphertextLen : UInt32
  ciphertext : Bytes
  deriving DecidableEq

/-- `ItemRecordFrameEnvelope`. -/
structure ItemRecordFrameEnvelope where
  rekWrapNonce : Nonce
  wrappedRek : Bytes
  payloadNonce : Nonce
  encryptedPayload : Bytes
  deriving DecidableEq

-- ================================================================== AAD

/-- The bytes `build_aad` lays out. -/
def aadBytes (vaultId : U8Array 16) (formatVersion schemaProfile aeadProfile kdfProfile
    pqcProfile : UInt16) (recordId revisionId : U8Array 16) (recordKind : UInt16) : Bytes :=
  aadDomain ++ vaultId.toList ++ leU16 formatVersion ++ leU16 schemaProfile ++ leU16 aeadProfile
    ++ leU16 kdfProfile ++ leU16 pqcProfile ++ recordId.toList ++ revisionId.toList
    ++ leU16 recordKind

theorem length_aadDomain : aadDomain.length = 19 := by decide

theorem length_aadBytes (vaultId : U8Array 16) (v s a k p : UInt16)
    (recordId revisionId : U8Array 16) (recordKind : UInt16) :
    (aadBytes vaultId v s a k p recordId revisionId recordKind).length = recordAadLen := by
  simp [aadBytes, length_aadDomain, recordAadLen]

/-- `build_aad`. -/
def buildAad (vaultId : U8Array 16) (formatVersion schemaProfile aeadProfile kdfProfile
    pqcProfile : UInt16) (recordId revisionId : U8Array 16) (recordKind : UInt16) :
    U8Array recordAadLen :=
  ⟨aadBytes vaultId formatVersion schemaProfile aeadProfile kdfProfile pqcProfile recordId
    revisionId recordKind, length_aadBytes ..⟩

/-- `build_table_aad_v2`. -/
def buildTableAadV2 (vaultId : U8Array 16) (schemaProfile : UInt16) : Res Bytes := do
  rejectIf (schemaProfile ≠ schemaMeissnerRecordsV2) (formatError "unsupported schema profile")
  return vaultId.toList ++ leU16 schemaProfile

/-- `validate_stored_record_aad`. -/
def validateStoredRecordAad (aad : Bytes) (expected : U8Array recordAadLen) : Res Unit := do
  rejectIf (aad.length ≠ recordAadLen) (formatError "invalid record AAD length")
  rejectIf (aad ≠ expected.toList) (formatError "invalid record AAD bytes")

-- =============================================================== frames

/-- `serialize_record_frame`. -/
def serializeRecordFrame (frame : RecordFrame) (aad : U8Array recordAadLen) : Res Bytes := do
  rejectIf (frame.nonce.toList.length ≠ xchacha20NonceLen) (formatError "invalid nonce length")
  let len ← lenToU32 frame.ciphertext.length "ciphertext length overflow"
  rejectIf (frame.ciphertextLen ≠ len) (formatError "ciphertext length mismatch")
  let overflow := formatError "record frame length overflow"
  let frameLen ← okOr (checkedAdd recordFrameFixedPrefixLen xchacha20NonceLen) overflow
  let frameLen ← okOr (checkedAdd frameLen 4) overflow
  let frameLen ← okOr (checkedAdd frameLen aad.toList.length) overflow
  let frameLen ← okOr (checkedAdd frameLen 4) overflow
  let _ ← okOr (checkedAdd frameLen frame.ciphertext.length) overflow
  let aadLen ← lenToU32 aad.toList.length "AAD length overflow"
  return leU16 frame.frameVersion ++ frame.recordId.toList ++ frame.revisionId.toList ++ leU16 1
    ++ [UInt8.ofNat xchacha20NonceLen] ++ frame.nonce.toList ++ leU32 aadLen ++ aad.toList
    ++ leU32 frame.ciphertextLen ++ frame.ciphertext

/-- `parse_record_frame`. -/
def parseRecordFrame (bytes : Bytes) (frameLen : UInt32) (expectedAeadProfile : UInt16) :
    Res RecordFrame := do
  let frameLen := frameLen.toNat
  rejectIf (bytes.length < frameLen ∨ frameLen < recordFrameFixedPrefixLen)
    (formatError "truncated record frame")
  let frame ← sliceIndex bytes 0 frameLen
  let frameVersion ← readU16Le frame 0
  rejectIf (frameVersion ≠ formatVersion) (formatError "unsupported record frame version")
  let cursor := 2
  let recordId ← readArrayAt 16 frame cursor
  let cursor ← usizeAdd cursor 16
  let revisionId ← readArrayAt 16 frame cursor
  let cursor ← usizeAdd cursor 16
  let aeadProfile ← readU16Le frame cursor
  let cursor ← usizeAdd cursor 2
  rejectIf (aeadProfile ≠ expectedAeadProfile)
    (formatError "record frame aead_profile does not match header")
  let nonceLen ← index frame cursor
  let nonceLen := nonceLen.toNat
  let cursor ← usizeAdd cursor 1
  rejectIf (nonceLen ≠ xchacha20NonceLen) (formatError "invalid nonce length")
  let nonce ← readArrayAt 24 frame cursor
  let cursor ← usizeAdd cursor nonceLen
  let aadLen ← readU32Le frame cursor
  let cursor ← usizeAdd cursor 4
  let aadStart := cursor
  let aadEnd ← okOr (checkedAdd cursor aadLen.toNat) (formatError "AAD length overflow")
  rejectIf (aadEnd > frameLen) (formatError "truncated record frame AAD")
  let cursor := aadEnd
  let ciphertextLen ← readU32Le frame cursor
  let cursor ← usizeAdd cursor 4
  rejectIf (ciphertextLen.toNat < 16) (formatError "ciphertext too short for AEAD tag")
  let ciphertextEnd ← okOr (checkedAdd cursor ciphertextLen.toNat)
    (formatError "ciphertext length overflow")
  rejectIf (ciphertextEnd > frameLen) (formatError "ciphertext length exceeds frame boundary")
  rejectIf (ciphertextEnd ≠ frameLen) (formatError "record frame length mismatch")
  let storedAad ← readArray recordAadLen (← sliceIndex frame aadStart aadEnd)
    "invalid record AAD bytes"
  let ciphertext ← sliceIndex frame cursor ciphertextEnd
  return { frameVersion, recordId, revisionId, nonce, storedAad, ciphertextLen, ciphertext }

/-- `read_u32_at` of the vault engine. -/
def readU32At (bytes : Bytes) (offset : Nat) : Res UInt32 := do
  let stop ← okOr (checkedAdd offset 4) (formatError "u32 read overflow")
  let value ← okOr (slice? bytes offset stop) (formatError "truncated u32 field")
  return u32OfLE (← readArray 4 value "u32 read error")

/-- `record_frame_end_offset`. -/
def recordFrameEndOffset (bytes : Bytes) (offset : Nat) : Res Nat := do
  let fixedEnd ← okOr (checkedAdd offset (2 + 16 + 16 + 2 + 1))
    (formatError "record frame prefix overflow")
  rejectIf (fixedEnd > bytes.length) (formatError "truncated record frame")
  let nonceLenOffset ← okOr (checkedAdd offset (2 + 16 + 16 + 2))
    (formatError "nonce length offset overflow")
  let nonceLen ← okOr bytes[nonceLenOffset]? (formatError "truncated record frame")
  let aadLenOffset ← okOr (checkedAdd fixedEnd nonceLen.toNat)
    (formatError "AAD length offset overflow")
  let aadLen ← readU32At bytes aadLenOffset
  let overflow := formatError "ciphertext length offset overflow"
  let ciphertextLenOffset ← okOr (checkedAdd aadLenOffset 4) overflow
  let ciphertextLenOffset ← okOr (checkedAdd ciphertextLenOffset aadLen.toNat) overflow
  let ciphertextLen ← readU32At bytes ciphertextLenOffset
  let overflow := formatError "record frame length overflow"
  let frameEnd ← okOr (checkedAdd ciphertextLenOffset 4) overflow
  okOr (checkedAdd frameEnd ciphertextLen.toNat) overflow

/-- `record_frame_len_at`. -/
def recordFrameLenAt (bytes : Bytes) (offset : Nat) : Res UInt32 := do
  let frameEnd ← recordFrameEndOffset bytes offset
  let frameLen ← okOr (checkedSub frameEnd offset) (formatError "record frame length overflow")
  okOr (u32TryFrom frameLen) (formatError "record frame length overflow")

-- ======================================================= item envelopes

/-- `serialize_item_record_frame_envelope`. -/
def serializeItemRecordFrameEnvelope (envelope : ItemRecordFrameEnvelope) : Res Bytes := do
  rejectIf (envelope.wrappedRek = []) (formatError "empty wrapped REK")
  rejectIf (envelope.encryptedPayload = []) (formatError "empty encrypted item payload")
  let wrappedRekLen ← lenToU32 envelope.wrappedRek.length "wrapped REK length overflow"
  let payloadLen ← lenToU32 envelope.encryptedPayload.length "encrypted payload length overflow"
  let overflow := formatError "item envelope length overflow"
  let len ← okOr (checkedAdd xchacha20NonceLen 4) overflow
  let len ← okOr (checkedAdd len envelope.wrappedRek.length) overflow
  let len ← okOr (checkedAdd len xchacha20NonceLen) overflow
  let len ← okOr (checkedAdd len 4) overflow
  let _ ← okOr (checkedAdd len envelope.encryptedPayload.length) overflow
  return envelope.rekWrapNonce.toList ++ leU32 wrappedRekLen ++ envelope.wrappedRek
    ++ envelope.payloadNonce.toList ++ leU32 payloadLen ++ envelope.encryptedPayload

/-- `parse_item_record_frame_envelope`. -/
def parseItemRecordFrameEnvelope (bytes : Bytes) : Res ItemRecordFrameEnvelope := do
  let cursor := 0
  let rekWrapNonce ← readArrayAt 24 bytes cursor
  let cursor ← usizeAdd cursor xchacha20NonceLen
  let wrappedRekLen ← readU32Le bytes cursor
  let cursor ← usizeAdd cursor 4
  rejectIf (wrappedRekLen.toNat = 0) (formatError "empty wrapped REK")
  let wrappedRekEnd ← okOr (checkedAdd cursor wrappedRekLen.toNat)
    (formatError "wrapped REK length overflow")
  let wrappedRek ← okOr (slice? bytes cursor wrappedRekEnd) (formatError "truncated wrapped REK")
  let cursor := wrappedRekEnd
  let payloadNonce ← readArrayAt 24 bytes cursor
  let cursor ← usizeAdd cursor xchacha20NonceLen
  let payloadLen ← readU32Le bytes cursor
  let cursor ← usizeAdd cursor 4
  rejectIf (payloadLen.toNat = 0) (formatError "empty encrypted item payload")
  let payloadEnd ← okOr (checkedAdd cursor payloadLen.toNat)
    (formatError "encrypted payload length overflow")
  let encryptedPayload ← okOr (slice? bytes cursor payloadEnd)
    (formatError "truncated encrypted item payload")
  let cursor := payloadEnd
  rejectIf (cursor ≠ bytes.length) (formatError "trailing item envelope garbage")
  return { rekWrapNonce, wrappedRek, payloadNonce, encryptedPayload }

-- ========================================================== plain table

/-- The entry loop of `parse_record_table`. -/
def parseTableEntries (bytes : Bytes) : Nat → Nat → Res (List RecordTableEntry)
  | 0, _ => .ok []
  | count + 1, cursor => do
      let recordId ← readArrayAt 16 bytes cursor
      let cursor ← usizeAdd cursor 16
      let recordKind ← readU16Le bytes cursor
      let cursor ← usizeAdd cursor 2
      let revisionId ← readArrayAt 16 bytes cursor
      let cursor ← usizeAdd cursor 16
      let frameOffset ← readU64Le bytes cursor
      let cursor ← usizeAdd cursor 8
      let frameLen ← readU32Le bytes cursor
      let cursor ← usizeAdd cursor 4
      rejectIf (recordKind = recordKindWrappedRootKey)
        (formatError "WrappedRootKey entry not allowed in V2 table")
      return { recordId, recordKind, revisionId, frameOffset, frameLen }
        :: (← parseTableEntries bytes count cursor)

/-- `parse_record_table`. -/
def parseRecordTable (bytes : Bytes) (offset len : Nat) : Res (List RecordTableEntry) := do
  let stop ← okOr (checkedAdd offset len) (formatError "record table bounds overflow")
  rejectIf (stop > bytes.length ∨ len < recordTableCountLen) (formatError "truncated record table")
  let count ← readU32Le bytes offset
  let overflow := formatError "record table length overflow"
  let entriesLen ← okOr (checkedMul count.toNat recordTableEntryLen) overflow
  let entriesLen ← okOr (checkedAdd recordTableCountLen entriesLen) overflow
  rejectIf (entriesLen ≠ len) (formatError "record table length mismatch")
  let cursor ← usizeAdd offset recordTableCountLen
  parseTableEntries bytes count.toNat cursor

-- ========================================================= sealed table

/-- The smallest power of two that is at least `n`. -/
def nextPowerOfTwo (n : Nat) : Nat := 2 ^ Nat.clog 2 n

/-- `entry_count.checked_next_power_of_two()`. -/
def checkedNextPowerOfTwo (n : Nat) : Option Nat :=
  if nextPowerOfTwo n ≤ usizeMax then some (nextPowerOfTwo n) else none

/-- `sealed_record_table_padded_plaintext_len`. -/
def sealedRecordTablePaddedPlaintextLen (entryCount : Nat) : Res Nat := do
  let bucketCapacity ← (if entryCount = 0 then .ok 1
    else okOr (checkedNextPowerOfTwo entryCount) (formatError "sealed table bucket overflow"))
  let len ← okOr (checkedMul bucketCapacity recordTableEntryLen)
    (formatError "sealed table padded length overflow")
  okOr (checkedAdd recordTableCountLen len) (formatError "sealed table padded length overflow")

/-- The 46 bytes of one table entry. -/
def RecordTableEntry.toBytes (entry : RecordTableEntry) : Bytes :=
  entry.recordId.toList ++ leU16 entry.recordKind ++ entry.revisionId.toList
    ++ leU64 entry.frameOffset ++ leU32 entry.frameLen

/-- The entry loop of `serialize_sealed_record_table_v2`. -/
def serializeTableEntriesV2 : List RecordTableEntry → Res Bytes
  | [] => .ok []
  | entry :: entries => do
      rejectIf (entry.recordKind = 0 ∨ entry.recordKind = recordKindWrappedRootKey)
        (formatError "invalid V2 record table entry kind")
      return entry.toBytes ++ (← serializeTableEntriesV2 entries)

/-- `serialize_sealed_record_table_v2`; `draw` is the table nonce. -/
def serializeSealedRecordTableV2 (cipher : XChaCha20Poly1305) (draw : Option Nonce)
    (entries : List RecordTableEntry) (metadataKey : Key) (vaultId : U8Array 16)
    (schemaProfile : UInt16) : Res Bytes := do
  let tableAad ← buildTableAadV2 vaultId schemaProfile
  let paddedLen ← sealedRecordTablePaddedPlaintextLen entries.length
  let count ← lenToU32 entries.length "record table count overflow"
  let entryBytes ← serializeTableEntriesV2 entries
  let plaintext := resizeZero (leU32 count ++ entryBytes) paddedLen
  let (ciphertext, nonce) ← orErrUnwind (encrypt cipher draw metadataKey plaintext tableAad)
    (formatError "sealed record table encryption failed")
  let sealedTableLen ← okOr (checkedAdd xchacha20NonceLen ciphertext.length)
    (formatError "sealed table length overflow")
  let sealedTableLen ← lenToU32 sealedTableLen "sealed table length overflow"
  let _ ← okOr (checkedAdd 4 sealedTableLen.toNat) (formatError "sealed table length overflow")
  return leU32 sealedTableLen ++ nonce.toList ++ ciphertext

/-- The locals the entry loop of `open_sealed_record_table_v2` fills. -/
structure TableScan where
  entries : List RecordTableEntry := []
  liveRecordIds : List (U8Array 16) := []
  frameExtents : List (Nat × Nat) := []

/-- One fixed-width field of a table entry: `plaintext.get(cursor..cursor + n)`. -/
def readTableField (n : Nat) (plaintext : Bytes) (cursor : Nat) : Res (U8Array n) := do
  let stop ← usizeAdd cursor n
  let value ← okOr (slice? plaintext cursor stop) (formatError "truncated sealed table entry")
  readArray n value "truncated sealed table entry"

/-- The field reads at the head of the entry loop of
`open_sealed_record_table_v2`. -/
def readTableEntry (plaintext : Bytes) (cursor : Nat) : Res (RecordTableEntry × Nat) := do
  let recordId ← readTableField 16 plaintext cursor
  let cursor ← usizeAdd cursor 16
  let recordKind ← readTableField 2 plaintext cursor
  let cursor ← usizeAdd cursor 2
  let revisionId ← readTableField 16 plaintext cursor
  let cursor ← usizeAdd cursor 16
  let frameOffset ← readTableField 8 plaintext cursor
  let cursor ← usizeAdd cursor 8
  let frameLen ← readTableField 4 plaintext cursor
  let cursor ← usizeAdd cursor 4
  return ({ recordId, recordKind := u16OfLE recordKind, revisionId,
            frameOffset := u64OfLE frameOffset, frameLen := u32OfLE frameLen }, cursor)

/-- The checks and pushes at the tail of the entry loop. -/
def admitTableEntry (wrkFrameEnd fileLen sealedTableEnd : Nat) (scan : TableScan)
    (entry : RecordTableEntry) : Res TableScan := do
  rejectIf (entry.recordKind = 0 ∨ entry.recordKind = recordKindWrappedRootKey)
    (formatError "invalid V2 record table entry kind")
  let frameOffset := entry.frameOffset.toNat
  let frameEnd ← okOr (checkedAdd frameOffset entry.frameLen.toNat)
    (formatError "frame bounds overflow")
  rejectIf (frameOffset < wrkFrameEnd ∨ frameEnd > fileLen)
    (formatError "record frame offset out of bounds")
  rejectIf (frameOffset < sealedTableEnd) (formatError "record frame overlaps sealed table")
  rejectIf (entry.recordId ∈ scan.liveRecordIds) (formatError "duplicate live record id")
  return { entries := scan.entries ++ [entry],
           liveRecordIds := entry.recordId :: scan.liveRecordIds,
           frameExtents := scan.frameExtents ++ [(frameOffset, frameEnd)] }

/-- The `for _ in 0..entry_count` loop of `open_sealed_record_table_v2`. -/
def scanTableEntries (plaintext : Bytes) (wrkFrameEnd fileLen sealedTableEnd : Nat) :
    Nat → Nat → TableScan → Res (Nat × TableScan)
  | 0, cursor, scan => .ok (cursor, scan)
  | count + 1, cursor, scan => do
      let (entry, cursor) ← readTableEntry plaintext cursor
      let scan ← admitTableEntry wrkFrameEnd fileLen sealedTableEnd scan entry
      scanTableEntries plaintext wrkFrameEnd fileLen sealedTableEnd count cursor scan

/-- The `windows(2)` pass over the extents sorted by start. -/
def rejectOverlaps : List (Nat × Nat) → Res Unit
  | (_, leftEnd) :: (rightStart, rightEnd) :: rest => do
      rejectIf (rightStart < leftEnd) (formatError "record frames overlap")
      rejectOverlaps ((rightStart, rightEnd) :: rest)
  | _ => .ok ()

/-- `open_sealed_record_table_v2`; `sortExtents` is what `sort_unstable_by_key` makes of
the extents, which it may leave in either order where they share a start. -/
def openSealedRecordTableV2With (sortExtents : List (Nat × Nat) → List (Nat × Nat))
    (cipher : XChaCha20Poly1305) (bytes : Bytes) (offset len : Nat)
    (metadataKey : Key) (vaultId : U8Array 16) (schemaProfile : UInt16)
    (wrkFrameEnd fileLen : Nat) : Res (List RecordTableEntry) := do
  let tableAad ← buildTableAadV2 vaultId schemaProfile
  let stop ← okOr (checkedAdd offset len) (formatError "sealed table bounds overflow")
  rejectIf (stop > bytes.length ∨ len < 4 + xchacha20NonceLen + tagLen)
    (formatError "truncated sealed record table")
  let sealedTableLen ← readU32Le bytes offset
  rejectIf (sealedTableLen.toNat < xchacha20NonceLen + tagLen)
    (formatError "sealed table length too short")
  let sectionLen ← okOr (checkedAdd 4 sealedTableLen.toNat)
    (formatError "sealed table length overflow")
  rejectIf (len ≠ sectionLen) (formatError "sealed table length mismatch")
  let nonceOffset ← usizeAdd offset 4
  let nonce ← readArrayAt 24 bytes nonceOffset
  let ciphertextOffset ← usizeAdd nonceOffset xchacha20NonceLen
  let ciphertext ← sliceIndex bytes ciphertextOffset stop
  let plaintext ← orErr (decrypt cipher metadataKey nonce ciphertext tableAad)
    (formatError "sealed record table authentication failed")
  rejectIf (plaintext.length < recordTableCountLen)
    (formatError "truncated sealed table plaintext")
  let payloadLen ← okOr (checkedSub plaintext.length recordTableCountLen)
    (formatError "sealed table plaintext length overflow")
  rejectIf (payloadLen % recordTableEntryLen ≠ 0)
    (formatError "invalid sealed table padding bucket")
  let bucketCapacity := payloadLen / recordTableEntryLen
  rejectIf (bucketCapacity = 0 ∨ ¬ bucketCapacity.isPowerOfTwo)
    (formatError "invalid sealed table padding bucket")
  let entryCount ← readArray 4 (← sliceIndex plaintext 0 4) "invalid entry count"
  let entryCount := (u32OfLE entryCount).toNat
  rejectIf (entryCount > bucketCapacity) (formatError "entry count exceeds padding bucket")
  let sealedTableEnd ← okOr (checkedAdd offset len) (formatError "sealed table bounds overflow")
  let (cursor, scan) ← scanTableEntries plaintext wrkFrameEnd fileLen sealedTableEnd entryCount
    recordTableCountLen {}
  let padding ← sliceIndex plaintext cursor plaintext.length
  rejectIf (padding.any (· ≠ 0)) (formatError "non-zero sealed table padding")
  rejectOverlaps (sortExtents scan.frameExtents)
  return scan.entries

/-- `open_sealed_record_table_v2` with extents that share a start left in their order; where
all have positive length, every sort rejects the same tables. -/
def openSealedRecordTableV2 (cipher : XChaCha20Poly1305) (bytes : Bytes) (offset len : Nat)
    (metadataKey : Key) (vaultId : U8Array 16) (schemaProfile : UInt16)
    (wrkFrameEnd fileLen : Nat) : Res (List RecordTableEntry) :=
  openSealedRecordTableV2With (List.mergeSort · fun left right => left.1 ≤ right.1) cipher bytes
    offset len metadataKey vaultId schemaProfile wrkFrameEnd fileLen

end MeissnerSeal
