/-
The vault file prefix and header TLV section: types, serializers and
parsers of `vault_format_v1` sections 2 to 4, written as the source
writes them, offsets and error texts included.
-/
import MeissnerSeal.Crypto.Kdf

namespace MeissnerSeal

open ByteCodec ExceptRules

-- ============================================================ constants

def prefixFormatVersionOffset : Nat := 8
def prefixHeaderLenOffset : Nat := 10
def prefixRecordTableLenOffset : Nat := 14
def prefixBodyLenOffset : Nat := 18
def tlvHeaderLen : Nat := 7
def criticalFlag : UInt8 := 0x01
def kdfProfileHeaderLen : Nat := 6
def kdfParamTlvHeaderLen : Nat := 4
def tagKdfMCostKib : UInt16 := 0x0101
def tagKdfTCost : UInt16 := 0x0102
def tagKdfPLanes : UInt16 := 0x0103
def tagKdfOutputLen : UInt16 := 0x0104
def tagKdfArgon2Version : UInt16 := 0x0105

def magic : Bytes := utf8 "MEISSNER"
def formatVersion : UInt16 := 1
def headerMinLen : Nat := 26
def tagVaultId : UInt16 := 0x0001
def tagCreatedAt : UInt16 := 0x0002
def tagKdfProfile : UInt16 := 0x0003
def tagAeadProfile : UInt16 := 0x0004
def tagPqcProfile : UInt16 := 0x0005
def tagSchemaProfile : UInt16 := 0x0006
def tagHeaderNonce : UInt16 := 0x0007
def kdfArgon2idV1 : UInt16 := 0x0001
def aeadXchacha20Poly1305V1 : UInt16 := 0x0001
def pqcNone : UInt16 := 0x0000
def schemaMeissnerRecordsV2 : UInt16 := 0x0002
def argon2Version0x13 : UInt32 := 0x13

-- ================================================================ types

/-- `HeaderKdfParams`. -/
structure HeaderKdfParams where
  profileId : UInt16
  argon2 : Argon2Params
  argon2Version : UInt32
  deriving DecidableEq, Repr

/-- `HeaderKdfParams::canonical_argon2id_v1`. -/
def canonicalArgon2idV1 : HeaderKdfParams where
  profileId := kdfArgon2idV1
  argon2 := { mCostKib := 65536, tCost := 3, pLanes := 4, outputLen := 32 }
  argon2Version := argon2Version0x13

/-- A profile identifier validated against the one value its
registry supports. -/
structure ProfileId (supported : UInt16) where
  value : UInt16
  valid : value = supported
  deriving DecidableEq

abbrev AeadProfileId := ProfileId aeadXchacha20Poly1305V1
abbrev PqcProfileId := ProfileId pqcNone
abbrev KdfProfileId := ProfileId kdfArgon2idV1
abbrev SchemaProfileId := ProfileId schemaMeissnerRecordsV2

/-- The common body of the four `…ProfileId::new`. -/
def ProfileId.new (supported value : UInt16) (error : String) : Res (ProfileId supported) :=
  if h : value = supported then .ok ⟨value, h⟩ else .error (formatError error)

def AeadProfileId.new (value : UInt16) : Res AeadProfileId :=
  ProfileId.new aeadXchacha20Poly1305V1 value "unsupported aead profile"

def PqcProfileId.new (value : UInt16) : Res PqcProfileId :=
  ProfileId.new pqcNone value "unsupported pqc profile"

def KdfProfileId.new (value : UInt16) : Res KdfProfileId :=
  ProfileId.new kdfArgon2idV1 value "unsupported kdf profile"

def SchemaProfileId.new (value : UInt16) : Res SchemaProfileId :=
  ProfileId.new schemaMeissnerRecordsV2 value "unsupported schema profile"

/-- `VaultProfileSet`. -/
structure VaultProfileSet where
  aeadProfile : AeadProfileId
  pqcProfile : PqcProfileId
  kdfProfile : KdfProfileId
  schema : SchemaProfileId
  deriving DecidableEq

/-- The set of the four supported profiles. -/
def supportedProfileSet : VaultProfileSet where
  aeadProfile := ⟨aeadXchacha20Poly1305V1, rfl⟩
  pqcProfile := ⟨pqcNone, rfl⟩
  kdfProfile := ⟨kdfArgon2idV1, rfl⟩
  schema := ⟨schemaMeissnerRecordsV2, rfl⟩

/-- `VaultHeader`. -/
structure VaultHeader where
  vaultId : U8Array 16
  createdAt : UInt64
  formatVersion : UInt16
  schemaProfile : UInt16
  aeadProfile : UInt16
  kdfProfile : UInt16
  kdfParams : HeaderKdfParams
  pqcProfile : UInt16
  headerNonce : Nonce
  profileSet : VaultProfileSet
  deriving DecidableEq

-- ============================================================== readers

/-- `read_array_at`. -/
def readArrayAt (n : Nat) (bytes : Bytes) (offset : Nat) : Res (U8Array n) := do
  let stop ← okOr (checkedAdd offset n) (formatError "array read overflow")
  let value ← okOr (slice? bytes offset stop) (formatError "truncated fixed-width field")
  readArray n value "truncated fixed-width field"

def readU16Le (bytes : Bytes) (offset : Nat) : Res UInt16 :=
  return u16OfLE (← readArrayAt 2 bytes offset)

def readU32Le (bytes : Bytes) (offset : Nat) : Res UInt32 :=
  return u32OfLE (← readArrayAt 4 bytes offset)

def readU64Le (bytes : Bytes) (offset : Nat) : Res UInt64 :=
  return u64OfLE (← readArrayAt 8 bytes offset)

@[simp] theorem readArrayAt_eq_ok {n : Nat} {bytes : Bytes} {offset : Nat} {v : U8Array n} :
    readArrayAt n bytes offset = .ok v ↔ SegAt bytes offset v.toList ∧ offset + n ≤ usizeMax := by
  simp only [readArrayAt, bind_eq_ok, okOr_eq_ok, checkedAdd_eq_some, slice?_eq_some_iff,
    readArray_eq_ok]
  constructor
  · rintro ⟨stop, ⟨rfl, hle⟩, value, ⟨hseg, -⟩, rfl⟩
    exact ⟨hseg, hle⟩
  · rintro ⟨hseg, hle⟩
    exact ⟨_, ⟨rfl, hle⟩, _, ⟨hseg, by simp⟩, rfl⟩

/-- A word read succeeds with `v` iff the bytes of `v` stand at the offset. -/
private theorem readWord_eq_ok {n : Nat} {α : Type} {decode : U8Array n → α} {encode : α → Bytes}
    (hdecode : ∀ a, encode (decode a) = a.toList) (hlen : ∀ v, (encode v).length = n)
    (hinj : ∀ {v w}, encode v = encode w → v = w) {bytes : Bytes} {offset : Nat} {v : α} :
    (do return decode (← readArrayAt n bytes offset) : Res α) = .ok v
      ↔ SegAt bytes offset (encode v) ∧ offset + n ≤ usizeMax := by
  simp only [bind_eq_ok, readArrayAt_eq_ok, pure_eq_ok, Except.ok.injEq]
  constructor
  · rintro ⟨a, ⟨hseg, hle⟩, rfl⟩
    rw [hdecode]
    exact ⟨hseg, hle⟩
  · rintro ⟨hseg, hle⟩
    exact ⟨⟨encode v, hlen v⟩, ⟨hseg, hle⟩, hinj (hdecode _)⟩

@[simp] theorem readU16Le_eq_ok {bytes : Bytes} {offset : Nat} {v : UInt16} :
    readU16Le bytes offset = .ok v ↔ SegAt bytes offset (leU16 v) ∧ offset + 2 ≤ usizeMax :=
  readWord_eq_ok leU16_u16OfLE length_leU16 leU16_inj

@[simp] theorem readU32Le_eq_ok {bytes : Bytes} {offset : Nat} {v : UInt32} :
    readU32Le bytes offset = .ok v ↔ SegAt bytes offset (leU32 v) ∧ offset + 4 ≤ usizeMax :=
  readWord_eq_ok leU32_u32OfLE length_leU32 leU32_inj

@[simp] theorem readU64Le_eq_ok {bytes : Bytes} {offset : Nat} {v : UInt64} :
    readU64Le bytes offset = .ok v ↔ SegAt bytes offset (leU64 v) ∧ offset + 8 ≤ usizeMax :=
  readWord_eq_ok leU64_u64OfLE length_leU64 leU64_inj

def readTlvU16 (value : Bytes) (error : String) : Res UInt16 := do
  rejectIf (value.length ≠ 2) (formatError error)
  return u16OfLE (← readArray 2 value error)

def readKdfU16 (value : Bytes) (error : String) : Res UInt16 := readTlvU16 value error

def readKdfU32 (value : Bytes) (error : String) : Res UInt32 := do
  rejectIf (value.length ≠ 4) (formatError error)
  return u32OfLE (← readArray 4 value error)

def readTlvU64 (value : Bytes) (error : String) : Res UInt64 := do
  rejectIf (value.length ≠ 8) (formatError error)
  return u64OfLE (← readArray 8 value error)

/-- A word a fixed-size array holds. -/
private theorem ofArray_eq_ok {n : Nat} {α : Type} {decode : U8Array n → α} {encode : α → Bytes}
    (hdecode : ∀ a, encode (decode a) = a.toList) (hlen : ∀ v, (encode v).length = n)
    (hinj : ∀ {v w}, encode v = encode w → v = w) {value : Bytes} {error : String} {v : α} :
    (do rejectIf (value.length ≠ n) (formatError error)
        return decode (← readArray n value error) : Res α) = .ok v ↔ value = encode v := by
  simp only [bind_eq_ok, rejectIf_eq_ok, readArray_eq_ok, pure_eq_ok, Except.ok.injEq]
  constructor
  · rintro ⟨-, -, a, rfl, rfl⟩
    rw [hdecode]
  · rintro rfl
    exact ⟨(), by simp [hlen], ⟨encode v, hlen v⟩, rfl, hinj (hdecode _)⟩

@[simp] theorem readTlvU16_eq_ok {value : Bytes} {error : String} {v : UInt16} :
    readTlvU16 value error = .ok v ↔ value = leU16 v :=
  ofArray_eq_ok leU16_u16OfLE length_leU16 leU16_inj

@[simp] theorem readKdfU16_eq_ok {value : Bytes} {error : String} {v : UInt16} :
    readKdfU16 value error = .ok v ↔ value = leU16 v := readTlvU16_eq_ok

@[simp] theorem readKdfU32_eq_ok {value : Bytes} {error : String} {v : UInt32} :
    readKdfU32 value error = .ok v ↔ value = leU32 v :=
  ofArray_eq_ok leU32_u32OfLE length_leU32 leU32_inj

@[simp] theorem readTlvU64_eq_ok {value : Bytes} {error : String} {v : UInt64} :
    readTlvU64 value error = .ok v ↔ value = leU64 v :=
  ofArray_eq_ok leU64_u64OfLE length_leU64 leU64_inj

def rejectDuplicate (isDuplicate : Bool) (error : String) : Res Unit :=
  rejectIf isDuplicate (formatError error)

def lenToU32 (value : Nat) (error : String) : Res UInt32 :=
  okOr (u32TryFrom value) (formatError error)

def lenToU64 (value : Nat) (error : String) : Res UInt64 :=
  okOr (u64TryFrom value) (formatError error)

-- ========================================================== serializers

/-- `serialize_prefix`. -/
def serializePrefix (version : UInt16) (headerLen recordTableLen : UInt32) (bodyLen : UInt64) :
    Res Bytes := do
  rejectIf (version ≠ formatVersion) (formatError "unsupported format version")
  return magic ++ leU16 version ++ leU32 headerLen ++ leU32 recordTableLen ++ leU64 bodyLen

/-- `write_header_tlv`: the bytes one call appends. -/
def writeHeaderTlv (tag : UInt16) (flags : UInt8) (value : Bytes) : Res Bytes := do
  let len ← lenToU32 value.length "header TLV length overflow"
  return leU16 tag ++ [flags] ++ leU32 len ++ value

/-- `write_kdf_param_tlv`: the bytes one call appends. -/
def writeKdfParamTlv (tag : UInt16) (value : Bytes) : Res Bytes := do
  let len ← okOr (u16TryFrom value.length) (formatError "KDF parameter length overflow")
  return leU16 tag ++ leU16 len ++ value

/-- `validate_argon2_params`. -/
def validateArgon2Params (params : Argon2Params) : Res Unit := do
  rejectIf (params.mCostKib = 0) (formatError "invalid zero m_cost_kib")
  rejectIf (params.tCost = 0) (formatError "invalid zero t_cost")
  rejectIf (params.pLanes = 0) (formatError "invalid zero p_lanes")
  rejectIf (params.outputLen ≠ 32) (formatError "invalid output_len")
  rejectIf (params.mCostKib < argon2MinMCostKib) (formatError "m_cost_kib below minimum profile")
  rejectIf (params.tCost < argon2MinTCost) (formatError "t_cost below minimum profile")
  rejectIf (params.pLanes < argon2MinPLanes) (formatError "p_lanes below minimum profile")
  rejectIf (params.mCostKib > argon2MaxMCostKib) (formatError "m_cost_kib exceeds safety limit")
  rejectIf (params.tCost > argon2MaxTCost) (formatError "t_cost exceeds safety limit")
  rejectIf (params.pLanes > argon2MaxPLanes) (formatError "p_lanes exceeds safety limit")

/-- `serialize_kdf_profile_params`. -/
def serializeKdfProfileParams (params : HeaderKdfParams) : Res Bytes := do
  rejectIf (params.profileId ≠ kdfArgon2idV1) (formatError "unsupported KDF profile")
  rejectIf (params.argon2Version ≠ argon2Version0x13) (formatError "unsupported Argon2 version")
  validateArgon2Params params.argon2
  let mCost ← writeKdfParamTlv tagKdfMCostKib (leU32 params.argon2.mCostKib)
  let tCost ← writeKdfParamTlv tagKdfTCost (leU32 params.argon2.tCost)
  let pLanes ← writeKdfParamTlv tagKdfPLanes (leU32 params.argon2.pLanes)
  let outputLen ← okOr (u16TryFrom params.argon2.outputLen) (formatError "output_len overflow")
  let outputLen ← writeKdfParamTlv tagKdfOutputLen (leU16 outputLen)
  let version ← writeKdfParamTlv tagKdfArgon2Version (leU32 params.argon2Version)
  let paramTlvs := mCost ++ tCost ++ pLanes ++ outputLen ++ version
  let paramsLen ← lenToU32 paramTlvs.length "KDF params length overflow"
  return leU16 params.profileId ++ leU32 paramsLen ++ paramTlvs

/-- `serialize_header`. -/
def serializeHeader (header : VaultHeader) : Res Bytes := do
  rejectIf (header.formatVersion ≠ formatVersion) (formatError "unsupported format version")
  rejectIf (header.schemaProfile ≠ header.profileSet.schema.value)
    (formatError "schema profile set mismatch")
  rejectIf (header.aeadProfile ≠ header.profileSet.aeadProfile.value)
    (formatError "aead profile set mismatch")
  rejectIf (header.kdfProfile ≠ header.profileSet.kdfProfile.value)
    (formatError "kdf profile set mismatch")
  rejectIf (header.pqcProfile ≠ header.profileSet.pqcProfile.value)
    (formatError "pqc profile set mismatch")
  rejectIf (header.profileSet.schema.value ≠ schemaMeissnerRecordsV2)
    (formatError "unsupported schema profile")
  rejectIf (header.kdfProfile ≠ header.kdfParams.profileId) (formatError "KDF profile mismatch")
  let vaultId ← writeHeaderTlv tagVaultId criticalFlag header.vaultId.toList
  let createdAt ← writeHeaderTlv tagCreatedAt criticalFlag (leU64 header.createdAt)
  let kdfProfile ← serializeKdfProfileParams header.kdfParams
  let kdfProfile ← writeHeaderTlv tagKdfProfile criticalFlag kdfProfile
  let aeadProfile ← writeHeaderTlv tagAeadProfile criticalFlag
    (leU16 header.profileSet.aeadProfile.value)
  let pqcProfile ← writeHeaderTlv tagPqcProfile 0 (leU16 header.profileSet.pqcProfile.value)
  let schemaProfile ← writeHeaderTlv tagSchemaProfile criticalFlag
    (leU16 header.profileSet.schema.value)
  let headerNonce ← writeHeaderTlv tagHeaderNonce criticalFlag header.headerNonce.toList
  return vaultId ++ createdAt ++ kdfProfile ++ aeadProfile ++ pqcProfile ++ schemaProfile
    ++ headerNonce

/-- `serialize_vault_file`. -/
def serializeVaultFile (header recordTable body : Bytes) : Res Bytes := do
  let headerLen ← lenToU32 header.length "header length overflow"
  let recordTableLen ← lenToU32 recordTable.length "record table length overflow"
  let bodyAndTableLen ← okOr (checkedAdd body.length recordTable.length)
    (formatError "body length overflow")
  let bodyLen ← lenToU64 bodyAndTableLen "body length overflow"
  let prefixBytes ← serializePrefix formatVersion headerLen recordTableLen bodyLen
  let len ← okOr (checkedAdd prefixBytes.length header.length)
    (formatError "vault file length overflow")
  let len ← okOr (checkedAdd len body.length) (formatError "vault file length overflow")
  let _ ← okOr (checkedAdd len recordTable.length) (formatError "vault file length overflow")
  return prefixBytes ++ header ++ body ++ recordTable

-- ======================================================= KDF parameters

/-- One TLV as a parser loop meets it: its tag, flags (zero where the
format has none) and value, and where it stops. -/
structure Tlv where
  tag : UInt16
  flags : UInt8
  value : Bytes
  valueEnd : Nat

/-- The locals `parse_kdf_profile_params` fills in its loop. -/
structure KdfParamFields where
  mCostKib : Option UInt32 := none
  tCost : Option UInt32 := none
  pLanes : Option UInt32 := none
  outputLen : Option Nat := none
  argon2Version : Option UInt32 := none

/-- The head of the loop body of `parse_kdf_profile_params`: cut out
the parameter TLV at `cursor`. -/
def nextKdfParamTlv (value : Bytes) (paramsEnd cursor : Nat) : Res Tlv := do
  let remaining ← usizeSub paramsEnd cursor
  rejectIf (remaining < kdfParamTlvHeaderLen) (formatError "truncated KDF parameter TLV")
  let tagEnd ← usizeAdd cursor 2
  let lenEnd ← usizeAdd cursor 4
  let tag ← readArray 2 (← sliceIndex value cursor tagEnd) "invalid KDF parameter tag"
  let len ← readArray 2 (← sliceIndex value tagEnd lenEnd) "invalid KDF parameter length"
  let valueStart ← usizeAdd cursor kdfParamTlvHeaderLen
  let valueEnd ← okOr (checkedAdd valueStart (u16OfLE len).toNat)
    (formatError "KDF parameter length overflow")
  rejectIf (valueEnd > paramsEnd) (formatError "truncated KDF parameter value")
  let paramValue ← sliceIndex value valueStart valueEnd
  return { tag := u16OfLE tag, flags := 0, value := paramValue, valueEnd := valueEnd }

/-- The `match tag` of `parse_kdf_profile_params`. -/
def applyKdfParamTlv (st : KdfParamFields) (tlv : Tlv) : Res KdfParamFields :=
  if tlv.tag = tagKdfMCostKib then do
    rejectDuplicate st.mCostKib.isSome "duplicate m_cost_kib"
    let v ← readKdfU32 tlv.value "invalid m_cost_kib length"
    return { st with mCostKib := some v }
  else if tlv.tag = tagKdfTCost then do
    rejectDuplicate st.tCost.isSome "duplicate t_cost"
    let v ← readKdfU32 tlv.value "invalid t_cost length"
    return { st with tCost := some v }
  else if tlv.tag = tagKdfPLanes then do
    rejectDuplicate st.pLanes.isSome "duplicate p_lanes"
    let v ← readKdfU32 tlv.value "invalid p_lanes length"
    return { st with pLanes := some v }
  else if tlv.tag = tagKdfOutputLen then do
    rejectDuplicate st.outputLen.isSome "duplicate output_len"
    let v ← readKdfU16 tlv.value "invalid output_len length"
    return { st with outputLen := some v.toNat }
  else if tlv.tag = tagKdfArgon2Version then do
    rejectDuplicate st.argon2Version.isSome "duplicate argon2_version"
    let v ← readKdfU32 tlv.value "invalid argon2_version length"
    return { st with argon2Version := some v }
  else
    .error (formatError "unknown KDF parameter tag")

theorem nextKdfParamTlv_lt {value : Bytes} {paramsEnd cursor : Nat} {tlv : Tlv}
    (h : nextKdfParamTlv value paramsEnd cursor = .ok tlv) :
    cursor < tlv.valueEnd ∧ tlv.valueEnd ≤ paramsEnd := by
  simp only [nextKdfParamTlv, bind_eq_ok, rejectIf_eq_ok, okOr_eq_ok, checkedAdd_eq_some,
    usizeAdd_eq_ok, usizeSub_eq_ok, pure_eq_ok, Except.ok.injEq, ↓existsAndEq, true_and,
    exists_const] at h
  obtain ⟨-, -, -, -, _, -, _, -, _, -, _, -, -, -, hle, _, -, rfl⟩ := h
  have hpos : 0 < kdfParamTlvHeaderLen := by decide
  simp only
  omega

/-- The `while cursor < params_end` loop of `parse_kdf_profile_params`. -/
def parseKdfParamTlvs (value : Bytes) (paramsEnd cursor : Nat) (st : KdfParamFields) :
    Res (Nat × KdfParamFields) :=
  if cursor < paramsEnd then
    match _h : nextKdfParamTlv value paramsEnd cursor with
    | .error e => .error e
    | .ok tlv =>
        match applyKdfParamTlv st tlv with
        | .error e => .error e
        | .ok st => parseKdfParamTlvs value paramsEnd tlv.valueEnd st
  else
    .ok (cursor, st)
termination_by paramsEnd - cursor
decreasing_by
  have hlt := nextKdfParamTlv_lt _h
  omega

/-- `parse_kdf_profile_params`. -/
def parseKdfProfileParams (value : Bytes) : Res HeaderKdfParams := do
  rejectIf (value.length < kdfProfileHeaderLen) (formatError "truncated KDF profile value")
  let profileId ← readArray 2 (← sliceIndex value 0 2) "invalid kdf profile id"
  rejectIf (u16OfLE profileId ≠ kdfArgon2idV1) (formatError "unsupported KDF profile")
  let paramsLen ← readArray 4 (← sliceIndex value 2 6) "invalid KDF params length"
  let paramsEnd ← okOr (checkedAdd kdfProfileHeaderLen (u32OfLE paramsLen).toNat)
    (formatError "KDF params length overflow")
  rejectIf (paramsEnd ≠ value.length) (formatError "KDF params length mismatch")
  let (cursor, st) ← parseKdfParamTlvs value paramsEnd kdfProfileHeaderLen {}
  rejectIf (cursor ≠ paramsEnd) (formatError "trailing KDF parameter garbage")
  let argon2Version ← okOr st.argon2Version (formatError "missing argon2_version")
  rejectIf (argon2Version ≠ argon2Version0x13) (formatError "unsupported Argon2 version")
  let mCostKib ← okOr st.mCostKib (formatError "missing m_cost_kib")
  let tCost ← okOr st.tCost (formatError "missing t_cost")
  let pLanes ← okOr st.pLanes (formatError "missing p_lanes")
  let outputLen ← okOr st.outputLen (formatError "missing output_len")
  let argon2 : Argon2Params := { mCostKib, tCost, pLanes, outputLen }
  validateArgon2Params argon2
  return { profileId := u16OfLE profileId, argon2, argon2Version }

-- ============================================================== header

/-- The locals `parse_header` fills in its loop. -/
structure HeaderFields where
  vaultId : Option (U8Array 16) := none
  createdAt : Option UInt64 := none
  kdfProfile : Option UInt16 := none
  kdfParams : Option HeaderKdfParams := none
  aeadProfile : Option UInt16 := none
  -- a missing TAG_PQC_PROFILE defaults to profile 0
  pqcProfile : UInt16 := 0
  schemaProfile : Option UInt16 := none
  headerNonce : Option Nonce := none
  seenHeaderTags : UInt16 := 0

/-- `mark_seen_header_tag`: the updated mask and whether the tag was
already in it. -/
def markSeenHeaderTag (seen tag : UInt16) : UInt16 × Bool :=
  let mark (bit : UInt16) := (seen ||| bit, (seen &&& bit) != 0)
  if tag = tagVaultId then mark 1
  else if tag = tagCreatedAt then mark 2
  else if tag = tagKdfProfile then mark 4
  else if tag = tagAeadProfile then mark 8
  else if tag = tagPqcProfile then mark 16
  else if tag = tagSchemaProfile then mark 32
  else if tag = tagHeaderNonce then mark 64
  else (seen, false)

/-- The head of the loop body of `parse_header`: cut out the
TLV at `cursor`. -/
def nextHeaderTlv (bytes : Bytes) (headerEnd cursor : Nat) : Res Tlv := do
  let remaining ← usizeSub headerEnd cursor
  rejectIf (remaining < tlvHeaderLen) (formatError "truncated header TLV")
  let tag ← readU16Le bytes cursor
  let flags ← index bytes (← usizeAdd cursor 2)
  let len ← readU32Le bytes (← usizeAdd cursor 3)
  let valueStart ← usizeAdd cursor tlvHeaderLen
  let valueEnd ← okOr (checkedAdd valueStart len.toNat) (formatError "TLV length overflow")
  rejectIf (valueEnd > headerEnd) (formatError "truncated header TLV value")
  let value ← sliceIndex bytes valueStart valueEnd
  return { tag, flags, value, valueEnd }

/-- The `match tag` of `parse_header`. -/
def applyHeaderTlv (st : HeaderFields) (tlv : Tlv) : Res HeaderFields :=
  let (seen, isDuplicate) := markSeenHeaderTag st.seenHeaderTags tlv.tag
  if tlv.tag = tagVaultId then do
    rejectDuplicate isDuplicate "duplicate vault_id"
    let v ← readArray 16 tlv.value "invalid vault_id length"
    return { st with vaultId := some v, seenHeaderTags := seen }
  else if tlv.tag = tagCreatedAt then do
    rejectDuplicate isDuplicate "duplicate created_at"
    let v ← readTlvU64 tlv.value "invalid created_at length"
    return { st with createdAt := some v, seenHeaderTags := seen }
  else if tlv.tag = tagKdfProfile then do
    rejectDuplicate isDuplicate "duplicate kdf_profile"
    let parsed ← parseKdfProfileParams tlv.value
    return { st with
      kdfProfile := some parsed.profileId, kdfParams := some parsed, seenHeaderTags := seen }
  else if tlv.tag = tagAeadProfile then do
    rejectDuplicate isDuplicate "duplicate aead_profile"
    let v ← readTlvU16 tlv.value "invalid aead_profile length"
    return { st with aeadProfile := some v, seenHeaderTags := seen }
  else if tlv.tag = tagPqcProfile then do
    rejectDuplicate isDuplicate "duplicate pqc_profile"
    let v ← readTlvU16 tlv.value "invalid pqc_profile length"
    return { st with pqcProfile := v, seenHeaderTags := seen }
  else if tlv.tag = tagSchemaProfile then do
    rejectDuplicate isDuplicate "duplicate schema_profile"
    let v ← readTlvU16 tlv.value "invalid schema_profile length"
    return { st with schemaProfile := some v, seenHeaderTags := seen }
  else if tlv.tag = tagHeaderNonce then do
    rejectDuplicate isDuplicate "duplicate header_nonce"
    let v ← readArray 24 tlv.value "invalid header_nonce length"
    return { st with headerNonce := some v, seenHeaderTags := seen }
  else if tlv.flags &&& criticalFlag ≠ 0 then
    .error (formatError "unknown critical header TLV tag")
  else
    .ok st

theorem nextHeaderTlv_lt {bytes : Bytes} {headerEnd cursor : Nat} {tlv : Tlv}
    (h : nextHeaderTlv bytes headerEnd cursor = .ok tlv) :
    cursor < tlv.valueEnd ∧ tlv.valueEnd ≤ headerEnd := by
  simp only [nextHeaderTlv, bind_eq_ok, rejectIf_eq_ok, okOr_eq_ok, checkedAdd_eq_some,
    usizeAdd_eq_ok, usizeSub_eq_ok, pure_eq_ok, Except.ok.injEq, ↓existsAndEq, true_and,
    exists_const] at h
  obtain ⟨-, -, _, -, -, _, -, -, _, -, -, -, hle, _, -, rfl⟩ := h
  have hpos : 0 < tlvHeaderLen := by decide
  simp only
  omega

/-- The `while cursor < header_end` loop of `parse_header`. -/
def parseHeaderTlvs (bytes : Bytes) (headerEnd cursor : Nat) (st : HeaderFields) :
    Res (Nat × HeaderFields) :=
  if cursor < headerEnd then
    match _h : nextHeaderTlv bytes headerEnd cursor with
    | .error e => .error e
    | .ok tlv =>
        match applyHeaderTlv st tlv with
        | .error e => .error e
        | .ok st => parseHeaderTlvs bytes headerEnd tlv.valueEnd st
  else
    .ok (cursor, st)
termination_by headerEnd - cursor
decreasing_by
  have hlt := nextHeaderTlv_lt _h
  omega

/-- `validate_profile_set`. -/
def validateProfileSet (header : VaultHeader) : Res VaultProfileSet := do
  let aeadProfile ← AeadProfileId.new header.aeadProfile
  let pqcProfile ← PqcProfileId.new header.pqcProfile
  let kdfProfile ← KdfProfileId.new header.kdfProfile
  let schema ← SchemaProfileId.new header.schemaProfile
  return { aeadProfile, pqcProfile, kdfProfile, schema }

/-- `parse_header`. -/
def parseHeader (bytes : Bytes) : Res VaultHeader := do
  rejectIf (bytes.length < headerMinLen) (formatError "truncated vault prefix")
  let magicBytes ← sliceIndex bytes 0 prefixFormatVersionOffset
  rejectIf (magicBytes ≠ magic) (formatError "wrong magic bytes")
  let version ← readU16Le bytes prefixFormatVersionOffset
  rejectIf (version ≠ formatVersion) (formatError "unsupported format version")
  let headerLen ← readU32Le bytes prefixHeaderLenOffset
  let recordTableLen ← readU32Le bytes prefixRecordTableLenOffset
  let bodyLen ← readU64Le bytes prefixBodyLenOffset
  let headerEnd ← okOr (checkedAdd headerMinLen headerLen.toNat)
    (formatError "header length overflow")
  rejectIf (recordTableLen.toNat > bodyLen.toNat)
    (formatError "record table length exceeds body length")
  let fileEnd ← okOr (checkedAdd headerEnd bodyLen.toNat) (formatError "body length overflow")
  rejectIf (fileEnd > bytes.length) (formatError "declared sections exceed file size")
  let (cursor, st) ← parseHeaderTlvs bytes headerEnd headerMinLen {}
  rejectIf (cursor ≠ headerEnd ∨ fileEnd ≠ bytes.length) (formatError "trailing garbage")
  let vaultId ← okOr st.vaultId (formatError "missing vault_id")
  let createdAt ← okOr st.createdAt (formatError "missing created_at")
  let schemaProfile ← okOr st.schemaProfile (formatError "missing schema_profile")
  let aeadProfile ← okOr st.aeadProfile (formatError "missing aead_profile")
  let kdfProfile ← okOr st.kdfProfile (formatError "missing kdf_profile")
  let kdfParams ← okOr st.kdfParams (formatError "missing kdf params")
  let headerNonce ← okOr st.headerNonce (formatError "missing header_nonce")
  let header : VaultHeader :=
    { vaultId, createdAt, formatVersion := version, schemaProfile, aeadProfile, kdfProfile,
      kdfParams, pqcProfile := st.pqcProfile, headerNonce, profileSet := supportedProfileSet }
  let profileSet ← validateProfileSet header
  return { header with profileSet }

/-- A file that parses can be addressed. -/
theorem length_le_of_parseHeader {bytes : Bytes} {header : VaultHeader}
    (h : parseHeader bytes = .ok header) : bytes.length ≤ usizeMax := by
  simp only [parseHeader, bind_eq_ok, rejectIf_eq_ok, okOr_eq_ok, checkedAdd_eq_some] at h
  obtain ⟨_, -, _, -, _, -, _, -, _, -, _, -, _, -, _, -, _, -, _, -, _, ⟨rfl, hmax⟩,
    _, -, ⟨_, _⟩, -, _, hend, -⟩ := h
  simp only [not_or, Decidable.not_not] at hend
  omega

end MeissnerSeal
