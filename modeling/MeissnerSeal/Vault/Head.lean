/-
The head of a vault file, and what `unlock` and `load_vault` ask of it.

# The head

What stands in front of the record table: the prefix, the header and the
wrapped-root-key frame. `HeadOf bytes head` says that `bytes` begins with
a head `unlock` accepts; what else it asks is that the password opens the
root key and that the table opens under the metadata key
(`unlockBytes_eq_ok`). `load_vault` parses the same header but looks at
the frame for its length only (`loadVaultBytes_eq_ok`).
-/
import MeissnerSeal.Vault.Created
import MeissnerSeal.Vault.RecordParse

namespace MeissnerSeal

open ByteCodec ExceptRules

/-- The header, the wrapped-root-key frame, and the two lengths of the
prefix a reader goes by. -/
structure VaultHead where
  header : VaultHeader
  headerLen : UInt32
  tableLen : UInt32
  wrkFrame : RecordFrame
  wrkBytes : Bytes

/-- Where the frame of the root key starts. -/
def VaultHead.wrkOffset (head : VaultHead) : Nat := headerMinLen + head.headerLen.toNat

/-- Where the record table starts. -/
def VaultHead.tableOffset (head : VaultHead) : Nat := head.wrkOffset + head.wrkBytes.length

/-- `bytes` begins with a head that passes the checks of `unlock` on
public data. -/
structure HeadOf (bytes : Bytes) (head : VaultHead) : Prop where
  header_parsed : parseHeader bytes = .ok head.header
  headerLen_at : SegAt bytes prefixHeaderLenOffset (leU32 head.headerLen)
  tableLen_at : SegAt bytes prefixRecordTableLenOffset (leU32 head.tableLen)
  wrk_serialized : serializeRecordFrame head.wrkFrame head.wrkFrame.storedAad = .ok head.wrkBytes
  wrk_at : SegAt bytes head.wrkOffset head.wrkBytes
  wrk_length : head.wrkBytes.length < 2 ^ 32
  wrk_version : head.wrkFrame.frameVersion = formatVersion
  wrk_tag : 16 ≤ head.wrkFrame.ciphertext.length
  wrk_aad : head.wrkFrame.storedAad = itemRecordAad head.header head.wrkFrame.recordId
    head.wrkFrame.revisionId recordKindWrappedRootKey

/-- The keys a password opens a head to. -/
def VaultHead.deriveKeys (platform : Platform) (password : Bytes) (head : VaultHead) :
    Res UnlockedKeys :=
  deriveSessionKeys platform password head.header.vaultId head.header.headerNonce
    head.header.profileSet.aeadProfile head.header.kdfParams head.wrkFrame.ciphertext
    head.wrkFrame.nonce head.wrkFrame.storedAad

/-- The entries a metadata key opens the table behind a head to. -/
def VaultHead.openTable (platform : Platform) (bytes : Bytes) (metadataKey : Key)
    (head : VaultHead) : Res (List RecordTableEntry) :=
  openSealedRecordTableV2 platform.cipher bytes head.tableOffset head.tableLen.toNat metadataKey
    head.header.vaultId head.header.schemaProfile head.tableOffset bytes.length

/-- A header that parses repeats its profile set in its profile fields. -/
theorem profileSet_of_parseHeader {bytes : Bytes} {header : VaultHeader}
    (h : parseHeader bytes = .ok header) :
    header.profileSet.schema.value = header.schemaProfile
      ∧ header.profileSet.aeadProfile.value = header.aeadProfile
      ∧ header.profileSet.kdfProfile.value = header.kdfProfile
      ∧ header.profileSet.pqcProfile.value = header.pqcProfile := by
  obtain ⟨-, hschema, haead, hkdf, hpqc⟩ := supported_of_parseHeader (length_le_of_parseHeader h) h
  rw [header.profileSet.eq_supported, hschema, haead, hkdf, hpqc]
  exact ⟨rfl, rfl, rfl, rfl⟩

theorem readPrefixU32_eq_ok {bytes : Bytes} {offset n : Nat} (hmax : bytes.length ≤ usizeMax) :
    readPrefixU32 bytes offset = .ok n
      ↔ ∃ v : UInt32, SegAt bytes offset (leU32 v) ∧ n = v.toNat := by
  simp only [readPrefixU32, bind_eq_ok, okOr_eq_ok, checkedAdd_eq_some, slice?_eq_some_iff,
    readArray_eq_ok, pure_eq_ok, Except.ok.injEq]
  constructor
  · rintro ⟨_, ⟨rfl, -⟩, _, ⟨hseg, -⟩, array, rfl, rfl⟩
    refine ⟨u32OfLE array, ?_, rfl⟩
    rw [leU32_u32OfLE]
    exact hseg
  · rintro ⟨v, hseg, rfl⟩
    have hle := hseg.le
    rw [length_leU32] at hle
    exact ⟨_, ⟨rfl, by omega⟩, leU32 v, ⟨hseg, by simp⟩, arrayLE32 v, rfl, by
      rw [u32OfLE_arrayLE32]⟩

theorem readPrefixField_eq_ok {bytes : Bytes} {offset n : Nat} {outOfBounds readError : String} :
    readPrefixField bytes offset outOfBounds readError = .ok n
      ↔ ∃ v : UInt32, SegAt bytes offset (leU32 v) ∧ n = v.toNat := by
  simp only [readPrefixField, bind_eq_ok, okOr_eq_ok, slice?_eq_some_iff, readArray_eq_ok,
    pure_eq_ok, Except.ok.injEq]
  constructor
  · rintro ⟨_, ⟨hseg, -⟩, array, rfl, rfl⟩
    refine ⟨u32OfLE array, ?_, rfl⟩
    rw [leU32_u32OfLE]
    exact hseg
  · rintro ⟨v, hseg, rfl⟩
    exact ⟨leU32 v, ⟨hseg, by simp⟩, arrayLE32 v, rfl, by rw [u32OfLE_arrayLE32]⟩

-- ================================================================ unlock

/-- The frame of the root key is found by its length fields. -/
theorem HeadOf.recordFrameLenAt_eq {bytes : Bytes} {head : VaultHead} (h : HeadOf bytes head) :
    recordFrameLenAt bytes head.wrkOffset = .ok (UInt32.ofNat head.wrkBytes.length) :=
  recordFrameLenAt_of_segAt h.wrk_serialized h.wrk_at (length_le_of_parseHeader h.header_parsed)
    (toNat_u32_ofNat h.wrk_length)

/-- A file begins with one head. -/
theorem HeadOf.unique {bytes : Bytes} {head head' : VaultHead} (h : HeadOf bytes head)
    (h' : HeadOf bytes head') : head = head' := by
  have hheader : head.header = head'.header := by
    have heq := h.header_parsed.symm.trans h'.header_parsed
    rwa [Except.ok.injEq] at heq
  have hheaderLen := leU32_inj (h.headerLen_at.unique h'.headerLen_at rfl)
  have htableLen := leU32_inj (h.tableLen_at.unique h'.tableLen_at rfl)
  have hoffset : head.wrkOffset = head'.wrkOffset := by
    rw [VaultHead.wrkOffset, VaultHead.wrkOffset, hheaderLen]
  have hlen : head.wrkBytes.length = head'.wrkBytes.length := by
    have hfound := h.recordFrameLenAt_eq
    rw [hoffset, h'.recordFrameLenAt_eq, Except.ok.injEq] at hfound
    rw [← toNat_u32_ofNat h.wrk_length, ← toNat_u32_ofNat h'.wrk_length, hfound]
  have hwrkBytes : head.wrkBytes = head'.wrkBytes := by
    have hat := h.wrk_at
    rw [hoffset] at hat
    exact hat.unique h'.wrk_at hlen
  have hparse := parseRecordFrame_eq_ok.mpr ⟨h.wrk_version, h.wrk_tag, head.wrkBytes,
    h.wrk_serialized, segAt_self _, toNat_u32_ofNat h.wrk_length⟩
  have hparse' := parseRecordFrame_eq_ok.mpr ⟨h'.wrk_version, h'.wrk_tag, head.wrkBytes,
    hwrkBytes ▸ h'.wrk_serialized, segAt_self _, toNat_u32_ofNat h.wrk_length⟩
  rw [hparse, Except.ok.injEq] at hparse'
  obtain ⟨header, headerLen, tableLen, wrkFrame, wrkBytes⟩ := head
  obtain ⟨header', headerLen', tableLen', wrkFrame', wrkBytes'⟩ := head'
  simp only at hheader hheaderLen htableLen hwrkBytes hparse'
  rw [hheader, hheaderLen, htableLen, hwrkBytes, hparse']

/-- What the checks on the untrusted file leave of a file with a head. -/
theorem HeadOf.parseAndValidate_eq {bytes : Bytes} {head : VaultHead} (h : HeadOf bytes head)
    (hle : ¬ bytes.length > maxVaultFileLen) :
    UntrustedVaultFile.parseAndValidate bytes = .ok ⟨bytes, head.header, head.tableLen.toNat,
      head.wrkOffset, UInt32.ofNat head.wrkBytes.length⟩ := by
  have hwrkLe := h.wrk_at.le
  have hmin : headerMinLen = 26 := rfl
  have hoffset : head.wrkOffset = headerMinLen + head.headerLen.toNat := rfl
  have hlong := length_of_serializeRecordFrame h.wrk_serialized
  have hmax := length_le_of_parseHeader h.header_parsed
  rw [frameLenFor] at hlong
  simp only [UntrustedVaultFile.parseAndValidate, bind_eq_ok, rejectIf_eq_ok, okOr_eq_ok,
    checkedAdd_eq_some, readPrefixField_eq_ok, pure_eq_ok, Except.ok.injEq]
  exact ⟨(), hle, head.header, h.header_parsed, (), by omega, _,
    ⟨head.headerLen, h.headerLen_at, rfl⟩, _, ⟨head.tableLen, h.tableLen_at, rfl⟩, _,
      ⟨rfl, by omega⟩, _, h.recordFrameLenAt_eq, rfl⟩

/-- `unlock` accepts a file within the ceiling that begins with a head, if
the password opens the head's root key and the metadata key the table. -/
theorem unlockBytes_eq_ok {platform : Platform} {path : Path} {password bytes : Bytes}
    {session : UnlockedVault} :
    unlockBytes platform path password bytes = .ok session
      ↔ bytes.length ≤ maxVaultFileLen ∧ ∃ (head : VaultHead) (entries : List RecordTableEntry),
        HeadOf bytes head ∧ head.deriveKeys platform password = .ok session.keys
        ∧ head.openTable platform bytes session.keys.metadataKey = .ok entries
        ∧ session.path = path
        ∧ session.context = ⟨head.header.vaultId, head.header.headerNonce,
          head.header.profileSet⟩ := by
  constructor
  · intro h
    simp only [unlockBytes, bind_eq_ok, okOr_eq_ok, slice?_eq_some_iff,
      checkedAdd_eq_some, pure_eq_ok, Except.ok.injEq] at h
    obtain ⟨untrusted, hparse, tail, ⟨htail, htailLen⟩, frame, hframe, _, haad, keys, hkeys, _,
      ⟨rfl, -⟩, _, ⟨rfl, -⟩, entries, hopen, rfl⟩ := h
    simp only [UntrustedVaultFile.parseAndValidate, bind_eq_ok, rejectIf_eq_ok, okOr_eq_ok,
      checkedAdd_eq_some, readPrefixField_eq_ok, pure_eq_ok, Except.ok.injEq] at hparse
    obtain ⟨-, hle, header, hheader, -, -, _, ⟨headerLen, hheaderLen, rfl⟩, _,
      ⟨tableLen, htableLen, rfl⟩, _, ⟨rfl, -⟩, wrkLen, hwrkLen, rfl⟩ := hparse
    obtain ⟨hschema, haead, hkdf, hpqc⟩ := profileSet_of_parseHeader hheader
    have hmax := length_le_of_parseHeader hheader
    simp only [hschema, haead, hkdf, hpqc] at hframe haad hkeys hopen htail htailLen
    have hprofile := (supported_of_parseHeader hmax hheader).2.2.1
    rw [hprofile, parseRecordFrame_eq_ok] at hframe
    obtain ⟨hversion, htag, wrkBytes, hwrk, hseg, hlen⟩ := hframe
    simp only [validateStoredRecordAad, bind_eq_ok, rejectIf_eq_ok, Decidable.not_not] at haad
    obtain ⟨-, -, haad⟩ := haad
    have haadEq : frame.storedAad = itemRecordAad header frame.recordId frame.revisionId
        recordKindWrappedRootKey := List.Vector.toList_injective haad
    have hlt := wrkLen.toNat_lt
    refine ⟨by omega, ⟨header, headerLen, tableLen, frame, wrkBytes⟩, entries,
      ⟨hheader, hheaderLen, htableLen, hwrk, htail.trans hseg, by simp only; omega, hversion, htag,
        haadEq⟩, ?_, ?_, rfl, rfl⟩
    · simp only [VaultHead.deriveKeys, haadEq]
      exact hkeys
    · simp only [VaultHead.openTable, VaultHead.tableOffset, VaultHead.wrkOffset, ← hlen]
      exact hopen
  · rintro ⟨hle, head, entries, hhead, hkeys, hopen, rfl, hcontext⟩
    have hmax := length_le_of_parseHeader hhead.header_parsed
    obtain ⟨hschema, haead, hkdf, hpqc⟩ := profileSet_of_parseHeader hhead.header_parsed
    have hprofile := (supported_of_parseHeader hmax hhead.header_parsed).2.2.1
    obtain ⟨tail, htail, htailLen, hat⟩ := hhead.wrk_at.exists_tail
    have hwrkLen := toNat_u32_ofNat hhead.wrk_length
    have hslice : slice? bytes head.wrkOffset bytes.length = some tail :=
      slice?_eq_some_iff.mpr ⟨htail, htailLen⟩
    have hframe : parseRecordFrame tail (UInt32.ofNat head.wrkBytes.length) head.header.aeadProfile
        = .ok head.wrkFrame := by
      rw [hprofile, parseRecordFrame_eq_ok]
      exact ⟨hhead.wrk_version, hhead.wrk_tag, head.wrkBytes, hhead.wrk_serialized, hat, hwrkLen⟩
    have haadOk : validateStoredRecordAad head.wrkFrame.storedAad.toList head.wrkFrame.storedAad
        = .ok () := by
      simp only [validateStoredRecordAad, bind_eq_ok, rejectIf_eq_ok, Decidable.not_not]
      exact ⟨(), List.Vector.toList_length _, trivial⟩
    have hend : checkedAdd head.wrkOffset (UInt32.ofNat head.wrkBytes.length).toNat
        = some head.tableOffset := by
      have hat := hhead.wrk_at.le
      rw [hwrkLen, checkedAdd_eq_some]
      exact ⟨rfl, by omega⟩
    have haad := hhead.wrk_aad
    simp only [itemRecordAad] at haad
    obtain ⟨path, keys, context⟩ := session
    simp only [VaultHead.deriveKeys, VaultHead.openTable] at hkeys hopen hcontext
    subst hcontext
    simp only [unlockBytes, hhead.parseAndValidate_eq (not_lt.mpr hle), ok_bind, hslice, okOr_some,
      hschema, haead, hkdf, hpqc, hframe, ← haad, haadOk, hkeys, hend, hopen, pure_eq_ok]

/-- `unlock` reads the file and then decides by its bytes. -/
theorem unlock_of_some {platform : Platform} {io : IoFaults} {path : Path} {password bytes : Bytes}
    {fs : Fs} (hpassword : password ≠ []) (hfs : fs path = some bytes) :
    unlock platform io path password fs
      = (if io.read then .error .io else unlockBytes platform path password bytes, fs) := by
  simp only [unlock, FsM.bind_apply, FsM.lift, rejectIf_neg _ hpassword, readFile_of_some hfs]
  cases io.read with
  | true => rfl
  | false => rfl

theorem unlock_eq_ok {platform : Platform} {io : IoFaults} {path : Path} {password : Bytes}
    {session : UnlockedVault} {fs : Fs} :
    (unlock platform io path password fs).1 = .ok session
      ↔ password ≠ [] ∧ io.read = false ∧ ∃ bytes, fs path = some bytes
        ∧ unlockBytes platform path password bytes = .ok session := by
  by_cases hempty : password = []
  · simp only [unlock, FsM.bind_apply, FsM.lift, rejectIf_pos _ hempty]
    simp [hempty]
  · cases hfile : fs path with
    | none =>
        cases hread : io.read with
        | true => simp [unlock, FsM.bind_apply, FsM.lift, rejectIf_neg _ hempty, readFile, hread]
        | false =>
            simp [unlock, FsM.bind_apply, FsM.lift, rejectIf_neg _ hempty, readFile, hread, hfile,
              okOr]
    | some bytes =>
        rw [unlock_of_some hempty hfile]
        cases hread : io.read with
        | true => simp
        | false => simp [hempty]

-- =============================================================== loading

/-- `load_vault` accepts a file whose header parses, in which a frame of
some length stands behind it, and whose table opens under the session's
metadata key. -/
theorem loadVaultBytesWith_eq_ok {sortExtents : List (Nat × Nat) → List (Nat × Nat)}
    {platform : Platform} {session : UnlockedVault} {bytes : Bytes} {loaded : LoadedVault} :
    loadVaultBytesWith platform sortExtents session bytes = .ok loaded
      ↔ ∃ headerLen tableLen wrkLen : UInt32, parseHeader bytes = .ok loaded.header
        ∧ SegAt bytes prefixHeaderLenOffset (leU32 headerLen)
        ∧ SegAt bytes prefixRecordTableLenOffset (leU32 tableLen)
        ∧ recordFrameLenAt bytes (headerMinLen + headerLen.toNat) = .ok wrkLen
        ∧ openSealedRecordTableV2With sortExtents platform.cipher bytes
            (headerMinLen + headerLen.toNat + wrkLen.toNat) tableLen.toNat session.keys.metadataKey
            loaded.header.vaultId loaded.header.schemaProfile
            (headerMinLen + headerLen.toNat + wrkLen.toNat) bytes.length = .ok loaded.entries
        ∧ loaded.bytes = bytes ∧ loaded.wrkFrameOffset = headerMinLen + headerLen.toNat
        ∧ loaded.wrkFrameLen = wrkLen.toNat := by
  simp only [loadVaultBytesWith, bind_eq_ok, okOr_eq_ok, checkedAdd_eq_some, pure_eq_ok,
    Except.ok.injEq]
  constructor
  · rintro ⟨header, hheader, _, hheaderLen, _, htableLen, _, ⟨rfl, -⟩, wrkLen, hwrkLen, _, ⟨rfl, -⟩,
      entries, hopen, rfl⟩
    have hmax := length_le_of_parseHeader hheader
    obtain ⟨headerLen, h10, rfl⟩ := (readPrefixU32_eq_ok hmax).mp hheaderLen
    obtain ⟨tableLen, h14, rfl⟩ := (readPrefixU32_eq_ok hmax).mp htableLen
    exact ⟨headerLen, tableLen, wrkLen, hheader, h10, h14, hwrkLen, hopen, rfl, rfl, rfl⟩
  · rintro ⟨headerLen, tableLen, wrkLen, hheader, hheaderLen, htableLen, hwrkLen,
      hopen, rfl, hoffset, hlen⟩
    have hmax := length_le_of_parseHeader hheader
    have hend := (recordFrameLenAt_eq_ok.mp hwrkLen).choose_spec.choose_spec.choose_spec.2.2.2.2
    refine ⟨loaded.header, hheader,
      _, (readPrefixU32_eq_ok hmax).mpr ⟨headerLen, hheaderLen, rfl⟩,
      _, (readPrefixU32_eq_ok hmax).mpr ⟨tableLen, htableLen, rfl⟩,
      _, ⟨rfl, by omega⟩, wrkLen, hwrkLen, _, ⟨rfl, by omega⟩, loaded.entries, hopen, ?_⟩
    rw [← hoffset, ← hlen]

theorem loadVaultBytes_eq_ok {platform : Platform} {session : UnlockedVault} {bytes : Bytes}
    {loaded : LoadedVault} :
    loadVaultBytes platform session bytes = .ok loaded
      ↔ ∃ headerLen tableLen wrkLen : UInt32, parseHeader bytes = .ok loaded.header
        ∧ SegAt bytes prefixHeaderLenOffset (leU32 headerLen)
        ∧ SegAt bytes prefixRecordTableLenOffset (leU32 tableLen)
        ∧ recordFrameLenAt bytes (headerMinLen + headerLen.toNat) = .ok wrkLen
        ∧ openSealedRecordTableV2 platform.cipher bytes
            (headerMinLen + headerLen.toNat + wrkLen.toNat) tableLen.toNat session.keys.metadataKey
            loaded.header.vaultId loaded.header.schemaProfile
            (headerMinLen + headerLen.toNat + wrkLen.toNat) bytes.length = .ok loaded.entries
        ∧ loaded.bytes = bytes ∧ loaded.wrkFrameOffset = headerMinLen + headerLen.toNat
        ∧ loaded.wrkFrameLen = wrkLen.toNat :=
  loadVaultBytesWith_eq_ok

/-- An image begins with the head its identity fixes. -/
theorem Image.headOf {platform : Platform} {v : VaultIdentity platform}
    {records : List PendingRecord} {bytes : Bytes} (h : Image v records bytes) :
    ∃ tableLen : UInt32, tableLen.toNat = tableSectionLen records.length
      ∧ HeadOf bytes ⟨v.header, 147, tableLen, v.wrkFrame, v.wrkBytes⟩ := by
  obtain ⟨-, tableLen, hheader, htableLen, h10, h14, -, hwrkSeg, -⟩ := h.parts
  refine ⟨tableLen, htableLen, hheader, h10, h14, v.wrk_serialized, hwrkSeg, ?_, v.wrk_version, ?_,
    v.wrk_aad⟩
  · rw [v.length_wrkBytes]
    decide
  · rw [v.wrk_ciphertext]
    decide

end MeissnerSeal
