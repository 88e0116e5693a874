/-
The vault file as a function of its records.

# What a file is made of

`VaultIdentity` is what `create` fixes for the lifetime of a vault: the
header, the wrapped-root-key frame and the keys the password opens it
to. `Image v records bytes` says that `bytes` is the file of vault `v`
over the frames `records`, in order: prefix, header, root-key frame,
sealed table, frames. Every writer of the repository writes an image and
every reader inverts one; this file proves both.
-/
import MeissnerSeal.Vault.SealedTable
import MeissnerSeal.Item.Store
import Mathlib.Algebra.Order.BigOperators.Group.List
import Mathlib.Algebra.Order.Ring.Nat

namespace MeissnerSeal

open ByteCodec ExceptRules

/-- What stays of a vault from its creation on, with the serialized
forms and the key derivation that make it one. -/
structure VaultIdentity (platform : Platform) where
  header : VaultHeader
  headerBytes : Bytes
  wrkFrame : RecordFrame
  wrkBytes : Bytes
  keys : UnlockedKeys
  password : Bytes
  header_serialized : serializeHeader header = .ok headerBytes
  wrk_serialized : serializeRecordFrame wrkFrame wrkFrame.storedAad = .ok wrkBytes
  wrk_version : wrkFrame.frameVersion = formatVersion
  wrk_ciphertext : wrkFrame.ciphertext.length = 48
  wrk_aad : wrkFrame.storedAad = buildAad header.vaultId header.formatVersion
    header.schemaProfile header.aeadProfile header.kdfProfile header.pqcProfile
    wrkFrame.recordId wrkFrame.revisionId recordKindWrappedRootKey
  password_ne : password ≠ []
  keys_derived : deriveSessionKeys platform password header.vaultId header.headerNonce
    header.profileSet.aeadProfile header.kdfParams wrkFrame.ciphertext wrkFrame.nonce
    wrkFrame.storedAad = .ok keys

variable {platform : Platform} (v : VaultIdentity platform)

/-- Where the record table starts. -/
def tableOffset : Nat := 369

/-- Header and WRK frame have fixed lengths. -/
theorem VaultIdentity.length_headerBytes : v.headerBytes.length = 147 :=
  length_of_serializeHeader v.header_serialized

theorem VaultIdentity.length_wrkBytes : v.wrkBytes.length = 196 := by
  rw [length_of_serializeRecordFrame v.wrk_serialized, v.wrk_ciphertext, frameLenFor]

/-- The length of the file over frames of these lengths. -/
def imageLen (frameLens : List Nat) : Nat :=
  tableOffset + tableSectionLen frameLens.length + frameLens.sum

/-- `bytes` is the file of vault `v` over `records`. -/
def Image (records : List PendingRecord) (bytes : Bytes) : Prop :=
  ∃ (entries : List RecordTableEntry) (frames table prefixBytes : Bytes)
    (draw : Option Nonce) (headerLen tableLen : UInt32) (bodyLen : UInt64),
    layoutRecords records (tableOffset + tableSectionLen records.length) = .ok (entries, frames)
    ∧ serializeSealedRecordTableV2 platform.cipher draw entries v.keys.metadataKey
        v.header.vaultId v.header.schemaProfile = .ok table
    ∧ serializePrefix formatVersion headerLen tableLen bodyLen = .ok prefixBytes
    ∧ headerLen.toNat = v.headerBytes.length ∧ tableLen.toNat = table.length
    ∧ bodyLen.toNat = (v.wrkBytes ++ (table ++ frames)).length
    ∧ bytes = prefixBytes ++ (v.headerBytes ++ (v.wrkBytes ++ (table ++ frames)))
    ∧ (records.map PendingRecord.recordId).Nodup

/-- The table entry of a record, as its frame stands in the file. -/
structure EntryFor (bytes : Bytes) (entry : RecordTableEntry) (record : PendingRecord) :
    Prop where
  recordId : entry.recordId = record.recordId
  recordKind : entry.recordKind = record.recordKind
  revisionId : entry.revisionId = record.revisionId
  frame : SegAt bytes entry.frameOffset.toNat record.frameBytes
  frameLen : entry.frameLen.toNat = record.frameBytes.length

-- =============================================================== layout

/-- What the record loop of `rewrite_vault` lays out: frames in order,
one entry each, contiguous. -/
theorem layoutRecords_spec {records : List PendingRecord} {offset : Nat}
    {entries : List RecordTableEntry} {frames : Bytes} (bytes : Bytes)
    (h : layoutRecords records offset = .ok (entries, frames)) :
    entries.length = records.length
      ∧ entries.map RecordTableEntry.recordId = records.map PendingRecord.recordId
      ∧ entries.map RecordTableEntry.recordKind = records.map PendingRecord.recordKind
      ∧ frames.length = (records.map fun record => record.frameBytes.length).sum
      ∧ FramesFrom offset entries (offset + frames.length)
      ∧ (offset ≤ usizeMax → offset + frames.length ≤ usizeMax)
      ∧ (SegAt bytes offset frames → List.Forall₂ (EntryFor bytes) entries records) := by
  induction records generalizing offset entries frames with
  | nil =>
      rw [layoutRecords, Except.ok.injEq, Prod.mk.injEq] at h
      obtain ⟨rfl, rfl⟩ := h
      simp [FramesFrom]
  | cons record records ih =>
      simp only [layoutRecords, u32Len, bind_eq_ok, okOr_eq_ok, u32TryFrom_eq_some,
        u64TryFrom_eq_some, checkedAdd_eq_some, pure_eq_ok, Except.ok.injEq, Prod.mk.injEq] at h
      obtain ⟨frameLen, hframeLen, frameOffset, hframeOffset, _, ⟨rfl, hle⟩, ⟨entries', frames'⟩,
        hloop, rfl, rfl⟩ := h
      obtain ⟨hlen, hids, hkinds, hframes, hfrom, hmax, hentries⟩ := ih hloop
      simp only at hlen hids hkinds hframes hfrom hmax hentries ⊢
      refine ⟨by simp [hlen], by simp [hids], by simp [hkinds], by simp [hframes], ?_, ?_, ?_⟩
      · refine ⟨hframeOffset, ?_⟩
        rw [hframeLen, List.length_append, ← Nat.add_assoc]
        exact hfrom
      · intro _
        have := hmax hle
        rw [List.length_append]
        omega
      · intro hseg
        rw [segAt_append] at hseg
        refine List.Forall₂.cons ⟨rfl, rfl, rfl, ?_, hframeLen⟩ (hentries hseg.2)
        rw [hframeOffset]
        exact hseg.1

/-- Every frame that was laid out fits the length of its entry. -/
theorem layoutRecords_frame_lt {records : List PendingRecord} {offset : Nat}
    {laidOut : List RecordTableEntry × Bytes} (h : layoutRecords records offset = .ok laidOut) :
    ∀ record ∈ records, record.frameBytes.length < 2 ^ 32 := by
  induction records generalizing offset laidOut with
  | nil => simp
  | cons record records ih =>
      simp only [layoutRecords, u32Len, bind_eq_ok, okOr_eq_ok, u32TryFrom_eq_some] at h
      obtain ⟨frameLen, hframeLen, _, -, _, -, _, hloop, -⟩ := h
      refine List.forall_mem_cons.mpr ⟨?_, ih hloop⟩
      rw [← hframeLen]
      exact frameLen.toNat_lt

/-- The layout succeeds when every frame fits a `u32` and the whole fits
an address. -/
theorem exists_layoutRecords {records : List PendingRecord} {offset : Nat}
    (hframes : ∀ record ∈ records, record.frameBytes.length < 2 ^ 32)
    (hmax : offset + (records.map fun record => record.frameBytes.length).sum ≤ usizeMax) :
    ∃ entries frames, layoutRecords records offset = .ok (entries, frames) := by
  induction records generalizing offset with
  | nil => exact ⟨[], [], rfl⟩
  | cons record records ih =>
      obtain ⟨hframe, hframes'⟩ := List.forall_mem_cons.mp hframes
      rw [List.map_cons, List.sum_cons] at hmax
      have hrest : offset + record.frameBytes.length
          + (records.map fun record => record.frameBytes.length).sum ≤ usizeMax := by omega
      obtain ⟨entries, frames, hloop⟩ := ih hframes' hrest
      have hu64 : offset < 2 ^ 64 := by
        have hu : usizeMax < 2 ^ 64 := by decide
        omega
      have hofs : u64TryFrom offset = some (UInt64.ofNat offset) := if_pos hu64
      refine ⟨⟨record.recordId, record.recordKind, record.revisionId, UInt64.ofNat offset,
        UInt32.ofNat record.frameBytes.length⟩ :: entries, record.frameBytes ++ frames, ?_⟩
      simp only [layoutRecords, u32Len, u32TryFrom_of_lt hframe, hofs, okOr_some, ok_bind,
        checkedAdd_eq_some.mpr ⟨rfl, (by omega : offset + record.frameBytes.length ≤ usizeMax)⟩,
        hloop, pure_eq_ok]

-- ================================================================ loading

/-- The session of a vault: its keys and its authenticated context. -/
def VaultIdentity.session (path : Path) : UnlockedVault :=
  { path, keys := v.keys,
    context := { vaultId := v.header.vaultId, headerNonce := v.header.headerNonce,
                 profileSet := v.header.profileSet } }

@[simp] theorem VaultIdentity.session_path (path : Path) : (v.session path).path = path := rfl
@[simp] theorem VaultIdentity.session_keys (path : Path) : (v.session path).keys = v.keys := rfl

variable {v}

/-- The parts of an image, where the readers look for them, what its table
opens to, and how the frames lie behind it. -/
theorem Image.layout {records : List PendingRecord} {bytes : Bytes} (h : Image v records bytes) :
    ∃ (entries : List RecordTableEntry) (tableLen : UInt32),
      parseHeader bytes = .ok v.header
      ∧ tableLen.toNat = tableSectionLen records.length
      ∧ SegAt bytes 10 (leU32 147) ∧ SegAt bytes 14 (leU32 tableLen)
      ∧ SegAt bytes headerMinLen v.headerBytes ∧ SegAt bytes 173 v.wrkBytes
      ∧ openSealedRecordTableV2 platform.cipher bytes tableOffset tableLen.toNat
          v.keys.metadataKey v.header.vaultId v.header.schemaProfile tableOffset bytes.length
          = .ok entries
      ∧ List.Forall₂ (EntryFor bytes) entries records
      ∧ bytes.length = imageLen (records.map fun record => record.frameBytes.length)
      ∧ bytes.length ≤ usizeMax
      ∧ (records.map PendingRecord.recordId).Nodup
      ∧ (∀ record ∈ records, AdmissibleKind record.recordKind)
      ∧ FramesFrom (tableOffset + tableSectionLen records.length) entries bytes.length := by
  obtain ⟨entries, frames, table, prefixBytes, draw, headerLen, tableLen, bodyLen, hlayout, htable,
    hleading, hheaderLen, htableLen, hbodyLen, hbytes, hnodup⟩ := h
  obtain ⟨hleadingLen, -, -, hheaderLenSeg, htableLenSeg, -, hrest⟩ :=
    segAt_front (v.headerBytes ++ (v.wrkBytes ++ (table ++ frames))) hleading
  rw [← hbytes] at hheaderLenSeg htableLenSeg hrest
  obtain ⟨hcount, hids, hkinds, hframesLen, hfrom, hmaxFrames, hentries⟩ :=
    layoutRecords_spec bytes hlayout
  have htableSection := length_of_serializeSealedRecordTableV2 htable
  have htableLt := tableLen.toNat_lt
  have hheader := v.length_headerBytes
  have hwrk := v.length_wrkBytes
  have hmin : headerMinLen = 26 := rfl
  have hoff : tableOffset = 369 := rfl
  have hlen147 : headerLen = 147 := UInt32.toNat_inj.mp (hheaderLen.trans hheader)
  rw [hcount] at htableSection
  -- the four sections behind the prefix
  rw [segAt_append, segAt_append, segAt_append, hheader, hwrk] at hrest
  obtain ⟨hheaderSeg, hwrkSeg, htableSeg, hframesSeg⟩ := hrest
  rw [htableSection] at hframesSeg
  have hlen : bytes.length = tableOffset + tableSectionLen records.length + frames.length := by
    rw [hbytes]
    simp only [List.length_append, hleadingLen, hheader, hwrk, htableSection]
    omega
  have hmax : bytes.length ≤ usizeMax := by
    have hsmall : tableOffset + 2 ^ 32 ≤ usizeMax := by decide
    rw [hlen]
    exact hmaxFrames (by omega)
  have hnodup' : (entries.map RecordTableEntry.recordId).Nodup := by
    rw [hids]
    exact hnodup
  have hfrom' : FramesFrom (tableOffset + table.length) entries bytes.length := by
    rw [htableSection, hlen]
    exact hfrom
  -- the parsers read the sections where the writer put them
  refine ⟨entries, tableLen, ?_, htableLen.trans htableSection, ?_, htableLenSeg, hheaderSeg,
    hwrkSeg, ?_, hentries hframesSeg, ?_, hmax, hnodup, ?_, htableSection ▸ hfrom'⟩
  · rw [hbytes] at hmax ⊢
    refine parseHeader_of_serialize v.header_serialized hleading hheaderLen ?_ hbodyLen hmax
    rw [htableLen, hbodyLen]
    simp only [List.length_append]
    omega
  · rw [← hlen147]
    exact hheaderLenSeg
  · exact openSealedRecordTableV2_of_serialize htable htableSeg htableLen hmax hfrom' hnodup'
  · rw [hlen, hframesLen, imageLen, List.length_map]
  · obtain ⟨-, hadmissible, -⟩ := serializeSealedRecordTableV2_eq_ok.mp htable
    intro record hmem
    have hmem' : record.recordKind ∈ entries.map RecordTableEntry.recordKind := by
      rw [hkinds]
      exact List.mem_map_of_mem hmem
    obtain ⟨entry, hentry, heq⟩ := List.mem_map.mp hmem'
    rw [← heq]
    exact hadmissible entry hentry

/-- The parts of an image, for a reader that finds each frame by its entry. -/
theorem Image.parts {records : List PendingRecord} {bytes : Bytes} (h : Image v records bytes) :
    ∃ (entries : List RecordTableEntry) (tableLen : UInt32),
      parseHeader bytes = .ok v.header
      ∧ tableLen.toNat = tableSectionLen records.length
      ∧ SegAt bytes 10 (leU32 147) ∧ SegAt bytes 14 (leU32 tableLen)
      ∧ SegAt bytes headerMinLen v.headerBytes ∧ SegAt bytes 173 v.wrkBytes
      ∧ openSealedRecordTableV2 platform.cipher bytes tableOffset tableLen.toNat
          v.keys.metadataKey v.header.vaultId v.header.schemaProfile tableOffset bytes.length
          = .ok entries
      ∧ List.Forall₂ (EntryFor bytes) entries records
      ∧ bytes.length = imageLen (records.map fun record => record.frameBytes.length)
      ∧ bytes.length ≤ usizeMax
      ∧ (records.map PendingRecord.recordId).Nodup
      ∧ (∀ record ∈ records, AdmissibleKind record.recordKind) := by
  obtain ⟨entries, tableLen, hheader, htableLen, h10, h14, hheaderSeg, hwrkSeg, hopen,
    hentries, hlen, hmax, hnodup, hkinds, -⟩ := h.layout
  exact ⟨entries, tableLen, hheader, htableLen, h10, h14, hheaderSeg, hwrkSeg, hopen,
    hentries, hlen, hmax, hnodup, hkinds⟩

/-- `loaded` is what loading `bytes`, an image over `records`, gives. -/
structure LoadedFrom (v : VaultIdentity platform) (records : List PendingRecord) (bytes : Bytes)
    (loaded : LoadedVault) : Prop where
  bytes_eq : loaded.bytes = bytes
  header_eq : loaded.header = v.header
  wrkFrameOffset_eq : loaded.wrkFrameOffset = 173
  wrkFrameLen_eq : loaded.wrkFrameLen = 196
  headerBytes_at : SegAt bytes headerMinLen v.headerBytes
  wrkBytes_at : SegAt bytes 173 v.wrkBytes
  entries_for : List.Forall₂ (EntryFor bytes) loaded.entries records
  length_le : bytes.length ≤ usizeMax

/-- An image loads, in every session that holds the vault's keys. -/
theorem Image.loadVaultBytes {records : List PendingRecord} {bytes : Bytes}
    {session : UnlockedVault} (h : Image v records bytes) (hkeys : session.keys = v.keys) :
    ∃ loaded, loadVaultBytes platform session bytes = .ok loaded
      ∧ LoadedFrom v records bytes loaded := by
  obtain ⟨entries, tableLen, hheader, htableLen, h10, h14, hheaderSeg, hwrkSeg, hopen, hentries,
    hlen, hmax, hnodup, hkinds⟩ := h.parts
  have hleading : ∀ {off : Nat} {n : UInt32}, SegAt bytes off (leU32 n) →
      readPrefixU32 bytes off = .ok n.toNat := by
    intro off n hseg
    have hle := hseg.le
    rw [length_leU32] at hle
    simp only [readPrefixU32, bind_eq_ok, okOr_eq_ok, checkedAdd_eq_some, slice?_eq_some_iff,
      readArray_eq_ok, pure_eq_ok, Except.ok.injEq]
    exact ⟨_, ⟨rfl, by omega⟩, leU32 n, ⟨hseg, by simp⟩, arrayLE32 n, rfl,
      by rw [u32OfLE_arrayLE32]⟩
  have hwrkLen : recordFrameLenAt bytes 173 = .ok 196 :=
    recordFrameLenAt_of_segAt v.wrk_serialized hwrkSeg hmax (by rw [v.length_wrkBytes]; rfl)
  refine ⟨⟨bytes, v.header, 173, 196, entries⟩, ?_, rfl, rfl, rfl, rfl, hheaderSeg, hwrkSeg,
    hentries, hmax⟩
  simp only [MeissnerSeal.loadVaultBytes, loadVaultBytesWith, bind_eq_ok, okOr_eq_ok,
    checkedAdd_eq_some, pure_eq_ok, Except.ok.injEq, hkeys]
  exact ⟨v.header, hheader, 147, hleading h10, tableLen.toNat, hleading h14, 173,
    ⟨rfl, by decide⟩, 196, hwrkLen, tableOffset, ⟨rfl, by decide⟩, entries, hopen, rfl⟩

-- =============================================================== rewriting

/-- Every record of an image keeps its frame bytes through a load. -/
theorem existingFrameBytes_of_entryFor {loaded : LoadedVault} {entry : RecordTableEntry}
    {record : PendingRecord} (h : EntryFor loaded.bytes entry record)
    (hmax : loaded.bytes.length ≤ usizeMax) :
    existingFrameBytes loaded entry = .ok record.frameBytes := by
  have hle := h.frame.le
  simp only [existingFrameBytes, bind_eq_ok, okOr_eq_ok, checkedAdd_eq_some, slice?_eq_some_iff]
  exact ⟨_, ⟨rfl, by rw [h.frameLen]; omega⟩, h.frame, by rw [h.frameLen]⟩

/-- Staging an entry that is not replaced gives the record it was
written from. -/
theorem stageEntries_keep {loaded : LoadedVault} {entry : RecordTableEntry}
    {record : PendingRecord} {entries : List RecordTableEntry} {position : Option Nat}
    {replacement : Option PendingRecord} {index : Nat}
    (h : EntryFor loaded.bytes entry record) (hmax : loaded.bytes.length ≤ usizeMax)
    (hposition : position ≠ some index) :
    stageEntries loaded position replacement index (entry :: entries)
      = (do let (records, unused) ← stageEntries loaded position replacement (index + 1) entries
            return (record :: records, unused)) := by
  simp only [stageEntries, if_neg hposition, existingFrameBytes_of_entryFor h hmax, ok_bind]
  rw [h.recordId, h.recordKind, h.revisionId]

/-- Entries before or behind the position are all kept. -/
theorem stageEntries_of_not_mem {loaded : LoadedVault} {entries : List RecordTableEntry}
    {records : List PendingRecord} {replacement : Option PendingRecord}
    {position : Option Nat} {index : Nat}
    (h : List.Forall₂ (EntryFor loaded.bytes) entries records)
    (hmax : loaded.bytes.length ≤ usizeMax)
    (hposition : ∀ p, position = some p → p < index ∨ index + entries.length ≤ p) :
    stageEntries loaded position replacement index entries = .ok (records, replacement) := by
  induction h generalizing index with
  | nil => rfl
  | @cons entry record entries records hentry _ ih =>
      have hne : position ≠ some index := by
        intro heq
        have hor := hposition index heq
        rw [List.length_cons] at hor
        omega
      have hrest : ∀ p, position = some p → p < index + 1 ∨ index + 1 + entries.length ≤ p := by
        intro p hp
        have hor := hposition p hp
        rw [List.length_cons] at hor
        omega
      rw [stageEntries_keep hentry hmax hne, ih hrest]
      rfl

/-- The entry at the position is replaced, every other one kept. -/
theorem stageEntries_of_mem {loaded : LoadedVault} {entries : List RecordTableEntry}
    {records : List PendingRecord} {pending : PendingRecord} {position index : Nat}
    (h : List.Forall₂ (EntryFor loaded.bytes) entries records)
    (hmax : loaded.bytes.length ≤ usizeMax) (hle : index ≤ position)
    (hlt : position < index + entries.length) :
    stageEntries loaded (some position) (some pending) index entries
      = .ok (records.set (position - index) pending, none) := by
  induction h generalizing index with
  | nil =>
      rw [List.length_nil] at hlt
      omega
  | @cons entry record entries records hentry hrest ih =>
      rw [List.length_cons] at hlt
      by_cases hhere : position = index
      · subst hhere
        have hbehind : ∀ p, some position = some p → p < position + 1
            ∨ position + 1 + entries.length ≤ p := by
          intro p hp
          injection hp with hp
          exact .inl (by omega)
        simp only [stageEntries, if_true, okOr_some, ok_bind,
          stageEntries_of_not_mem hrest hmax hbehind, Nat.sub_self, List.set_cons_zero, pure_eq_ok]
      · have hne : (some position : Option Nat) ≠ some index := fun heq =>
          hhere (Option.some.inj heq)
        have hsub : position - index = (position - (index + 1)) + 1 := by omega
        rw [stageEntries_keep hentry hmax hne, ih (by omega) (by omega), hsub,
          List.set_cons_succ]
        rfl

variable {records : List PendingRecord} {bytes : Bytes} {loaded : LoadedVault}

/-- The entries loaded are for the records of the image. -/
theorem LoadedFrom.entries_for_loaded (h : LoadedFrom v records bytes loaded) :
    List.Forall₂ (EntryFor loaded.bytes) loaded.entries records := by
  rw [h.bytes_eq]
  exact h.entries_for

theorem LoadedFrom.loaded_length_le (h : LoadedFrom v records bytes loaded) :
    loaded.bytes.length ≤ usizeMax := by
  rw [h.bytes_eq]
  exact h.length_le

/-- Staging an append. -/
theorem stageRecords_append (h : List.Forall₂ (EntryFor loaded.bytes) loaded.entries records)
    (hmax : loaded.bytes.length ≤ usizeMax) (pending : PendingRecord) :
    stageRecords loaded none (some pending) = .ok (records ++ [pending]) := by
  have hposition : ∀ p, (none : Option Nat) = some p → p < 0 ∨ 0 + loaded.entries.length ≤ p :=
    fun _ hp => nomatch hp
  simp only [stageRecords, stageEntries_of_not_mem h hmax hposition, ok_bind, pure_eq_ok]

/-- Staging a replacement. -/
theorem stageRecords_set (h : List.Forall₂ (EntryFor loaded.bytes) loaded.entries records)
    (hmax : loaded.bytes.length ≤ usizeMax) (pending : PendingRecord) {position : Nat}
    (hlt : position < records.length) :
    stageRecords loaded (some position) (some pending) = .ok (records.set position pending) := by
  have hlt' : position < 0 + loaded.entries.length := by
    rw [h.length_eq]
    omega
  simp only [stageRecords, stageEntries_of_mem h hmax (Nat.zero_le _) hlt', ok_bind, pure_eq_ok,
    Nat.sub_zero]

/-- Staging behind them keeps the records and puts the new one last. -/
theorem LoadedFrom.stageRecords_append (h : LoadedFrom v records bytes loaded)
    (pending : PendingRecord) :
    stageRecords loaded none (some pending) = .ok (records ++ [pending]) :=
  MeissnerSeal.stageRecords_append h.entries_for_loaded h.loaded_length_le pending

/-- Staging in place of one keeps the others. -/
theorem LoadedFrom.stageRecords_set (h : LoadedFrom v records bytes loaded)
    (pending : PendingRecord) {position : Nat} (hlt : position < records.length) :
    stageRecords loaded (some position) (some pending) = .ok (records.set position pending) :=
  MeissnerSeal.stageRecords_set h.entries_for_loaded h.loaded_length_le pending hlt

/-- The header and root-key sections of a loaded file, which a
rewrite copies. -/
structure LoadedVault.Sections (loaded : LoadedVault) (headerBytes wrkBytes : Bytes) : Prop where
  headerBytes_at : SegAt loaded.bytes headerMinLen headerBytes
  wrkFrameOffset_eq : loaded.wrkFrameOffset = headerMinLen + headerBytes.length
  wrkBytes_at : SegAt loaded.bytes loaded.wrkFrameOffset wrkBytes
  wrkFrameLen_eq : loaded.wrkFrameLen = wrkBytes.length
  headerBytes_lt : headerBytes.length < 2 ^ 32
  wrkBytes_lt : wrkBytes.length < 2 ^ 32
  schema : loaded.header.schemaProfile = schemaMeissnerRecordsV2

/-- Where the record table of a loaded file starts. -/
def LoadedVault.wrkFrameEnd (loaded : LoadedVault) : Nat :=
  loaded.wrkFrameOffset + loaded.wrkFrameLen

/-- What a rewrite writes. -/
theorem LoadedVault.Sections.of_rewritten {headerBytes wrkBytes : Bytes}
    {records' : List PendingRecord} {draws : Draws} {session : UnlockedVault} {out : Bytes}
    (h : loaded.Sections headerBytes wrkBytes)
    (hwrite : rewrittenVault platform draws session loaded records' = .ok out) :
    ∃ (entries : List RecordTableEntry) (frames table prefixBytes : Bytes)
      (headerLen tableLen : UInt32) (bodyLen : UInt64),
      layoutRecords records' (loaded.wrkFrameEnd + tableSectionLen records'.length)
        = .ok (entries, frames)
      ∧ serializeSealedRecordTableV2 platform.cipher draws.tableNonce entries
          session.keys.metadataKey loaded.header.vaultId loaded.header.schemaProfile = .ok table
      ∧ serializePrefix formatVersion headerLen tableLen bodyLen = .ok prefixBytes
      ∧ headerLen.toNat = headerBytes.length ∧ tableLen.toNat = table.length
      ∧ bodyLen.toNat = (wrkBytes ++ (table ++ frames)).length
      ∧ out = prefixBytes ++ (headerBytes ++ (wrkBytes ++ (table ++ frames))) := by
  have hoffset := h.wrkFrameOffset_eq
  have hwrkLen := h.wrkFrameLen_eq
  simp only [rewrittenVault, u32Len, bind_eq_ok, okOr_eq_ok, rejectIf_eq_ok, checkedAdd_eq_some,
    slice?_eq_some_iff, sealedRecordTablePaddedPlaintextLen_eq_ok, u32TryFrom_eq_some,
    u64TryFrom_eq_some, pure_eq_ok, Except.ok.injEq, Decidable.not_not] at hwrite
  obtain ⟨headerBytes', ⟨hheaderSeg, hheaderEnd⟩, _, ⟨rfl, -⟩, wrkBytes', ⟨hwrkSeg, hwrkEnd⟩, _,
    ⟨-, rfl⟩, _, ⟨rfl, -⟩, _, ⟨rfl, -⟩, ⟨entries, frames⟩, hlayout, table, htable, -, htableLen,
    hwrite⟩ := hwrite
  obtain ⟨_, ⟨rfl, -⟩, _, ⟨rfl, -⟩, headerLen, hhl, tableLen, htl, bodyLen, hbl, prefixBytes,
    hleading, rfl⟩ := hwrite
  obtain rfl : headerBytes' = headerBytes := hheaderSeg.unique h.headerBytes_at (by omega)
  obtain rfl : wrkBytes' = wrkBytes := hwrkSeg.unique h.wrkBytes_at (by omega)
  refine ⟨entries, frames, table, prefixBytes, headerLen, tableLen, bodyLen, hlayout, htable,
    hleading, hhl, htl, ?_, ?_⟩
  · rw [hbl]
    simp only [List.length_append]
    omega
  · simp only [List.append_assoc]

/-- A rewrite succeeds when the table nonce is drawn, every frame fits a
`u32`, every kind is admissible and the table is not full. -/
theorem LoadedVault.Sections.exists_rewritten {headerBytes wrkBytes : Bytes}
    {records' : List PendingRecord} {draws : Draws} {session : UnlockedVault} {tableNonce : Nonce}
    (h : loaded.Sections headerBytes wrkBytes) (hdraw : draws.tableNonce = some tableNonce)
    (hframes : ∀ record ∈ records', record.frameBytes.length < 2 ^ 32)
    (hkinds : ∀ record ∈ records', AdmissibleKind record.recordKind)
    (hcount : records'.length ≤ maxRecords) :
    ∃ out, rewrittenVault platform draws session loaded records' = .ok out := by
  have hoffset := h.wrkFrameOffset_eq
  have hwrkLen := h.wrkFrameLen_eq
  have hheaderLt := h.headerBytes_lt
  have hwrkLt := h.wrkBytes_lt
  have hmin : headerMinLen = 26 := rfl
  have hpad := paddedTableLen_lt hcount
  have hsmall : 2 ^ 60 ≤ usizeMax := by decide
  have hsection : sealedTableSectionOverhead = 44 := rfl
  have hcap : maxRecords = 2 ^ 26 := rfl
  -- no sum of lengths comes near the end of `usize`
  have hsum : (records'.map fun record => record.frameBytes.length).sum ≤ 2 ^ 58 := by
    have hall : ∀ n ∈ records'.map fun record => record.frameBytes.length, n ≤ 2 ^ 32 := by
      intro n hn
      obtain ⟨record, hmem, rfl⟩ := List.mem_map.mp hn
      exact Nat.le_of_lt (hframes record hmem)
    have hle := List.sum_le_card_nsmul _ _ hall
    rw [List.length_map, nsmul_eq_mul, Nat.cast_id] at hle
    omega
  have hmax : loaded.wrkFrameOffset + loaded.wrkFrameLen
      + (sealedTableSectionOverhead + paddedTableLen records'.length)
      + (records'.map fun record => record.frameBytes.length).sum ≤ usizeMax := by omega
  obtain ⟨entries, frames, hlayout⟩ := exists_layoutRecords hframes hmax
  obtain ⟨hlen, -, hkindsEq, hframesLen, -, -, -⟩ := layoutRecords_spec [] hlayout
  have hentryKinds : ∀ entry ∈ entries, AdmissibleKind entry.recordKind := by
    intro entry hmem
    have hmem' : entry.recordKind ∈ records'.map PendingRecord.recordKind := by
      rw [← hkindsEq]
      exact List.mem_map_of_mem hmem
    obtain ⟨record, hrecord, heq⟩ := List.mem_map.mp hmem'
    rw [← heq]
    exact hkinds record hrecord
  have htag : tagLen = 16 := rfl
  -- the table is sealed over the entries of the new layout
  obtain ⟨table, htable⟩ : ∃ table, serializeSealedRecordTableV2 platform.cipher draws.tableNonce
      entries session.keys.metadataKey loaded.header.vaultId loaded.header.schemaProfile
        = .ok table := by
    rw [h.schema]
    exact exists_serializeSealedRecordTableV2 _ _ hdraw hentryKinds (by omega)
  have htableLen := length_of_serializeSealedRecordTableV2 htable
  rw [hlen, tableSectionLen, htag] at htableLen
  simp only [rewrittenVault, u32Len, bind_eq_ok, okOr_eq_ok, rejectIf_eq_ok, checkedAdd_eq_some,
    slice?_eq_some_iff, sealedRecordTablePaddedPlaintextLen_eq_ok, u32TryFrom_eq_some,
    u64TryFrom_eq_some, pure_eq_ok, Except.ok.injEq, Decidable.not_not, serializePrefix_eq_ok]
  refine ⟨_, headerBytes, ⟨h.headerBytes_at, by omega⟩, _, ⟨rfl, by omega⟩, wrkBytes,
    ⟨h.wrkBytes_at, by omega⟩, _, ⟨by omega, rfl⟩, _, ⟨rfl, by omega⟩, _, ⟨rfl, by omega⟩, _,
    hlayout, _, htable, (), by omega, _, ⟨rfl, by omega⟩, _, ⟨rfl, by simp only; omega⟩,
    UInt32.ofNat headerBytes.length, toNat_u32_ofNat (by omega), UInt32.ofNat _,
    toNat_u32_ofNat (by omega), UInt64.ofNat _, UInt64.toNat_ofNat_of_lt' ?_, _, ⟨trivial, rfl⟩,
    rfl⟩
  have hu64 : UInt64.size = 2 ^ 64 := rfl
  simp only
  omega

/-- A header that was serialized has the profiles of this version. -/
theorem VaultIdentity.profiles (v : VaultIdentity platform) :
    v.header.formatVersion = formatVersion ∧ v.header.schemaProfile = schemaMeissnerRecordsV2
      ∧ v.header.aeadProfile = aeadXchacha20Poly1305V1 := by
  have hheader := v.header_serialized
  simp only [serializeHeader, bind_eq_ok, rejectIf_eq_ok, Decidable.not_not] at hheader
  obtain ⟨-, hversion, -, hschema, -, haead, -⟩ := hheader
  rw [hschema, haead, v.header.profileSet.eq_supported]
  exact ⟨hversion, rfl, rfl⟩

/-- The header and the WRK frame stand where a rewrite copies them from. -/
theorem LoadedFrom.sections (h : LoadedFrom v records bytes loaded) :
    loaded.Sections v.headerBytes v.wrkBytes where
  headerBytes_at := h.bytes_eq ▸ h.headerBytes_at
  wrkFrameOffset_eq := by
    rw [h.wrkFrameOffset_eq, v.length_headerBytes]
    rfl
  wrkBytes_at := by
    rw [h.bytes_eq, h.wrkFrameOffset_eq]
    exact h.wrkBytes_at
  wrkFrameLen_eq := by rw [h.wrkFrameLen_eq, v.length_wrkBytes]
  headerBytes_lt := by
    rw [v.length_headerBytes]
    decide
  wrkBytes_lt := by
    rw [v.length_wrkBytes]
    decide
  schema := h.header_eq ▸ v.profiles.2.1

/-- What a rewrite over `records'` writes is their image. -/
theorem LoadedFrom.image_of_rewritten {records' : List PendingRecord} {draws : Draws}
    {session : UnlockedVault} {bytes' : Bytes} (h : LoadedFrom v records bytes loaded)
    (hkeys : session.keys = v.keys) (hnodup : (records'.map PendingRecord.recordId).Nodup)
    (hwrite : rewrittenVault platform draws session loaded records' = .ok bytes') :
    Image v records' bytes' := by
  obtain ⟨entries, frames, table, prefixBytes, headerLen, tableLen, bodyLen, hlayout, htable,
    hleading, hhl, htl, hbl, rfl⟩ := h.sections.of_rewritten hwrite
  have hoffset : loaded.wrkFrameEnd = tableOffset := by
    rw [LoadedVault.wrkFrameEnd, h.wrkFrameOffset_eq, h.wrkFrameLen_eq]
    rfl
  rw [hoffset] at hlayout
  rw [hkeys, h.header_eq] at htable
  exact ⟨entries, frames, table, prefixBytes, draws.tableNonce, headerLen, tableLen, bodyLen,
    hlayout, htable, hleading, hhl, htl, hbl, rfl, hnodup⟩

end MeissnerSeal
