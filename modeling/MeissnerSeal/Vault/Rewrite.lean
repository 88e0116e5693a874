/-
What a load tells of a file, and what a rewrite of it writes.

# What a load takes on trust

`load_vault` parses the header of the file it finds and walks the length
fields of the root-key frame; under the session's keys it opens the record
table (`LoadedVault.Found`).

# What a rewrite carries over

A rewrite copies header and root-key frame as they stand and lays the
staged records out behind a table of its own (`LoadedVault.Wrote`).
Neither asks where the file came from.
-/
import MeissnerSeal.Item.Plans
import MeissnerSeal.Vault.Head

namespace MeissnerSeal

open ByteCodec ExceptRules

variable {platform : Platform} {bytes out headerBytes wrkBytes : Bytes} {session : UnlockedVault}
  {loaded : LoadedVault} {draws : Draws} {headerLen wrkLen : UInt32}

-- ============================================================= what is found

/-- What a successful load tells of the file. -/
structure LoadedVault.Found (loaded : LoadedVault) (bytes headerBytes wrkBytes : Bytes)
    (headerLen wrkLen : UInt32) : Prop where
  sections : loaded.Sections headerBytes wrkBytes
  bytes_eq : loaded.bytes = bytes
  length_le : bytes.length ≤ usizeMax
  header_parsed : parseHeader bytes = .ok loaded.header
  headerLen_eq : headerLen.toNat = headerBytes.length
  headerLen_at : SegAt bytes prefixHeaderLenOffset (leU32 headerLen)
  tableLen_at : ∃ tableLen : UInt32, SegAt bytes prefixRecordTableLenOffset (leU32 tableLen)
  wrkLen_eq : wrkLen.toNat = wrkBytes.length
  wrk_found : recordFrameLenAt bytes loaded.wrkFrameOffset = .ok wrkLen
  inBounds : ∀ entry ∈ loaded.entries, AdmissibleKind entry.recordKind
    ∧ entry.frameOffset.toNat + entry.frameLen.toNat ≤ bytes.length
  nodup : (loaded.entries.map RecordTableEntry.recordId).Nodup

/-- A vault that loads has its sections where the loader found them. -/
theorem found_of_load (h : loadVaultBytes platform session bytes = .ok loaded) :
    ∃ headerBytes wrkBytes headerLen wrkLen,
      loaded.Found bytes headerBytes wrkBytes headerLen wrkLen := by
  obtain ⟨headerLen, tableLen, wrkLen, hheader, h10, h14, hwrkLen, hopen, rfl, hoffset, hlen⟩ :=
    loadVaultBytes_eq_ok.mp h
  have hmax := length_le_of_parseHeader hheader
  have hschema := (supported_of_parseHeader hmax hheader).2.1
  obtain ⟨-, sealedLen, nonce, ciphertext, plaintext, hat, -, -, -, -, hadmitted, hnodup, -⟩ :=
    (openSealedRecordTableV2_eq_ok hmax hmax).mp hopen
  have hle := hat.le
  obtain ⟨headerBytes, hheaderLen, hheaderAt⟩ : ∃ x, x.length = headerLen.toNat
      ∧ SegAt loaded.bytes headerMinLen x := exists_segAt (by omega)
  obtain ⟨wrkBytes, hwrkBytes, hwrkAt⟩ : ∃ x, x.length = wrkLen.toNat
      ∧ SegAt loaded.bytes loaded.wrkFrameOffset x := exists_segAt (by omega)
  have hheaderLt := headerLen.toNat_lt
  have hwrkLt := wrkLen.toNat_lt
  refine ⟨headerBytes, wrkBytes, headerLen, wrkLen,
    ⟨⟨hheaderAt, by omega, hwrkAt, by omega, by omega, by omega, hschema⟩, rfl, hmax, hheader,
      hheaderLen.symm, h10, ⟨tableLen, h14⟩, hwrkBytes.symm, hoffset ▸ hwrkLen,
      fun entry hentry => ?_, hnodup⟩⟩
  have hentry' := hadmitted entry hentry
  exact ⟨hentry'.kind, hentry'.le_fileLen⟩

/-- The records a rewrite keeps. -/
theorem LoadedVault.Found.exists_records
    (h : loaded.Found bytes headerBytes wrkBytes headerLen wrkLen) :
    ∃ records : List PendingRecord, List.Forall₂ (EntryFor loaded.bytes) loaded.entries records
      ∧ (∀ record ∈ records, AdmissibleKind record.recordKind)
      ∧ records.map PendingRecord.recordId = loaded.entries.map RecordTableEntry.recordId := by
  have hbounds := h.inBounds
  rw [← h.bytes_eq] at hbounds
  generalize loaded.entries = entries at hbounds
  induction entries with
  | nil => exact ⟨[], List.Forall₂.nil, by simp, rfl⟩
  | cons entry entries ih =>
      obtain ⟨⟨hkind, hle⟩, hrest⟩ := List.forall_mem_cons.mp hbounds
      obtain ⟨records, hrecords, hkinds, hids⟩ := ih hrest
      obtain ⟨frameBytes, hlen, hat⟩ := exists_segAt hle
      exact ⟨⟨entry.recordId, entry.recordKind, entry.revisionId, frameBytes⟩ :: records,
        List.Forall₂.cons ⟨rfl, rfl, rfl, hat, hlen.symm⟩ hrecords,
        List.forall_mem_cons.mpr ⟨hkind, hkinds⟩, by rw [List.map_cons, List.map_cons, hids]⟩

/-- Whether a call writes, of a file that loads. -/
theorem Mutation.exists_plan_iff_of_load {call : Mutation}
    (hload : loadVaultBytes platform session bytes = .ok loaded) :
    (∃ value out seed, call.plan platform draws session bytes = .ok ⟨value, some (out, seed)⟩)
      ↔ call.Writes draws loaded := by
  obtain ⟨headerBytes, wrkBytes, headerLen, wrkLen, hfound⟩ := found_of_load hload
  obtain ⟨records, hrecords, hkinds, -⟩ := hfound.exists_records
  exact Mutation.exists_plan_iff hload hfound.sections hrecords hkinds

-- ========================================================== what is written

/-- The file a rewrite over `staged` leaves. -/
structure LoadedVault.Wrote (platform : Platform) (draws : Draws) (session : UnlockedVault)
    (loaded : LoadedVault) (headerBytes wrkBytes : Bytes) (headerLen wrkLen : UInt32)
    (staged : List PendingRecord) (out : Bytes) (tableLen : UInt32) : Prop where
  length_eq : out.length = loaded.wrkFrameEnd + tableSectionLen staged.length
    + (staged.map fun record => record.frameBytes.length).sum
  header_parsed : parseHeader out = .ok loaded.header
  headerLen_at : SegAt out prefixHeaderLenOffset (leU32 headerLen)
  tableLen_at : SegAt out prefixRecordTableLenOffset (leU32 tableLen)
  headerBytes_at : SegAt out headerMinLen headerBytes
  wrk_at : SegAt out loaded.wrkFrameOffset wrkBytes
  wrk_found : recordFrameLenAt out loaded.wrkFrameOffset = .ok wrkLen
  tableNonce_at : ∃ nonce, draws.tableNonce = some nonce
    ∧ SegAt out (loaded.wrkFrameEnd + 4) nonce.toList
  opens_iff : (∃ entries, openSealedRecordTableV2 platform.cipher out loaded.wrkFrameEnd
      tableLen.toNat session.keys.metadataKey loaded.header.vaultId loaded.header.schemaProfile
      loaded.wrkFrameEnd out.length = .ok entries)
    ↔ (staged.map PendingRecord.recordId).Nodup
  entries_for : ∀ entries, openSealedRecordTableV2 platform.cipher out loaded.wrkFrameEnd
      tableLen.toNat session.keys.metadataKey loaded.header.vaultId loaded.header.schemaProfile
      loaded.wrkFrameEnd out.length = .ok entries → List.Forall₂ (EntryFor out) entries staged
  frames_from : ∀ entries, openSealedRecordTableV2 platform.cipher out loaded.wrkFrameEnd
      tableLen.toNat session.keys.metadataKey loaded.header.vaultId loaded.header.schemaProfile
      loaded.wrkFrameEnd out.length = .ok entries →
    FramesFrom (loaded.wrkFrameEnd + tableLen.toNat) entries out.length

/-- A rewrite puts prefix, header, WRK frame, table and frames in a
row, and the parsers find each where it was put. Its table opens if no
id is in it twice. -/
theorem LoadedVault.Found.of_rewritten {staged : List PendingRecord}
    (h : loaded.Found bytes headerBytes wrkBytes headerLen wrkLen)
    (hwrite : rewrittenVault platform draws session loaded staged = .ok out) :
    ∃ tableLen, loaded.Wrote platform draws session headerBytes wrkBytes headerLen wrkLen staged out
      tableLen := by
  obtain ⟨entries, frames, table, prefixBytes, headerLen', tableLen, bodyLen, hlayout, htable,
    hleading, hhl, htl, hbl, hout⟩ := h.sections.of_rewritten hwrite
  obtain rfl : headerLen' = headerLen := UInt32.toNat_inj.mp (hhl.trans h.headerLen_eq.symm)
  have hoffset := h.sections.wrkFrameOffset_eq
  have hwrkLen := h.sections.wrkFrameLen_eq
  have hheaderLt := h.sections.headerBytes_lt
  have hwrkLt := h.sections.wrkBytes_lt
  have hend : loaded.wrkFrameEnd = loaded.wrkFrameOffset + loaded.wrkFrameLen := rfl
  have hmin : headerMinLen = 26 := rfl
  obtain ⟨hcount, hids, -, hframes, hfrom, hmaxFrames, hentries⟩ := layoutRecords_spec out hlayout
  have hsection := length_of_serializeSealedRecordTableV2 htable
  rw [hcount] at hsection
  have htableLt := tableLen.toNat_lt
  obtain ⟨hleadingLen, -, -, h10, h14, -, hrest⟩ :=
    segAt_front (headerBytes ++ (wrkBytes ++ (table ++ frames))) hleading
  -- where the sections stand in the bytes written
  have hlen : out.length = loaded.wrkFrameEnd + tableSectionLen staged.length + frames.length := by
    rw [hout]
    simp only [List.length_append, hleadingLen]
    omega
  have hmax : out.length ≤ usizeMax := by
    have hsmall : 2 ^ 40 ≤ usizeMax := by decide
    rw [hlen]
    exact hmaxFrames (by omega)
  rw [← hout, segAt_append, segAt_append, segAt_append, ← hoffset, ← hwrkLen, ← hend] at hrest
  obtain ⟨hheaderAt, hwrkAt, htableAt, hframesAt⟩ := hrest
  rw [hsection] at hframesAt
  have htableLen : tableLen.toNat = table.length := htl
  rw [← hlen, ← hsection] at hfrom
  -- the table that opens is the one that was sealed
  have hopened : ∀ entries', openSealedRecordTableV2 platform.cipher out loaded.wrkFrameEnd
      tableLen.toNat session.keys.metadataKey loaded.header.vaultId loaded.header.schemaProfile
      loaded.wrkFrameEnd out.length = .ok entries' →
      entries' = entries ∧ (entries'.map RecordTableEntry.recordId).Nodup := by
    intro entries' hopen
    obtain ⟨-, -, -, count, len, nonce, ciphertext, hcountEq, -, henc, hsealed, rfl⟩ :=
      serializeSealedRecordTableV2_eq_ok.mp htable
    obtain ⟨-, len', nonce', ciphertext', plaintext, hat, -, hlen', hdec, hholds, -, hnodup, -⟩ :=
      (openSealedRecordTableV2_eq_ok hmax hmax).mp hopen
    have hlens : (leU32 len' ++ nonce'.toList ++ ciphertext').length
        = (leU32 len ++ nonce.toList ++ ciphertext).length := by
      simp only [List.length_append, length_leU32, List.Vector.toList_length] at htableLen ⊢
      omega
    obtain ⟨hleft, rfl⟩ := List.append_inj (hat.unique htableAt hlens) (by simp)
    obtain ⟨-, hnonce⟩ := List.append_inj hleft (by simp)
    obtain rfl := List.Vector.toList_injective hnonce
    rw [decrypt_of_encrypt henc, Except.ok.injEq] at hdec
    subst hdec
    exact ⟨hholds.unique (tableHolds_tablePlaintext hcountEq), hnodup⟩
  refine ⟨tableLen, by rw [hlen, hframes], ?_, hout ▸ h10, hout ▸ h14, hheaderAt,
    hwrkAt, ?_, ?_, ?_, ?_, ?_⟩
  · rw [hout] at hmax ⊢
    -- the header is copied, so it parses as it did
    refine parseHeader_of_section h.header_parsed h.length_le h.headerLen_at
      (h.bytes_eq ▸ h.sections.headerBytes_at) hhl hleading hhl ?_ hbl hmax
    rw [htl, hbl]
    simp only [List.length_append]
    omega
  · have hfound := h.sections.wrkBytes_at
    rw [h.bytes_eq] at hfound
    exact recordFrameLenAt_of_same h.wrk_found h.wrkLen_eq hfound hwrkAt
  · obtain ⟨-, -, -, count, len, nonce, ciphertext, -, hdraw, -, -, rfl⟩ :=
      serializeSealedRecordTableV2_eq_ok.mp htable
    rw [segAt_append, segAt_append, length_leU32] at htableAt
    exact ⟨nonce, hdraw, htableAt.1.2⟩
  · rw [← hids]
    constructor
    · rintro ⟨entries', hopen⟩
      obtain ⟨rfl, hnodup⟩ := hopened entries' hopen
      exact hnodup
    · intro hnodup
      exact ⟨entries, openSealedRecordTableV2_of_serialize htable htableAt htableLen
        hmax hfrom hnodup⟩
  · intro entries' hopen
    obtain ⟨rfl, -⟩ := hopened entries' hopen
    exact hentries hframesAt
  · intro entries' hopen
    obtain ⟨rfl, -⟩ := hopened entries' hopen
    exact htableLen ▸ hfrom

end MeissnerSeal
