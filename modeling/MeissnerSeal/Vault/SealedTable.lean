/-
The sealed record table as its reader sees it.

# What a plaintext says

`TableHolds plaintext entries` is what the plaintext of a table says; it
names no file. What the file adds are the bounds of the frames, so one
plaintext opened in two files gives one list of entries
(`openSealedRecordTableV2_eq_ok`, `TableHolds.unique`).

# Overlaps

The reader sorts the extents by start and compares neighbours. Its sort is
unstable, so `sortExtents` stands for any order it may leave them in; no
two frames of a table that opens overlap (`sealedTable_sound`), and frames
that do not overlap are never turned away (`sealedTable_reads_back`).
-/
import MeissnerSeal.Lib.DisjointSpans
import MeissnerSeal.Vault.RecordParse

namespace MeissnerSeal

open ByteCodec ExceptRules DisjointSpans

-- ======================================================= the plaintext

/-- An entry is known from its bytes: its fields have fixed widths. -/
theorem RecordTableEntry.toBytes_inj {left right : RecordTableEntry}
    (h : left.toBytes = right.toBytes) : left = right := by
  obtain ⟨id, kind, revision, offset, len⟩ := left
  obtain ⟨id', kind', revision', offset', len'⟩ := right
  simp only [RecordTableEntry.toBytes, List.append_assoc] at h
  obtain ⟨hid, h⟩ := array_append_inj h
  obtain ⟨hkind, h⟩ := leU16_append_inj h
  obtain ⟨hrevision, h⟩ := array_append_inj h
  obtain ⟨hoffset, hlen⟩ := List.append_inj h (by rw [length_leU64, length_leU64])
  rw [hid, hkind, hrevision, leU64_inj hoffset, leU32_inj hlen]

/-- As many entries with the same bytes are the same entries. -/
theorem flatMap_toBytes_inj {left right : List RecordTableEntry} {x y : Bytes}
    (hcount : left.length = right.length)
    (h : left.flatMap RecordTableEntry.toBytes ++ x = right.flatMap RecordTableEntry.toBytes ++ y) :
    left = right := by
  induction left generalizing right with
  | nil => exact (List.length_eq_zero_iff.mp hcount.symm).symm
  | cons entry left ih =>
      cases right with
      | nil => cases hcount
      | cons entry' right =>
          rw [List.flatMap_cons, List.flatMap_cons, List.append_assoc, List.append_assoc] at h
          have hentry : entry.toBytes.length = entry'.toBytes.length := by
            rw [entry.length_toBytes, entry'.length_toBytes]
          obtain ⟨hhead, htail⟩ := List.append_inj h hentry
          rw [RecordTableEntry.toBytes_inj hhead, ih (Nat.succ.inj hcount) htail]

/-- The plaintext of a table that lists these entries: their number, the
entries, and zeros up to a power of two of them. -/
def TableHolds (plaintext : Bytes) (entries : List RecordTableEntry) : Prop :=
  ∃ (count : UInt32) (padding : Bytes) (bucket : Nat), count.toNat = entries.length
    ∧ plaintext = leU32 count ++ entries.flatMap RecordTableEntry.toBytes ++ padding
    ∧ padding.any (· ≠ 0) = false ∧ bucket.isPowerOfTwo
    ∧ plaintext.length = recordTableCountLen + bucket * recordTableEntryLen

/-- Such a plaintext as its reader takes it apart. -/
theorem tableHolds_iff_segAt {plaintext : Bytes} {entries : List RecordTableEntry} :
    TableHolds plaintext entries
      ↔ ∃ (count : UInt32) (padding : Bytes), count.toNat = entries.length
        ∧ SegAt plaintext 0 (leU32 count)
        ∧ SegAt plaintext 4 (entries.flatMap RecordTableEntry.toBytes)
        ∧ SegAt plaintext (4 + entries.length * recordTableEntryLen) padding
        ∧ plaintext.length = 4 + entries.length * recordTableEntryLen + padding.length
        ∧ padding.any (· ≠ 0) = false
        ∧ (plaintext.length - 4) % recordTableEntryLen = 0
        ∧ ((plaintext.length - 4) / recordTableEntryLen).isPowerOfTwo := by
  have hcountLen : recordTableCountLen = 4 := rfl
  have hentries := length_flatMap_toBytes entries
  constructor
  · rintro ⟨count, padding, bucket, hcount, hplain, hzero, hpow, hlen⟩
    have hparts := segAt_self plaintext
    have hlong := congrArg List.length hplain
    rw [hplain, segAt_append, segAt_append, ← hplain] at hparts
    simp only [List.length_append, length_leU32, hentries, Nat.zero_add] at hparts hlong
    obtain ⟨⟨hcountSeg, hentriesSeg⟩, hpadSeg⟩ := hparts
    have hbucket : plaintext.length - 4 = bucket * recordTableEntryLen := by
      rw [hlen, hcountLen, Nat.add_sub_cancel_left]
    refine ⟨count, padding, hcount, hcountSeg, hentriesSeg, hpadSeg, hlong, hzero, ?_, ?_⟩
    · rw [hbucket]
      exact Nat.mul_mod_left ..
    · rw [hbucket, Nat.mul_div_cancel _ (by decide)]
      exact hpow
  · rintro ⟨count, padding, hcount, hcountSeg, hentriesSeg, hpadSeg, hlong, hzero, hmod, hpow⟩
    refine ⟨count, padding, _, hcount, SegAt.eq_of_length ?_ ?_, hzero, hpow, ?_⟩
    · rw [segAt_append, segAt_append]
      simp only [List.length_append, length_leU32, hentries, Nat.zero_add]
      exact ⟨⟨hcountSeg, hentriesSeg⟩, hpadSeg⟩
    · simp only [List.length_append, length_leU32, hentries]
      exact hlong.symm
    · have hdiv := Nat.div_add_mod (plaintext.length - 4) recordTableEntryLen
      rw [hmod, Nat.add_zero, Nat.mul_comm] at hdiv
      rw [hdiv, hcountLen]
      omega

/-- A plaintext lists one sequence of entries. -/
theorem TableHolds.unique {plaintext : Bytes} {left right : List RecordTableEntry}
    (hleft : TableHolds plaintext left) (hright : TableHolds plaintext right) : left = right := by
  obtain ⟨count, padding, -, hcount, hplain, -⟩ := hleft
  obtain ⟨count', padding', -, hcount', hplain', -⟩ := hright
  rw [hplain, List.append_assoc, List.append_assoc] at hplain'
  obtain ⟨hlen, htail⟩ := List.append_inj hplain' rfl
  refine flatMap_toBytes_inj ?_ htail
  rw [← hcount, ← hcount', leU32_inj hlen]

/-- What a table seals lists its entries. -/
theorem tableHolds_tablePlaintext {count : UInt32} {entries : List RecordTableEntry}
    (hcount : count.toNat = entries.length) :
    TableHolds (tablePlaintext count entries) entries := by
  have hentries := length_flatMap_toBytes entries
  have hpow := Nat.mul_le_mul_right recordTableEntryLen (le_nextPowerOfTwo entries.length)
  have hfits : (leU32 count ++ entries.flatMap RecordTableEntry.toBytes).length
      ≤ paddedTableLen entries.length := by
    rw [List.length_append, length_leU32, hentries, paddedTableLen]
    exact Nat.add_le_add_left hpow 4
  exact ⟨count, _, nextPowerOfTwo entries.length, hcount, resizeZero_of_le hfits, by simp, ⟨_, rfl⟩,
    length_tablePlaintext count entries⟩

/-- The entry at a cursor. -/
theorem readTableEntry_eq_ok {plaintext : Bytes} {cursor stop : Nat} {entry : RecordTableEntry}
    (hmax : cursor + recordTableEntryLen ≤ usizeMax) :
    readTableEntry plaintext cursor = .ok (entry, stop)
      ↔ SegAt plaintext cursor entry.toBytes ∧ stop = cursor + recordTableEntryLen := by
  have hentry : recordTableEntryLen = 46 := rfl
  have hfield : ∀ {n off : Nat} {v : U8Array n}, readTableField n plaintext off = .ok v
      ↔ SegAt plaintext off v.toList ∧ off + n ≤ usizeMax := by
    intro n off v
    simp only [readTableField, bind_eq_ok, usizeAdd_eq_ok, okOr_eq_ok, slice?_eq_some_iff,
      readArray_eq_ok]
    constructor
    · rintro ⟨_, ⟨rfl, hoff⟩, _, ⟨hseg, -⟩, rfl⟩
      exact ⟨hseg, hoff⟩
    · rintro ⟨hseg, hoff⟩
      exact ⟨_, ⟨rfl, hoff⟩, v.toList, ⟨hseg, by simp⟩, rfl⟩
  simp only [readTableEntry, bind_eq_ok, usizeAdd_eq_ok, hfield, pure_eq_ok, Except.ok.injEq,
    Prod.mk.injEq, RecordTableEntry.toBytes, segAt_append, List.length_append, length_leU16,
    length_leU64, List.Vector.toList_length, Nat.reduceAdd]
  constructor
  · rintro ⟨id, ⟨hid, -⟩, _, ⟨rfl, -⟩, kind, ⟨hkind, -⟩, _, ⟨rfl, -⟩, revision, ⟨hrevision, -⟩, _,
      ⟨rfl, -⟩, offset, ⟨hoffset, -⟩, _, ⟨rfl, -⟩, len, ⟨hlen, -⟩, _, ⟨rfl, -⟩, rfl, rfl⟩
    simp only [leU16_u16OfLE, leU64_u64OfLE, leU32_u32OfLE]
    exact ⟨⟨⟨⟨⟨hid, hkind⟩, hrevision⟩, hoffset⟩, hlen⟩, by rw [hentry]⟩
  · rintro ⟨⟨⟨⟨⟨hid, hkind⟩, hrevision⟩, hoffset⟩, hlen⟩, rfl⟩
    refine ⟨entry.recordId, ⟨hid, by omega⟩, _, ⟨rfl, by omega⟩, arrayLE16 entry.recordKind,
      ⟨hkind, by omega⟩, _, ⟨rfl, by omega⟩, entry.revisionId, ⟨hrevision, by omega⟩, _,
      ⟨rfl, by omega⟩, arrayLE64 entry.frameOffset, ⟨hoffset, by omega⟩, _, ⟨rfl, by omega⟩,
      arrayLE32 entry.frameLen, ⟨hlen, by omega⟩, _, ⟨rfl, by omega⟩, ?_, by rw [hentry]⟩
    rw [u16OfLE_arrayLE16, u64OfLE_arrayLE64, u32OfLE_arrayLE32]

/-- An entry that may stand in the table of a file. -/
structure RecordTableEntry.Admitted (wrkFrameEnd fileLen sealedTableEnd : Nat)
    (entry : RecordTableEntry) : Prop where
  kind : AdmissibleKind entry.recordKind
  wrkFrameEnd_le : wrkFrameEnd ≤ entry.frameOffset.toNat
  sealedTableEnd_le : sealedTableEnd ≤ entry.frameOffset.toNat
  le_fileLen : entry.frameOffset.toNat + entry.frameLen.toNat ≤ fileLen

/-- The scan that has taken in more entries. -/
def TableScan.extend (scan : TableScan) (entries : List RecordTableEntry) : TableScan where
  entries := scan.entries ++ entries
  liveRecordIds := (entries.map RecordTableEntry.recordId).reverse ++ scan.liveRecordIds
  frameExtents := scan.frameExtents ++ entries.map RecordTableEntry.extent

/-- The checks on one entry, and that its id is not one of those before it. -/
theorem admitTableEntry_eq_ok {wrkFrameEnd fileLen sealedTableEnd : Nat} {scan scan' : TableScan}
    {entry : RecordTableEntry} (hfile : fileLen ≤ usizeMax) :
    admitTableEntry wrkFrameEnd fileLen sealedTableEnd scan entry = .ok scan'
      ↔ entry.Admitted wrkFrameEnd fileLen sealedTableEnd ∧ entry.recordId ∉ scan.liveRecordIds
        ∧ scan' = scan.extend [entry] := by
  simp only [admitTableEntry, bind_eq_ok, rejectIf_eq_ok, okOr_eq_ok,
    checkedAdd_eq_some, pure_eq_ok, Except.ok.injEq]
  constructor
  · rintro ⟨-, hkind, _, ⟨rfl, -⟩, -, hbounds, -, htable, -, hnew, rfl⟩
    exact ⟨⟨hkind, by omega, by omega, by omega⟩, hnew, rfl⟩
  · rintro ⟨hadmitted, hnew, rfl⟩
    have hwrk := hadmitted.wrkFrameEnd_le
    have htable := hadmitted.sealedTableEnd_le
    have hend := hadmitted.le_fileLen
    exact ⟨(), hadmitted.kind, _, ⟨rfl, by omega⟩, (), by omega, (), by omega, (), hnew, rfl⟩

/-- The loop takes in the entries behind its cursor. -/
theorem scanTableEntries_eq_ok {plaintext : Bytes} {wrkFrameEnd fileLen sealedTableEnd count cursor
    stop : Nat} {scan scan' : TableScan} (hfile : fileLen ≤ usizeMax)
    (hmax : cursor + count * recordTableEntryLen ≤ usizeMax) (hcursor : cursor ≤ plaintext.length) :
    scanTableEntries plaintext wrkFrameEnd fileLen sealedTableEnd count cursor scan
        = .ok (stop, scan')
      ↔ ∃ entries : List RecordTableEntry, entries.length = count
        ∧ SegAt plaintext cursor (entries.flatMap RecordTableEntry.toBytes)
        ∧ (∀ entry ∈ entries, entry.Admitted wrkFrameEnd fileLen sealedTableEnd)
        ∧ (entries.map RecordTableEntry.recordId).Nodup
        ∧ (∀ entry ∈ entries, entry.recordId ∉ scan.liveRecordIds)
        ∧ stop = cursor + count * recordTableEntryLen ∧ scan' = scan.extend entries := by
  induction count generalizing cursor scan with
  | zero =>
      rw [scanTableEntries, Except.ok.injEq, Prod.mk.injEq]
      constructor
      · rintro ⟨rfl, rfl⟩
        exact ⟨[], rfl, segAt_nil hcursor, by simp, by simp, by simp, by omega,
          by simp [TableScan.extend]⟩
      · rintro ⟨entries, hcount, -, -, -, -, rfl, rfl⟩
        rw [List.length_eq_zero_iff.mp hcount]
        exact ⟨by omega, by simp [TableScan.extend]⟩
  | succ count ih =>
      rw [Nat.succ_mul] at hmax ⊢
      simp only [scanTableEntries, bind_eq_ok, Prod.exists,
        readTableEntry_eq_ok (by omega : cursor + recordTableEntryLen ≤ usizeMax),
        admitTableEntry_eq_ok hfile]
      constructor
      · rintro ⟨entry, _, ⟨hseg, rfl⟩, _, ⟨hadmitted, hnew, rfl⟩, hrest⟩
        have hle := hseg.le
        rw [entry.length_toBytes] at hle
        obtain ⟨entries, rfl, hsegs, hadmitteds, hnodup, hnews, rfl, rfl⟩ :=
          (ih (by omega) hle).mp hrest
        refine ⟨entry :: entries, rfl, ?_, List.forall_mem_cons.mpr ⟨hadmitted, hadmitteds⟩, ?_, ?_,
          by omega, by simp [TableScan.extend]⟩
        · rw [List.flatMap_cons, segAt_append, entry.length_toBytes]
          exact ⟨hseg, hsegs⟩
        · refine List.nodup_cons.mpr ⟨fun hmem => ?_, hnodup⟩
          obtain ⟨other, hother, heq⟩ := List.mem_map.mp hmem
          exact hnews other hother (by simp [TableScan.extend, heq])
        · refine List.forall_mem_cons.mpr ⟨hnew, fun other hother hmem => ?_⟩
          exact hnews other hother (by simp [TableScan.extend, hmem])
      · rintro ⟨entries, hcount, hseg, hadmitted, hnodup, hnew, rfl, rfl⟩
        obtain ⟨entry, entries, rfl⟩ := List.exists_cons_of_length_eq_add_one hcount
        rw [List.flatMap_cons, segAt_append, entry.length_toBytes] at hseg
        rw [List.map_cons, List.nodup_cons] at hnodup
        have hle := hseg.1.le
        rw [entry.length_toBytes] at hle
        refine ⟨entry, _, ⟨hseg.1, rfl⟩, _, ⟨hadmitted entry (List.mem_cons_self ..),
          hnew entry (List.mem_cons_self ..), rfl⟩, (ih (by omega) hle).mpr ⟨entries,
          Nat.succ.inj hcount, hseg.2, fun other hother => hadmitted other
            (List.mem_cons_of_mem _ hother), hnodup.2, fun other hother hmem => ?_, by omega,
          by simp [TableScan.extend]⟩⟩
        simp only [TableScan.extend, List.map_cons, List.map_nil, List.reverse_singleton,
          List.singleton_append, List.mem_cons] at hmem
        rcases hmem with heq | hmem
        · exact hnodup.1 (heq ▸ List.mem_map_of_mem hother)
        · exact hnew other (List.mem_cons_of_mem _ hother) hmem

-- ========================================================= the section

variable {cipher : XChaCha20Poly1305} {sortExtents : List (Nat × Nat) → List (Nat × Nat)}

/-- A table opens where its section stands, its ciphertext decrypts to a
plaintext that lists the entries, and the file has room for their frames. -/
theorem openSealedRecordTableV2With_eq_ok {bytes : Bytes} {offset len wrkFrameEnd fileLen : Nat}
    {key : Key} {vaultId : U8Array 16} {schema : UInt16} {entries : List RecordTableEntry}
    (hmax : bytes.length ≤ usizeMax) (hfile : fileLen ≤ usizeMax) :
    openSealedRecordTableV2With sortExtents cipher bytes offset len key vaultId schema wrkFrameEnd
        fileLen = .ok entries
      ↔ schema = schemaMeissnerRecordsV2
        ∧ ∃ (sealedLen : UInt32) (nonce : Nonce) (ciphertext plaintext : Bytes),
          SegAt bytes offset (leU32 sealedLen ++ nonce.toList ++ ciphertext)
          ∧ sealedLen.toNat = 24 + ciphertext.length ∧ len = 28 + ciphertext.length
          ∧ decrypt cipher key nonce ciphertext (vaultId.toList ++ leU16 schema) = .ok plaintext
          ∧ TableHolds plaintext entries
          ∧ (∀ entry ∈ entries, entry.Admitted wrkFrameEnd fileLen (offset + len))
          ∧ (entries.map RecordTableEntry.recordId).Nodup
          ∧ rejectOverlaps (sortExtents (entries.map RecordTableEntry.extent)) = .ok () := by
  have htag : tagLen = 16 := rfl
  have hnonceLen : xchacha20NonceLen = 24 := rfl
  have hcountLen : recordTableCountLen = 4 := rfl
  have hentry : recordTableEntryLen = 46 := rfl
  have hsmall : 4 + 2 ^ 32 * 46 ≤ usizeMax := by decide
  have hextend : ∀ entries : List RecordTableEntry,
      (TableScan.extend {} entries).entries = entries
        ∧ (TableScan.extend {} entries).frameExtents = entries.map RecordTableEntry.extent :=
    fun entries => ⟨List.nil_append _, List.nil_append _⟩
  simp only [openSealedRecordTableV2With, buildTableAadV2, bind_eq_ok, rejectIf_eq_ok, okOr_eq_ok,
    orErr_eq_ok, checkedAdd_eq_some, checkedSub_eq_some, usizeAdd_eq_ok, readU32Le_eq_ok,
    readArrayAt_eq_ok, readArray_eq_ok, sliceIndex_eq_ok, pure_eq_ok, Except.ok.injEq,
    Decidable.not_not, hcountLen, hnonceLen, htag]
  constructor
  · intro h
    obtain ⟨_, ⟨-, hschema, rfl⟩, _, ⟨rfl, -⟩, -, hbounds, sealedLen, ⟨hlenSeg, -⟩, -,
      -, _, ⟨rfl, -⟩, -, hlen, _, ⟨rfl, -⟩, nonce, ⟨hnonceSeg, -⟩, _, ⟨rfl, -⟩, h⟩ := h
    obtain ⟨ciphertext, ⟨hctSeg, hctEnd⟩, plaintext, hdec, -, hlong, _, ⟨rfl, -⟩, -,
      hmod, -, hbucket, _, ⟨hcountSeg, -⟩, count, rfl, -, hcount, h⟩ := h
    obtain ⟨_, ⟨rfl, -⟩, ⟨cursor, scan⟩, hscan, padding, ⟨hpadSeg, hpadEnd⟩, -, hzero, ⟨⟩, hoverlap,
      rfl⟩ := h
    have hcountLt := (u32OfLE count).toNat_lt
    obtain ⟨entries, hentries, hseg, hadmitted, hnodup, -, rfl, rfl⟩ :=
      (scanTableEntries_eq_ok hfile (by rw [hentry]; omega) (by omega)).mp hscan
    rw [(hextend entries).2] at hoverlap
    rw [(hextend entries).1]
    rw [not_or, Decidable.not_not] at hbucket
    rw [← hentries] at hpadSeg hpadEnd
    refine ⟨hschema, sealedLen, nonce, ciphertext, plaintext, ?_, by omega, by omega, hdec,
      tableHolds_iff_segAt.mpr ⟨u32OfLE count, padding, hentries.symm, ?_, hseg, hpadSeg, hpadEnd,
        by simpa using hzero, hmod, hbucket.2⟩, hadmitted, hnodup, hoverlap⟩
    · rw [segAt_append, segAt_append]
      simp only [List.length_append, length_leU32, List.Vector.toList_length, ← Nat.add_assoc]
      exact ⟨⟨hlenSeg, hnonceSeg⟩, hctSeg⟩
    · rw [leU32_u32OfLE]
      exact hcountSeg
  · rintro ⟨hschema, sealedLen, nonce, ciphertext, plaintext, hseg, hsealed, hlen, hdec, hholds,
      hadmitted, hnodup, hoverlap⟩
    obtain ⟨count, padding, hcount, hcountSeg, hentriesSeg, hpadSeg, hplainLen, hzero,
      hmod, hpow⟩ :=
      tableHolds_iff_segAt.mp hholds
    have hle := hseg.le
    rw [segAt_append, segAt_append] at hseg
    simp only [List.length_append, length_leU32, List.Vector.toList_length, ← Nat.add_assoc]
      at hseg hle
    obtain ⟨⟨hlenSeg, hnonceSeg⟩, hctSeg⟩ := hseg
    have hctLen : 16 ≤ ciphertext.length := by
      rw [decrypt, bind_eq_ok] at hdec
      obtain ⟨_, hlong, -⟩ := hdec
      rw [rejectIf_eq_ok, htag] at hlong
      omega
    have hcountLt := count.toNat_lt
    have hpos := Nat.pos_of_isPowerOfTwo hpow
    -- the scan takes the entries the plaintext holds
    have hscan : scanTableEntries plaintext wrkFrameEnd fileLen (offset + len) count.toNat 4 {}
        = .ok (4 + count.toNat * recordTableEntryLen, TableScan.extend {} entries) :=
      (scanTableEntries_eq_ok hfile (by rw [hentry]; omega) (by omega)).mpr
        ⟨entries, hcount.symm, hentriesSeg, hadmitted, hnodup, by simp, rfl, rfl⟩
    refine ⟨_, ⟨(), hschema, rfl⟩, _, ⟨rfl, by omega⟩, (), by omega, sealedLen,
      ⟨hlenSeg, by omega⟩, (), by omega, _, ⟨rfl, by omega⟩, (), by omega,
      _, ⟨rfl, by omega⟩, nonce, ⟨hnonceSeg, by omega⟩, _, ⟨rfl, by omega⟩,
      ciphertext, ⟨hctSeg, by omega⟩, plaintext, hdec, (), by omega,
      _, ⟨rfl, by omega⟩, (), hmod, (), ?_, leU32 count, ⟨hcountSeg, by simp⟩,
      arrayLE32 count, rfl, (), ?_, _, ⟨rfl, by omega⟩,
      (4 + count.toNat * recordTableEntryLen, TableScan.extend {} entries), ?_, padding, ⟨?_, ?_⟩,
      (), ?_, (), ?_, ?_⟩
    · rw [not_or, Decidable.not_not]
      exact ⟨by omega, hpow⟩
    · rw [hentry] at hplainLen
      rw [u32OfLE_arrayLE32, hentry]
      omega
    · rw [u32OfLE_arrayLE32]
      exact hscan
    · rw [hcount]
      exact hpadSeg
    · rw [hcount]
      exact hplainLen
    · rw [hzero]
      exact Bool.false_ne_true
    · rw [(hextend entries).2]
      exact hoverlap
    · exact (hextend entries).1

/-- The same with the sort of the source, whose order nothing depends on. -/
theorem openSealedRecordTableV2_eq_ok {bytes : Bytes} {offset len wrkFrameEnd fileLen : Nat}
    {key : Key} {vaultId : U8Array 16} {schema : UInt16} {entries : List RecordTableEntry}
    (hmax : bytes.length ≤ usizeMax) (hfile : fileLen ≤ usizeMax) :
    openSealedRecordTableV2 cipher bytes offset len key vaultId schema wrkFrameEnd fileLen
        = .ok entries
      ↔ schema = schemaMeissnerRecordsV2
        ∧ ∃ (sealedLen : UInt32) (nonce : Nonce) (ciphertext plaintext : Bytes),
          SegAt bytes offset (leU32 sealedLen ++ nonce.toList ++ ciphertext)
          ∧ sealedLen.toNat = 24 + ciphertext.length ∧ len = 28 + ciphertext.length
          ∧ decrypt cipher key nonce ciphertext (vaultId.toList ++ leU16 schema) = .ok plaintext
          ∧ TableHolds plaintext entries
          ∧ (∀ entry ∈ entries, entry.Admitted wrkFrameEnd fileLen (offset + len))
          ∧ (entries.map RecordTableEntry.recordId).Nodup
          ∧ rejectOverlaps ((entries.map RecordTableEntry.extent).mergeSort
              (fun left right => left.1 ≤ right.1)) = .ok () :=
  openSealedRecordTableV2With_eq_ok hmax hfile

-- ============================================================== overlaps

/-- The pass over neighbours. -/
theorem rejectOverlaps_eq_ok {spans : List (Nat × Nat)} {u : Unit} :
    rejectOverlaps spans = .ok u ↔ spans.IsChain Before := by
  induction spans with
  | nil => simp [rejectOverlaps]
  | cons s spans ih =>
      cases spans with
      | nil => simp [rejectOverlaps]
      | cons t spans =>
          rw [rejectOverlaps, List.isChain_cons_cons, ← ih, bind_eq_ok]
          constructor
          · rintro ⟨_, hchecked, hrest⟩
            exact ⟨Nat.le_of_not_lt (rejectIf_eq_ok.mp hchecked), hrest⟩
          · rintro ⟨hst, hrest⟩
            exact ⟨(), rejectIf_eq_ok.mpr (Nat.not_lt_of_le hst), hrest⟩

/-- Frames laid out in order follow one another. -/
theorem FramesFrom.before {start stop : Nat} {entries : List RecordTableEntry}
    (h : FramesFrom start entries stop) :
    (entries.map RecordTableEntry.extent).Pairwise Before
      ∧ ∀ entry ∈ entries, start ≤ entry.extent.1 ∧ entry.extent.2 ≤ stop := by
  induction entries generalizing start with
  | nil => simp
  | cons entry entries ih =>
      obtain ⟨rfl, hrest⟩ := h
      obtain ⟨hpairs, hbounds⟩ := ih hrest
      have hle := hrest.le
      refine ⟨List.pairwise_cons.mpr ⟨fun span hspan => ?_, hpairs⟩, ?_⟩
      · obtain ⟨other, hother, rfl⟩ := List.mem_map.mp hspan
        exact (hbounds other hother).1
      · refine List.forall_mem_cons.mpr ⟨⟨Nat.le_refl _, hle⟩, fun other hother => ?_⟩
        obtain ⟨hlo, hhi⟩ := hbounds other hother
        exact ⟨by omega, hhi⟩

/-- Every span of a table entry is one. -/
theorem extent_le {entries : List RecordTableEntry} :
    ∀ span ∈ entries.map RecordTableEntry.extent, span.1 ≤ span.2 := by
  intro span hspan
  obtain ⟨entry, -, rfl⟩ := List.mem_map.mp hspan
  exact Nat.le_add_right ..

/-- Where every frame has a byte, a table passes after any sort just when no
two of its frames overlap. -/
theorem SortsByStart.rejectOverlaps_eq_ok {entries : List RecordTableEntry}
    (hsort : SortsByStart sortExtents) (hlen : ∀ entry ∈ entries, 0 < entry.frameLen.toNat) :
    rejectOverlaps (sortExtents (entries.map RecordTableEntry.extent)) = .ok ()
      ↔ entries.Pairwise fun left right => Apart left.extent right.extent := by
  have hspans : ∀ span ∈ entries.map RecordTableEntry.extent, span.1 < span.2 := by
    intro span hspan
    obtain ⟨entry, hentry, rfl⟩ := List.mem_map.mp hspan
    exact Nat.lt_add_of_pos_right (hlen entry hentry)
  rw [MeissnerSeal.rejectOverlaps_eq_ok, hsort.isChain_iff hspans]
  exact List.pairwise_map

/-- Frames laid out in order pass the reader's own pass. -/
theorem FramesFrom.rejectOverlaps_eq_ok {start stop : Nat} {entries : List RecordTableEntry}
    (h : FramesFrom start entries stop) :
    rejectOverlaps ((entries.map RecordTableEntry.extent).mergeSort
      (fun left right => left.1 ≤ right.1)) = .ok () := by
  have hpairs := h.before.1
  have hsorted : (entries.map RecordTableEntry.extent).Pairwise
      fun left right => decide (left.1 ≤ right.1) = true := by
    refine List.Pairwise.imp_of_mem ?_ hpairs
    intro left right hleft _ hbefore
    exact decide_eq_true (Nat.le_trans (extent_le left hleft) hbefore)
  rw [List.mergeSort_of_pairwise hsorted, MeissnerSeal.rejectOverlaps_eq_ok]
  exact hpairs.isChain

-- ============================================================ round trip

/-- A written section opens where its frames have room and pass the
overlap check. -/
theorem openSealedRecordTableV2With_of_serialize {draw : Option Nonce}
    {entries : List RecordTableEntry} {key : Key} {vaultId : U8Array 16} {schema : UInt16}
    {table bytes : Bytes} {offset wrkFrameEnd fileLen : Nat}
    (h : serializeSealedRecordTableV2 cipher draw entries key vaultId schema = .ok table)
    (hseg : SegAt bytes offset table) (hmax : bytes.length ≤ usizeMax) (hfile : fileLen ≤ usizeMax)
    (hbounds : ∀ entry ∈ entries, offset + table.length ≤ entry.extent.1
      ∧ wrkFrameEnd ≤ entry.extent.1 ∧ entry.extent.2 ≤ fileLen)
    (hnodup : (entries.map RecordTableEntry.recordId).Nodup)
    (hoverlap : rejectOverlaps (sortExtents (entries.map RecordTableEntry.extent)) = .ok ()) :
    openSealedRecordTableV2With sortExtents cipher bytes offset table.length key vaultId schema
      wrkFrameEnd fileLen = .ok entries := by
  obtain ⟨hschema, hkinds, -, count, len, nonce, ciphertext, hcount, -, henc, hsealed, rfl⟩ :=
    serializeSealedRecordTableV2_eq_ok.mp h
  refine (openSealedRecordTableV2With_eq_ok hmax hfile).mpr ⟨hschema, len, nonce, ciphertext, _,
    hseg, hsealed, ?_, decrypt_of_encrypt henc, tableHolds_tablePlaintext hcount, ?_,
      hnodup, hoverlap⟩
  · simp only [List.length_append, length_leU32, List.Vector.toList_length]
  · intro entry hentry
    obtain ⟨htable, hwrk, hend⟩ := hbounds entry hentry
    exact ⟨hkinds entry hentry, hwrk, htable, hend⟩

/-- A sealed table over frames laid out behind it opens to its entries. -/
theorem openSealedRecordTableV2_of_serialize {draw : Option Nonce}
    {entries : List RecordTableEntry} {key : Key} {vaultId : U8Array 16} {schema : UInt16}
    {table bytes : Bytes} {offset len : Nat}
    (h : serializeSealedRecordTableV2 cipher draw entries key vaultId schema = .ok table)
    (hseg : SegAt bytes offset table) (hlen : len = table.length)
    (hmax : bytes.length ≤ usizeMax)
    (hframes : FramesFrom (offset + table.length) entries bytes.length)
    (hnodup : (entries.map RecordTableEntry.recordId).Nodup) :
    openSealedRecordTableV2 cipher bytes offset len key vaultId schema offset bytes.length
      = .ok entries := by
  subst hlen
  refine openSealedRecordTableV2With_of_serialize h hseg hmax hmax (fun entry hentry => ?_) hnodup
    hframes.rejectOverlaps_eq_ok
  obtain ⟨hlo, hhi⟩ := hframes.before.2 entry hentry
  exact ⟨hlo, by omega, hhi⟩

/-- A table opens by its section and the length of the file. -/
theorem openSealedRecordTableV2_of_same {bytes bytes' : Bytes} {offset len wrkFrameEnd : Nat}
    {key : Key} {vaultId : U8Array 16} {schema : UInt16} {entries : List RecordTableEntry}
    (h : openSealedRecordTableV2 cipher bytes offset len key vaultId schema wrkFrameEnd bytes.length
      = .ok entries) (hmax : bytes.length ≤ usizeMax) (hlength : bytes'.length = bytes.length)
    (hsame : ∀ x, x.length = len → SegAt bytes offset x → SegAt bytes' offset x) :
    openSealedRecordTableV2 cipher bytes' offset len key vaultId schema wrkFrameEnd bytes'.length
      = .ok entries := by
  obtain ⟨hschema, sealedLen, nonce, ciphertext, plaintext, hat, hsealed, hlen, hrest⟩ :=
    (openSealedRecordTableV2_eq_ok hmax hmax).mp h
  rw [hlength]
  refine (openSealedRecordTableV2_eq_ok (hlength ▸ hmax) hmax).mpr ⟨hschema, sealedLen, nonce,
    ciphertext, plaintext, hsame _ ?_ hat, hsealed, hlen, hrest⟩
  simp only [List.length_append, length_leU32, List.Vector.toList_length]
  omega

-- ========================================================= what opens

/-- No table that opens lists two records under one id, a reserved kind, a
frame outside the body, or two frames that overlap. -/
theorem sealedTable_sound (hsort : SortsByStart sortExtents) {bytes : Bytes}
    {offset len wrkFrameEnd fileLen : Nat} {key : Key} {vaultId : U8Array 16} {schema : UInt16}
    {entries : List RecordTableEntry} (hmax : bytes.length ≤ usizeMax) (hfile : fileLen ≤ usizeMax)
    (hopen : openSealedRecordTableV2With sortExtents cipher bytes offset len key vaultId schema
      wrkFrameEnd fileLen = .ok entries) :
    (entries.map RecordTableEntry.recordId).Nodup
      ∧ (∀ entry ∈ entries, entry.recordKind ≠ 0 ∧ entry.recordKind ≠ recordKindWrappedRootKey
          ∧ offset + len ≤ entry.extent.1 ∧ wrkFrameEnd ≤ entry.extent.1
          ∧ entry.extent.2 ≤ fileLen)
      ∧ entries.Pairwise fun left right => Apart left.extent right.extent := by
  obtain ⟨-, -, -, -, -, -, -, -, -, -, hadmitted, hnodup, hoverlap⟩ :=
    (openSealedRecordTableV2With_eq_ok hmax hfile).mp hopen
  refine ⟨hnodup, fun entry hentry => ?_, ?_⟩
  · have hentry := hadmitted entry hentry
    obtain ⟨hzero, hwrk⟩ := not_or.mp hentry.kind
    exact ⟨hzero, hwrk, hentry.sealedTableEnd_le, hentry.wrkFrameEnd_le, hentry.le_fileLen⟩
  · have happart := hsort.pairwise_apart extent_le (rejectOverlaps_eq_ok.mp hoverlap)
    exact List.pairwise_map.mp happart

/-- Where every frame has a byte, one sort opens what another does. -/
theorem openSealedRecordTableV2With_sort_iff {sortExtents' : List (Nat × Nat) → List (Nat × Nat)}
    (hsort : SortsByStart sortExtents) (hsort' : SortsByStart sortExtents') {bytes : Bytes}
    {offset len wrkFrameEnd fileLen : Nat} {key : Key} {vaultId : U8Array 16} {schema : UInt16}
    {entries : List RecordTableEntry} (hmax : bytes.length ≤ usizeMax) (hfile : fileLen ≤ usizeMax)
    (hlen : ∀ entry ∈ entries, 0 < entry.frameLen.toNat) :
    openSealedRecordTableV2With sortExtents cipher bytes offset len key vaultId schema wrkFrameEnd
        fileLen = .ok entries
      ↔ openSealedRecordTableV2With sortExtents' cipher bytes offset len key vaultId schema
        wrkFrameEnd fileLen = .ok entries := by
  rw [openSealedRecordTableV2With_eq_ok hmax hfile, openSealedRecordTableV2With_eq_ok hmax hfile,
    SortsByStart.rejectOverlaps_eq_ok hsort hlen, SortsByStart.rejectOverlaps_eq_ok hsort' hlen]

/-- The section the writer makes of a list of entries opens to that list,
whatever its order and length; the writer has a section for every list of up
to `maxRecords`. -/
theorem sealedTable_reads_back (hsort : SortsByStart sortExtents) {entries : List RecordTableEntry}
    (hkinds : ∀ entry ∈ entries, entry.recordKind ≠ 0
      ∧ entry.recordKind ≠ recordKindWrappedRootKey)
    (hnodup : (entries.map RecordTableEntry.recordId).Nodup)
    (hlen : ∀ entry ∈ entries, 0 < entry.frameLen.toNat)
    (hapart : entries.Pairwise fun left right => Apart left.extent right.extent) (key : Key)
    (nonce : Nonce) (vaultId : U8Array 16) :
    ((∃ table, serializeSealedRecordTableV2 cipher (some nonce) entries key vaultId
        schemaMeissnerRecordsV2 = .ok table) ↔ entries.length ≤ maxRecords)
      ∧ ∀ (schema : UInt16) (draw : Option Nonce) (table bytes : Bytes)
          (offset wrkFrameEnd fileLen : Nat),
        serializeSealedRecordTableV2 cipher draw entries key vaultId schema = .ok table →
        SegAt bytes offset table → bytes.length ≤ usizeMax → fileLen ≤ usizeMax →
        (∀ entry ∈ entries, offset + table.length ≤ entry.extent.1
          ∧ wrkFrameEnd ≤ entry.extent.1 ∧ entry.extent.2 ≤ fileLen) →
        openSealedRecordTableV2With sortExtents cipher bytes offset table.length key vaultId schema
          wrkFrameEnd fileLen = .ok entries := by
  constructor
  · constructor
    · rintro ⟨table, htable⟩
      obtain ⟨-, -, -, count, len, nonce', ciphertext, -, -, henc, hsealed, -⟩ :=
        serializeSealedRecordTableV2_eq_ok.mp htable
      have hct := cipher.length_encrypt henc
      rw [length_tablePlaintext] at hct
      have hlt := len.toNat_lt
      by_contra hcount
      have hpadded := le_paddedTableLen (Nat.lt_of_not_le hcount)
      omega
    · exact exists_serializeSealedRecordTableV2 key vaultId rfl fun entry hentry =>
        not_or.mpr (hkinds entry hentry)
  · intro schema draw table bytes offset wrkFrameEnd fileLen htable hseg hmax hfile hbounds
    exact openSealedRecordTableV2With_of_serialize htable hseg hmax hfile hbounds hnodup
      ((SortsByStart.rejectOverlaps_eq_ok hsort hlen).mpr hapart)

/-- Two items whose frames lie in the file the other way round. -/
def sampleEntries : List RecordTableEntry :=
  [{ recordId := numberedId 1, recordKind := recordKindItem, revisionId := numberedId 3,
     frameOffset := 900, frameLen := 200 },
   { recordId := numberedId 2, recordKind := recordKindTombstone, revisionId := numberedId 4,
     frameOffset := 700, frameLen := 200 }]

/-- A table of two records, in bounds for a file of 2000 bytes. -/
theorem exists_sampleTable (key : Key) (nonce : Nonce) (vaultId : U8Array 16) :
    ∃ table, serializeSealedRecordTableV2 Platform.transparent.cipher (some nonce) sampleEntries key
        vaultId schemaMeissnerRecordsV2 = .ok table ∧ table.length ≤ usizeMax
      ∧ ∀ entry ∈ sampleEntries, 0 + table.length ≤ entry.extent.1 ∧ 26 ≤ entry.extent.1
          ∧ entry.extent.2 ≤ 2000 := by
  obtain ⟨table, htable⟩ : ∃ table, serializeSealedRecordTableV2 Platform.transparent.cipher
      (some nonce) sampleEntries key vaultId schemaMeissnerRecordsV2 = .ok table :=
    exists_serializeSealedRecordTableV2 key vaultId rfl (by decide) (by decide)
  have hlen : table.length = 140 := length_of_serializeSealedRecordTableV2 htable
  refine ⟨table, htable, ?_⟩
  rw [hlen]
  decide

/-- The table of the two items, read by a merge sort. -/
theorem sealedTable_sound_of_sample :
    sampleEntries.Pairwise fun left right => Apart left.extent right.extent := by
  obtain ⟨table, htable, hmax, hbounds⟩ := exists_sampleTable (List.Vector.replicate 32 0)
    (List.Vector.replicate 24 0) (numberedId 5)
  have hfile : 2000 ≤ usizeMax := by decide
  have hoverlap : rejectOverlaps ((sampleEntries.map RecordTableEntry.extent).mergeSort
      fun left right => left.1 ≤ right.1) = .ok () :=
    rejectOverlaps_eq_ok.mpr ((sortsByStart_mergeSort.isChain_iff (by decide)).mpr (by decide))
  have hopen : openSealedRecordTableV2 Platform.transparent.cipher table 0 table.length
      (List.Vector.replicate 32 0) (numberedId 5) schemaMeissnerRecordsV2 26 2000
        = .ok sampleEntries :=
    openSealedRecordTableV2With_of_serialize htable (segAt_self table)
      hmax hfile hbounds (by decide)
      hoverlap
  exact (sealedTable_sound sortsByStart_mergeSort hmax hfile hopen).2.2

/-- The two items come back in the order they were written in. -/
theorem sealedTable_reads_back_of_sample :
    ∃ table, openSealedRecordTableV2 Platform.transparent.cipher table 0 table.length
      (List.Vector.replicate 32 0) (numberedId 5) schemaMeissnerRecordsV2 26 2000
        = .ok sampleEntries := by
  obtain ⟨table, htable, hmax, hbounds⟩ := exists_sampleTable (List.Vector.replicate 32 0)
    (List.Vector.replicate 24 0) (numberedId 5)
  have hkinds : ∀ entry ∈ sampleEntries, entry.recordKind ≠ 0
      ∧ entry.recordKind ≠ recordKindWrappedRootKey := by decide
  exact ⟨table, (sealedTable_reads_back sortsByStart_mergeSort hkinds (by decide) (by decide)
    (by decide) _ (List.Vector.replicate 24 0) _).2 _ _ table table 0 26 2000 htable
    (segAt_self table) hmax (by decide) hbounds⟩

end MeissnerSeal
