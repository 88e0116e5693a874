/-
A rewrite, read back in the session that made it.

# The length of the table

`rewrite_vault` lays the frames out before it seals the table that says
where they are, over a length it works out from the number of records. The
sealed table always comes out that long, so its own check never fails
(`rewrittenVault_avoids_mismatch`).

# What the session reads

The file that is written loads, and lists what was staged: each record with
its frame byte for byte, one behind the other from the end of the table to
the end of the file (`rewrite_reloads`). Where frames start together the
reader's sort may leave them in any order; a frame without a byte could then
be taken to overlap its neighbour, so all are asked to have one.
-/
import MeissnerSeal.Vault.OpenSession

namespace MeissnerSeal

open ByteCodec ExceptRules DisjointSpans

variable {platform : Platform} {bytes out : Bytes} {session : UnlockedVault} {loaded : LoadedVault}
  {draws : Draws} {call : Mutation} {records staged : List PendingRecord} {pending : PendingRecord}
  {sortExtents : List (Nat × Nat) → List (Nat × Nat)}

-- ================================================== the length of the table

/-- The error of the check on the length of the sealed table. -/
def lengthMismatch : CoreError := formatError "sealed table section length mismatch"

theorem formatError_ne {message message' : String} (h : message ≠ message') :
    formatError message ≠ formatError message' := by
  intro heq
  injection heq with heq
  exact h heq

theorem sealedRecordTablePaddedPlaintextLen_avoids (n : Nat) :
    Avoids lengthMismatch (sealedRecordTablePaddedPlaintextLen n) := by
  unfold sealedRecordTablePaddedPlaintextLen
  refine Avoids.bind ?_ fun _ _ => (avoids_okOr (formatError_ne (by decide))).bind fun _ _ =>
    avoids_okOr (formatError_ne (by decide))
  split
  · exact avoids_ok _ _
  · exact avoids_okOr (formatError_ne (by decide))

theorem layoutRecords_avoids (records : List PendingRecord) (offset : Nat) :
    Avoids lengthMismatch (layoutRecords records offset) := by
  induction records generalizing offset with
  | nil => exact avoids_ok _ _
  | cons record records ih =>
      unfold layoutRecords
      refine (avoids_okOr (formatError_ne (by decide))).bind fun _ _ => ?_
      refine (avoids_okOr (formatError_ne (by decide))).bind fun _ _ => ?_
      refine (avoids_okOr (formatError_ne (by decide))).bind fun offset' _ => ?_
      exact (ih offset').bind fun _ _ => avoids_ok _ _

theorem serializeTableEntriesV2_avoids (entries : List RecordTableEntry) :
    Avoids lengthMismatch (serializeTableEntriesV2 entries) := by
  induction entries with
  | nil => exact avoids_ok _ _
  | cons entry entries ih =>
      unfold serializeTableEntriesV2
      refine (avoids_rejectIf (formatError_ne (by decide))).bind fun _ _ => ?_
      exact ih.bind fun _ _ => avoids_ok _ _

theorem serializeSealedRecordTableV2_avoids {cipher : XChaCha20Poly1305} (draw : Option Nonce)
    (entries : List RecordTableEntry) (key : Key) (vaultId : U8Array 16) (schema : UInt16) :
    Avoids lengthMismatch
      (serializeSealedRecordTableV2 cipher draw entries key vaultId schema) := by
  unfold serializeSealedRecordTableV2 buildTableAadV2
  refine ((avoids_rejectIf (formatError_ne (by decide))).bind fun _ _ => avoids_ok _ _).bind
    fun _ _ => ?_
  refine (sealedRecordTablePaddedPlaintextLen_avoids _).bind fun _ _ => ?_
  refine (avoids_okOr (formatError_ne (by decide))).bind fun _ _ => ?_
  refine (serializeTableEntriesV2_avoids entries).bind fun _ _ => ?_
  refine (avoids_orErrUnwind (formatError_ne (by decide)) (by decide)).bind fun _ _ => ?_
  refine (avoids_okOr (formatError_ne (by decide))).bind fun _ _ => ?_
  refine (avoids_okOr (formatError_ne (by decide))).bind fun _ _ => ?_
  exact (avoids_okOr (formatError_ne (by decide))).bind fun _ _ => avoids_ok _ _

/-- The sealed table is as long as was worked out before. -/
theorem rewrittenVault_avoids_mismatch (draws : Draws) (session : UnlockedVault)
    (loaded : LoadedVault) (records : List PendingRecord) :
    Avoids lengthMismatch (rewrittenVault platform draws session loaded records) := by
  unfold rewrittenVault
  refine (avoids_okOr (formatError_ne (by decide))).bind fun headerBytes _ => ?_
  refine (avoids_okOr (formatError_ne (by decide))).bind fun wrkEnd _ => ?_
  refine (avoids_okOr (formatError_ne (by decide))).bind fun wrkBytes _ => ?_
  refine (sealedRecordTablePaddedPlaintextLen_avoids _).bind fun paddedLen hpadded => ?_
  refine (avoids_okOr (formatError_ne (by decide))).bind fun sectionLen hsection => ?_
  refine (avoids_okOr (formatError_ne (by decide))).bind fun offset _ => ?_
  refine (layoutRecords_avoids records offset).bind fun laidOut hlayout => ?_
  obtain ⟨entries, frames⟩ := laidOut
  refine Avoids.bind (serializeSealedRecordTableV2_avoids _ _ _ _ _) fun table htable => ?_
  -- the check itself
  have hlen : table.length = sectionLen := by
    obtain ⟨hcount, -⟩ := layoutRecords_spec [] hlayout
    obtain ⟨rfl, -⟩ := checkedAdd_eq_some.mp (okOr_eq_ok.mp hsection)
    obtain ⟨-, rfl⟩ := sealedRecordTablePaddedPlaintextLen_eq_ok.mp hpadded
    rw [length_of_serializeSealedRecordTableV2 htable, hcount]
    rfl
  rw [rejectIf_neg _ (not_not_intro hlen), ok_bind]
  refine (avoids_okOr (formatError_ne (by decide))).bind fun _ _ => ?_
  refine (avoids_okOr (formatError_ne (by decide))).bind fun _ _ => ?_
  refine (avoids_okOr (formatError_ne (by decide))).bind fun _ _ => ?_
  refine (avoids_okOr (formatError_ne (by decide))).bind fun _ _ => ?_
  refine (avoids_okOr (formatError_ne (by decide))).bind fun _ _ => ?_
  unfold serializePrefix
  refine Avoids.bind ?_ fun _ _ => avoids_ok _ _
  exact (avoids_rejectIf (formatError_ne (by decide))).bind fun _ _ => avoids_ok _ _

-- =========================================================== what is staged

/-- The record list a call stages around the record it has built. -/
def Mutation.stage (loaded : LoadedVault) (pending : PendingRecord) :
    Mutation → Res (List PendingRecord)
  | .add _ => stageRecords loaded none (some pending)
  | .update id _ => do
      let position ← okOr (liveItemPosition loaded id) (.notFound (idHex id))
      stageRecords loaded (some position) (some pending)
  | .delete id => do
      let position ← okOr (liveItemPosition loaded id) (.notFound (idHex id))
      stageRecords loaded (some position) (some pending)

theorem Mutation.stage_eq_ok (hload : loadVaultBytes platform session bytes = .ok loaded)
    (hrecords : List.Forall₂ (EntryFor loaded.bytes) loaded.entries records) :
    call.stage loaded pending = .ok staged ↔ call.place loaded records pending = some staged := by
  have hset : ∀ id, (okOr (liveItemPosition loaded id) (.notFound (idHex id)) >>= fun position =>
      stageRecords loaded (some position) (some pending)) = .ok staged
        ↔ ((liveItemPosition loaded id).map fun position => records.set position pending)
          = some staged := by
    intro id
    cases hposition : liveItemPosition loaded id with
    | none => simp
    | some position =>
        have hlt : position < records.length := hrecords.length_eq ▸ liveItemPosition_lt hposition
        simp only [okOr_some, ok_bind, stageRecords_set hrecords
          (length_le_of_load hload) pending hlt, Option.map_some, Except.ok.injEq,
            Option.some.injEq]
  cases call with
  | add item =>
      unfold stage place
      rw [stageRecords_append hrecords (length_le_of_load hload), Except.ok.injEq,
        Option.some.injEq]
  | update id item => exact hset id
  | delete id => exact hset id

/-- A call that writes rewrites the file over what it has staged. -/
theorem Mutation.plan_writes_iff_stage {value : Option ItemId} {seed : U8Array 16}
    (hload : loadVaultBytes platform session bytes = .ok loaded) :
    call.plan platform draws session bytes = .ok ⟨value, some (out, seed)⟩
      ↔ value = call.reply draws ∧ draws.uniqueSeed = some seed
        ∧ ∃ pending staged, call.Builds platform draws session loaded.header pending
          ∧ call.stage loaded pending = .ok staged
          ∧ rewrittenVault platform draws session loaded staged = .ok out := by
  obtain ⟨headerBytes, wrkBytes, headerLen, wrkLen, hfound⟩ := found_of_load hload
  obtain ⟨records, hrecords, -, -⟩ := hfound.exists_records
  simp only [Mutation.plan_writes_iff hload hrecords, Mutation.stage_eq_ok hload hrecords]

theorem storedFrameLen_pos (content : Option PlainItem) : 0 < storedFrameLen content := by
  cases content with
  | none => exact Nat.zero_lt_succ _
  | some item =>
      rw [storedFrameLen]
      omega

/-- No frame is staged without a byte if none is in the file. -/
theorem Mutation.Builds.staged_pos
    (hbuilds : call.Builds platform draws session loaded.header pending)
    (hrecords : List.Forall₂ (EntryFor loaded.bytes) loaded.entries records)
    (hlens : ∀ entry ∈ loaded.entries, 0 < entry.frameLen.toNat)
    (hplace : call.place loaded records pending = some staged) :
    ∀ record ∈ staged, 0 < record.frameBytes.length := by
  intro record hmem
  obtain hold | rfl := Mutation.mem_of_place hplace record hmem
  · obtain ⟨entry, hentry, hfor⟩ := hrecords.flip.exists_of_mem hold
    have hlen := hlens entry hentry
    rw [hfor.frameLen] at hlen
    exact hlen
  · rw [hbuilds.length_eq]
    exact storedFrameLen_pos _

-- ============================================================ what is read

/-- Where every frame has a byte, one sort loads what another does. -/
theorem loadVaultBytesWith_eq_ok_iff (hsort : SortsByStart sortExtents)
    (hlens : ∀ entry ∈ loaded.entries, 0 < entry.frameLen.toNat) :
    loadVaultBytesWith platform sortExtents session bytes = .ok loaded
      ↔ loadVaultBytes platform session bytes = .ok loaded := by
  rw [loadVaultBytes, loadVaultBytesWith_eq_ok, loadVaultBytesWith_eq_ok]
  constructor
  · rintro ⟨headerLen, tableLen, wrkLen, hheader, h10, h14, hwrkLen, hopen, hrest⟩
    have hmax := length_le_of_parseHeader hheader
    exact ⟨headerLen, tableLen, wrkLen, hheader, h10, h14, hwrkLen,
      (openSealedRecordTableV2With_sort_iff hsort sortsByStart_mergeSort hmax hmax hlens).mp hopen,
      hrest⟩
  · rintro ⟨headerLen, tableLen, wrkLen, hheader, h10, h14, hwrkLen, hopen, hrest⟩
    have hmax := length_le_of_parseHeader hheader
    exact ⟨headerLen, tableLen, wrkLen, hheader, h10, h14, hwrkLen,
      (openSealedRecordTableV2With_sort_iff hsort sortsByStart_mergeSort hmax hmax hlens).mpr hopen,
      hrest⟩

/-- What a load of `out` gives over what was loaded before: the same header
and root-key frame, byte for byte, and the staged records, their frames one
behind the other up to the end of the file. -/
structure LoadedVault.Reloads (loaded : LoadedVault) (staged : List PendingRecord) (out : Bytes)
    (reloaded : LoadedVault) : Prop where
  bytes_eq : reloaded.bytes = out
  header_eq : reloaded.header = loaded.header
  wrkFrameOffset_eq : reloaded.wrkFrameOffset = loaded.wrkFrameOffset
  wrkFrameEnd_eq : reloaded.wrkFrameEnd = loaded.wrkFrameEnd
  header_kept : ∃ headerBytes,
    slice? loaded.bytes headerMinLen loaded.wrkFrameOffset = some headerBytes
      ∧ slice? out headerMinLen loaded.wrkFrameOffset = some headerBytes
  wrkFrame_kept : ∃ wrkBytes,
    slice? loaded.bytes loaded.wrkFrameOffset loaded.wrkFrameEnd = some wrkBytes
      ∧ slice? out loaded.wrkFrameOffset loaded.wrkFrameEnd = some wrkBytes
  records : List.Forall₂ (EntryFor out) reloaded.entries staged
  contiguous : ∃ tableLen, readPrefixU32 out prefixRecordTableLenOffset = .ok tableLen
    ∧ FramesFrom (reloaded.wrkFrameEnd + tableLen) reloaded.entries out.length

/-- What is written over distinct ids loads. -/
theorem LoadedVault.Found.exists_reload {headerBytes wrkBytes : Bytes} {headerLen wrkLen : UInt32}
    (h : loaded.Found bytes headerBytes wrkBytes headerLen wrkLen)
    (hwrite : rewrittenVault platform draws session loaded staged = .ok out)
    (hnodup : (staged.map PendingRecord.recordId).Nodup) :
    ∃ reloaded, loadVaultBytes platform session out = .ok reloaded
      ∧ loaded.Reloads staged out reloaded := by
  obtain ⟨tableLen, hwrote⟩ := h.of_rewritten hwrite
  obtain ⟨entries, hopen⟩ := hwrote.opens_iff.mpr hnodup
  have hoffset := h.sections.wrkFrameOffset_eq
  have hwrkLen := h.sections.wrkFrameLen_eq
  have hend : loaded.wrkFrameEnd = loaded.wrkFrameOffset + loaded.wrkFrameLen := rfl
  have hstart : headerMinLen + headerLen.toNat = loaded.wrkFrameOffset := by
    rw [h.headerLen_eq, hoffset]
  have hstop : loaded.wrkFrameOffset + wrkLen.toNat = loaded.wrkFrameEnd := by
    rw [h.wrkLen_eq, hend, hwrkLen]
  have hmax := length_le_of_parseHeader hwrote.header_parsed
  refine ⟨⟨out, loaded.header, loaded.wrkFrameOffset, loaded.wrkFrameLen, entries⟩, ?_,
    rfl, rfl, rfl, rfl, ⟨headerBytes, ?_, ?_⟩, ⟨wrkBytes, ?_, ?_⟩, hwrote.entries_for _ hopen,
    tableLen.toNat, ?_, hwrote.frames_from _ hopen⟩
  · refine loadVaultBytes_eq_ok.mpr ⟨headerLen, tableLen, wrkLen, hwrote.header_parsed,
      hwrote.headerLen_at, hwrote.tableLen_at, ?_, ?_, rfl, hstart.symm, ?_⟩
    · rw [hstart]
      exact hwrote.wrk_found
    · rw [hstart, hstop]
      exact hopen
    · rw [h.wrkLen_eq]
      exact hwrkLen
  · exact slice?_eq_some_iff.mpr ⟨h.sections.headerBytes_at, hoffset⟩
  · exact slice?_eq_some_iff.mpr ⟨hwrote.headerBytes_at, hoffset⟩
  · exact slice?_eq_some_iff.mpr ⟨h.sections.wrkBytes_at, hend.trans (by rw [hwrkLen])⟩
  · exact slice?_eq_some_iff.mpr ⟨hwrote.wrk_at, hend.trans (by rw [hwrkLen])⟩
  · exact (readPrefixU32_eq_ok hmax).mpr ⟨tableLen, hwrote.tableLen_at, rfl⟩

/-- Whatever vault loads and whichever record is added, replaced or
deleted in it, the file that is written loads in the same session and
lists what was staged. -/
theorem rewrite_reloads (hsort : SortsByStart sortExtents)
    (hload : loadVaultBytesWith platform sortExtents session bytes = .ok loaded)
    (hlens : ∀ entry ∈ loaded.entries, 0 < entry.frameLen.toNat)
    (hbuilds : call.Builds platform draws session loaded.header pending)
    (hstage : call.stage loaded pending = .ok staged) (hfresh : call.FreshIn draws loaded) :
    rewrittenVault platform draws session loaded staged
        ≠ .error (formatError "sealed table section length mismatch")
      ∧ ∀ out, rewrittenVault platform draws session loaded staged = .ok out →
        ∃ reloaded, loadVaultBytesWith platform sortExtents session out = .ok reloaded
          ∧ loaded.Reloads staged out reloaded := by
  refine ⟨rewrittenVault_avoids_mismatch draws session loaded staged, fun out hwrite => ?_⟩
  rw [loadVaultBytesWith_eq_ok_iff hsort hlens] at hload
  obtain ⟨headerBytes, wrkBytes, headerLen, wrkLen, hfound⟩ := found_of_load hload
  obtain ⟨records, hrecords, -, hids⟩ := hfound.exists_records
  have hplace := (Mutation.stage_eq_ok hload hrecords).mp hstage
  have hnodup := (hbuilds.nodup_iff hids hfound.nodup hplace).mpr hfresh
  obtain ⟨reloaded, hreload, hreloads⟩ := hfound.exists_reload hwrite hnodup
  refine ⟨reloaded, (loadVaultBytesWith_eq_ok_iff hsort fun entry hentry => ?_).mpr hreload,
    hreloads⟩
  obtain ⟨record, hrecord, hfor⟩ := hreloads.records.exists_of_mem hentry
  rw [hfor.frameLen]
  exact hbuilds.staged_pos hrecords hlens hplace record hrecord

/-- The program itself writes no frame without a byte. -/
theorem Stored.frameLen_pos {v : VaultIdentity platform} {m : ItemMap} (h : Stored v m bytes)
    (hkeys : session.keys = v.keys) (hload : loadVaultBytes platform session bytes = .ok loaded) :
    ∀ entry ∈ loaded.entries, 0 < entry.frameLen.toNat := by
  obtain ⟨records, himage, hrecords⟩ := h
  obtain ⟨loaded', hload', hloaded⟩ := himage.loadVaultBytes hkeys
  obtain rfl := Except.ok.inj (hload.symm.trans hload')
  intro entry hentry
  obtain ⟨record, hrecord, hfor⟩ := hloaded.entries_for.exists_of_mem hentry
  obtain ⟨⟨id, content⟩, -, hholds⟩ := hrecords.exists_of_mem hrecord
  rw [hfor.frameLen, hholds.2.length_eq]
  exact storedFrameLen_pos content

/-- The only item of the sample vault is deleted, over a merge sort. -/
theorem rewrite_reloads_of_delete :
    ∃ (session : UnlockedVault) (bytes out : Bytes) (loaded reloaded : LoadedVault)
      (staged : List PendingRecord),
      loadVaultBytes Platform.transparent session bytes = .ok loaded
      ∧ rewrittenVault Platform.transparent sampleEnv.draws session loaded staged = .ok out
      ∧ loadVaultBytes Platform.transparent session out = .ok reloaded
      ∧ loaded.Reloads staged out reloaded := by
  obtain ⟨st, v, m, bytes, -, -, hoff, -, -, hstored, hlive⟩ :=
    @sample_added_history Unit _ (storedFrameLen_lt sampleItem_withinLimits)
  have hstatus : m.status zeroId = some (some sampleItem) :=
    TombstoneMap.mem_live.mp (hlive ▸ List.mem_singleton_self _)
  have hready : (Mutation.delete zeroId).Ready sampleEnv.draws m :=
    ⟨(drawsWith_forAdd zeroId zeroId).toForFrame, sampleItem, hstatus⟩
  have hkeys : (v.session samplePath).keys = v.keys := rfl
  obtain ⟨seed, out, -, hplan, -⟩ := hstored.plan_of_ready hkeys hready
  obtain ⟨loaded, -, hload, -⟩ := Mutation.rewritten_of_plan hplan
  obtain ⟨-, -, pending, staged, hbuilds, hstage, hwrite⟩ :=
    (Mutation.plan_writes_iff_stage hload).mp hplan
  obtain ⟨-, hreload⟩ := rewrite_reloads sortsByStart_mergeSort hload
    (hstored.frameLen_pos hkeys hload) hbuilds hstage trivial
  obtain ⟨reloaded, hreload, hreloads⟩ := hreload out hwrite
  exact ⟨_, bytes, out, loaded, reloaded, staged, hload, hwrite, hreload, hreloads⟩

end MeissnerSeal
